import Keyspace.Proofs.Builder.FirstError
import Keyspace.Proofs.Query.Prepared
import Keyspace.Query.Step
/-!
# Queries step by step

What a step makes of a query, said once for all steps: a step that is right adds at most one
condition or one fragment and sets at most one setting to what it says; a step that is wrong leaves
an error and nothing else.  From that follows what any number of steps make of it.

Main definitions:

* `Keyspace.Query.Step.condition?`, `Keyspace.Query.Step.fragment?` — what a step adds;
* `Keyspace.Query.Setting`, `Keyspace.Query.Step.says?` — what is set, and what a step says of it;
* `Keyspace.Query.Takes`, `Keyspace.Query.Took` — a query takes a step, some steps;
* `Keyspace.Query.Refuses` — every way to run a query gives its error.

Main results:

* `Keyspace.Query.takesSteps` — **what a step makes of a query**;
* `Keyspace.Query.took_of_error_none` — **the query after steps that are all right**;
* `Keyspace.Query.refuses_of_error` — a failed query sends nothing.
-/

set_option autoImplicit false

namespace Keyspace.Query

/-! ### Steps and their times -/

variable {ν : Type} [AsOperand ν]

/-- The query after a step that is taken at the time given with it. -/
def stepAt (q : Query) (s : Nat × Step ν) : Query := q.step s.1 s.2

/-- **The query after some steps**, each taken at its own time. -/
def stepsAt (q : Query) (ss : List (Nat × Step ν)) : Query := ss.foldl stepAt q

/-- Steps that are all taken at one time. -/
theorem steps_eq_stepsAt (now : Nat) (q : Query) (ss : List (Step ν)) :
    q.steps now ss = q.stepsAt (ss.map (now, ·)) := by
  rw [steps, stepsAt, List.foldl_map]
  rfl

/-! ### What a step says -/

/-- The condition that a step adds. -/
def Step.condition? : Step ν → Option Condition
  | .compare field op value => (AsOperand.encode value).toOption.map fun v => ⟨field, op, [v]⟩
  | .between field low high =>
    (AsOperand.encode low).toOption.bind fun l => (AsOperand.encode high).toOption.map fun h =>
      ⟨field, .between, [l, h]⟩
  | .oneOf field values =>
    (AsOperand.encodeAll values).toOption.map fun vs => ⟨field, .oneOf, vs⟩
  | .beginsWith field start => some ⟨field, .beginsWith, [.text start]⟩
  | .attributeExists field => some ⟨field, .attributeExists, []⟩
  | .attributeNotExists field => some ⟨field, .attributeNotExists, []⟩
  | .condition field op value =>
    (Operator.read op).toOption.bind fun op => (AsOperand.encode value).toOption.map fun v =>
      ⟨field, op, operandsOf op v⟩
  | _ => none

/-- The fragment that a step adds. -/
def Step.fragment? : Step ν → Option Fragment
  | .filter fragment => some fragment
  | _ => none

/-- What is set in a query, and not added to it. -/
inductive Setting where
  | projection
  | index
  | order
  | limit
  | cursor
  | consistent
  | scans
  | segments
  | retry
  | deadline
  deriving DecidableEq, Repr

/-- What a setting can be. -/
abbrev Setting.Choice : Setting → Type
  | .projection => List String
  | .index => Option String
  | .order => SortOrder
  | .limit => Option Int
  | .cursor => Option String
  | .consistent => Bool
  | .scans => Bool
  | .segments => Int
  | .retry => RetryPolicy
  | .deadline => Option Nat

/-- A setting of a query. -/
def setting (q : Query) : (k : Setting) → k.Choice
  | .projection => q.projection
  | .index => q.index
  | .order => q.order
  | .limit => q.limit
  | .cursor => q.cursor
  | .consistent => q.consistent
  | .scans => q.scans
  | .segments => q.segments
  | .retry => q.retry
  | .deadline => q.deadline

/-- **What a step says of a setting.** -/
def Step.says? (now : Nat) : Step ν → (k : Setting) → Option k.Choice
  | .select paths, .projection => some paths
  | .useIndex name, .index => some (some name)
  | .orderBy order, .order => some order
  | .take limit, .limit => some (some limit)
  | .startAt cursor, .cursor => some (if cursor.isEmpty then none else some cursor)
  | .consistently consistent, .consistent => some consistent
  | .scan, .scans => some true
  | .inSegments segments, .segments => some segments
  | .retrying retry, .retry => some retry
  | .before deadline, .deadline => some (some deadline)
  | .within duration, .deadline => some (some (now + duration))
  | _, _ => none

/-! ### One step -/

/-- **A query takes a step.** -/
structure Takes (q : Query) (s : Nat × Step ν) (r : Query) : Prop where
  error : r.error? = q.error?
  conditions : r.conditions.conditions = q.conditions.conditions ++ s.2.condition?.toList
  fragments : r.conditions.fragments = q.conditions.fragments ++ s.2.fragment?.toList
  settings : ∀ k, r.setting k = (s.2.says? s.1 k).getD (q.setting k)
  /-- The table and its page size are not set by steps. -/
  table : r.schema = q.schema ∧ r.pageSize = q.pageSize

section

variable {now : Nat} {q : Query} {s : Step ν}

/-- A step that adds a condition. -/
theorem rightOr_withCondition {field : String} {op : Operator} {values : List Value}
    (hcondition : s.condition? = some ⟨field, op, values⟩) (hfragment : s.fragment? = none)
    (hquiet : ∀ k, s.says? now k = none) :
    RightOr ν (q.Takes (now, s)) (q.withCondition field op values) := by
  refine .part (fun e he => TableSchema.checkAttribute_ne_error he _ _) fun _ _ =>
    .part (fun e he => Condition.check_ne_error he _ _ _) fun c hc => .ok ?_
  obtain ⟨rfl, -⟩ := Condition.check_eq_ok hc
  exact {
    error := rfl
    conditions := by rw [hcondition]; rfl
    fragments := by rw [hfragment]; exact (List.append_nil _).symm
    settings := fun k => by rw [hquiet]; cases k <;> rfl
    table := ⟨rfl, rfl⟩ }

/-- A step that sets something. -/
theorem rightOr_setting {r : Query} (hconditions : r.conditions = q.conditions)
    (hadds : s.condition? = none ∧ s.fragment? = none)
    (hsettings : ∀ k, r.setting k = (s.says? now k).getD (q.setting k))
    (htable : r.schema = q.schema ∧ r.pageSize = q.pageSize) :
    RightOr ν (q.Takes (now, s)) (.ok r) :=
  .ok {
    error := congrArg ConditionSet.error hconditions
    conditions := by rw [hadds.1, hconditions]; exact (List.append_nil _).symm
    fragments := by rw [hadds.2, hconditions]; exact (List.append_nil _).symm
    settings := hsettings
    table := htable }

end

/-- A fragment is a step that a failed query ignores, too. -/
theorem filter_eq_attempt (q : Query) (f : Fragment) :
    q.filter f = q.attempt (do
      f.validate
      .ok { q with conditions :=
        { q.conditions with fragments := q.conditions.fragments ++ [f] } }) := by
  unfold filter ConditionSet.appendFragment ConditionSet.attempt attempt failed
  split
  · rfl
  · next hnot =>
    cases f.validate with
    | ok _ => rfl
    | error e => simp [bind, Except.bind, fail, ConditionSet.fail, ConditionSet.attempt, hnot]

/-- **What a step makes of a query.** -/
theorem step_spec (now : Nat) (q : Query) (s : Step ν) :
    ∃ outcome, q.step now s = q.attempt outcome ∧ RightOr ν (q.Takes (now, s)) outcome := by
  cases s with
  | compare field op value =>
      refine ⟨_, rfl, .operand value fun v hv =>
        rightOr_withCondition ?_ rfl (fun k => by cases k <;> rfl)⟩
      simp [Step.condition?, hv, Except.toOption]
  | between field low high =>
      refine ⟨_, rfl, .operand low fun l hl => .operand high fun h hh =>
        rightOr_withCondition ?_ rfl (fun k => by cases k <;> rfl)⟩
      simp [Step.condition?, hl, hh, Except.toOption]
  | oneOf field values =>
      refine ⟨_, rfl, .operands values fun vs hvs =>
        rightOr_withCondition ?_ rfl (fun k => by cases k <;> rfl)⟩
      simp [Step.condition?, hvs, Except.toOption]
  | beginsWith field start =>
      exact ⟨_, rfl, rightOr_withCondition rfl rfl (fun k => by cases k <;> rfl)⟩
  | attributeExists field =>
      exact ⟨_, rfl, rightOr_withCondition rfl rfl (fun k => by cases k <;> rfl)⟩
  | attributeNotExists field =>
      exact ⟨_, rfl, rightOr_withCondition rfl rfl (fun k => by cases k <;> rfl)⟩
  | condition field op value =>
      refine ⟨_, rfl, .part (fun e he => Operator.read_ne_error he op) fun op hop =>
        .operand value fun v hv => rightOr_withCondition ?_ rfl (fun k => by cases k <;> rfl)⟩
      simp [Step.condition?, hop, hv, Except.toOption]
  | filter fragment =>
      refine ⟨_, filter_eq_attempt q fragment,
        .part (fun e he => Fragment.validate_ne_error he fragment) fun _ _ => .ok ?_⟩
      exact ⟨rfl, (List.append_nil _).symm, rfl, fun k => by cases k <;> rfl, rfl, rfl⟩
  | select paths =>
      refine ⟨_, rfl, .part (fun e he => ?_) fun _ _ =>
        rightOr_setting rfl ⟨rfl, rfl⟩ (fun k => by cases k <;> rfl) ⟨rfl, rfl⟩⟩
      exact forM_ne_error (TableSchema.checkAttribute_ne_error he q.schema) paths
  | take limit =>
      refine ⟨_, rfl, ?_⟩
      split
      · exact .invalid _
      · exact rightOr_setting rfl ⟨rfl, rfl⟩ (fun k => by cases k <;> rfl) ⟨rfl, rfl⟩
  | inSegments segments =>
      refine ⟨_, rfl, ?_⟩
      split
      · exact .invalid _
      · exact rightOr_setting rfl ⟨rfl, rfl⟩ (fun k => by cases k <;> rfl) ⟨rfl, rfl⟩
  | useIndex _ | orderBy _ | startAt _ | consistently _ | retrying _ | before _ | within _ | scan =>
      refine ⟨.ok _, rfl, ?_⟩
      exact rightOr_setting rfl ⟨rfl, rfl⟩ (fun k => by cases k <;> rfl) ⟨rfl, rfl⟩

/-! ### Many steps -/

/-- A query with an error. -/
def withError (q : Query) (e : Error) : Query :=
  { q with conditions := q.conditions.withError e }

theorem failed_of_error {q : Query} {e : Error} (h : q.error? = some e) : q.failed = true :=
  Option.isSome_iff_exists.mpr ⟨e, h⟩

theorem not_failed_of_error_none {q : Query} (h : q.error? = none) : q.failed = false :=
  Option.isSome_eq_false_iff.mpr (Option.isNone_iff_eq_none.mpr h)

theorem attempts : Attempts error? withError attempt where
  failed q outcome e h := attempt_of_failed (failed_of_error h)
  right q r h := by simp [attempt, not_failed_of_error_none h]
  wrong q e h := by
    simp [attempt, not_failed_of_error_none h, fail, ConditionSet.fail_of_error_none h, withError]
  told q e := rfl

/-- **The steps of a query are attempted.** -/
theorem takesSteps : TakesSteps ν error? withError attempt (stepAt (ν := ν)) Takes where
  attempts := attempts
  spec q s := step_spec s.1 q s.2
  keeps _ _ _ h := h.error

/-- **The query after some steps**: everything was added in order, and every setting is what was
said of it last. -/
structure Took (q : Query) (ss : List (Nat × Step ν)) (r : Query) : Prop where
  conditions : r.conditions.conditions =
    q.conditions.conditions ++ ss.filterMap fun s => s.2.condition?
  fragments : r.conditions.fragments =
    q.conditions.fragments ++ ss.filterMap fun s => s.2.fragment?
  settings : ∀ k, r.setting k = lastOf (ss.filterMap fun s => s.2.says? s.1 k) (q.setting k)
  table : r.schema = q.schema ∧ r.pageSize = q.pageSize

theorem took_nil (q : Query) : q.Took ([] : List (Nat × Step ν)) q :=
  ⟨(List.append_nil _).symm, (List.append_nil _).symm, fun _ => rfl, rfl, rfl⟩

/-- **Steps that leave no error are all taken.** -/
theorem took_of_error_none {q : Query} {ss : List (Nat × Step ν)}
    (h : (q.stepsAt ss).error? = none) : q.Took ss (q.stepsAt ss) := by
  induction ss generalizing q with
  | nil => exact took_nil q
  | cons s rest ih =>
      have first : q.Takes s (q.stepAt s) := takesSteps.taken (takesSteps.stopsAtError.error_none h)
      have others : (q.stepAt s).Took rest ((q.stepAt s).stepsAt rest) := ih h
      refine ⟨?_, ?_, fun k => ?_, ?_, ?_⟩
      · rw [filterMap_cons_toList, ← List.append_assoc, ← first.conditions]
        exact others.conditions
      · rw [filterMap_cons_toList, ← List.append_assoc, ← first.fragments]
        exact others.fragments
      · rw [filterMap_cons_toList, lastOf_toList_append, ← first.settings]
        exact others.settings k
      · exact others.table.1.trans first.table.1
      · exact others.table.2.trans first.table.2

/-! ### Failed queries -/

/-- **Every way to run a query gives an error**, and sends nothing. -/
structure Refuses (q : Query) (e : Error) : Prop where
  build : q.build = .error e
  prepare : q.prepare = .error e
  all : ∀ {σ α : Type} (m : Model α) (store : Store σ) w, q.all m store w = (.error e, w)
  first : ∀ {σ α : Type} (m : Model α) (store : Store σ) w, q.first m store w = (.error e, w)
  count : ∀ {σ : Type} (store : Store σ) w, q.count store w = (.error e, w)
  page : ∀ {σ α : Type} (m : Model α) (store : Store σ) w, q.page m store w = (.error e, w)
  segmented : ∀ {σ α : Type} (m : Model α) (store : Store σ) n w,
    q.segmented m store n w = (.error e, w)

/-- A failed query has no prepared read. -/
theorem prepare_of_error {q : Query} {e : Error} (h : q.error? = some e) :
    q.prepare = .error e := by
  unfold prepare build
  rw [ConditionSet.parts_of_error h]
  rfl

/-- A query without a prepared read sends nothing. -/
theorem run_of_prepare {σ β : Type} {q : Query} {e : Error} (h : q.prepare = .error e)
    (action : PreparedRead → Action σ β) (w : World σ) : q.run action w = (.error e, w) := by
  unfold run
  rw [h]

/-- **A failed query sends nothing.** -/
theorem refuses_of_error {q : Query} {e : Error} (h : q.error? = some e) : q.Refuses e where
  build := by
    unfold Query.build
    rw [ConditionSet.parts_of_error h]
    rfl
  prepare := prepare_of_error h
  all _ _ w := run_of_prepare (prepare_of_error h) _ w
  first _ _ w := run_of_prepare (prepare_of_error h) _ w
  count _ w := run_of_prepare (prepare_of_error (q := { q with projection := [] }) h) _ w
  page _ _ w := run_of_prepare (prepare_of_error h) _ w
  segmented _ _ n w := by
    have unchanged : q.scan.inSegments n = q := by
      rw [scan, attempt_of_failed (failed_of_error h), inSegments,
        attempt_of_failed (failed_of_error h)]
    unfold Query.segmented
    rw [unchanged]
    exact run_of_prepare (prepare_of_error h) _ w

end Keyspace.Query
