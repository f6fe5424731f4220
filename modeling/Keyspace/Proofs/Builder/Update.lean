import Keyspace.Handle
import Keyspace.Proofs.Builder.Query
import Keyspace.Update.Step
/-!
# Updates step by step

What a step makes of an update, said once for all steps: a step that is right adds at most one
condition, one fragment and one change, and sets what it says of the key and the deadline; a step
that is wrong leaves an error and nothing else.

Main definitions:

* `Keyspace.Update.Step.change?` and so on — what a step adds;
* `Keyspace.Update.Setting`, `Keyspace.Update.Step.says?` — what is set, and what a step says of it;
* `Keyspace.Update.Takes`, `Keyspace.Update.Took` — an update takes a step, some steps;
* `Keyspace.Update.Refuses` — every way to run an update gives its error.

Main results:

* `Keyspace.Update.takesSteps` — **what a step makes of an update**;
* `Keyspace.Update.took_of_error_none` — **the update after steps that are all right**;
* `Keyspace.first_error_freezes_the_builder` — **the first error wins**, for queries and updates.
-/

set_option autoImplicit false

namespace Keyspace.Update

/-- The first error. -/
def error? (u : Update) : Option Error := u.conditions.error

/-! ### Steps and their times -/

variable {ν : Type} [AsOperand ν]

/-- The update after a step that is taken at the time given with it. -/
def stepAt (u : Update) (s : Nat × Step ν) : Update := u.step s.1 s.2

/-- **The update after some steps**, each taken at its own time. -/
def stepsAt (u : Update) (ss : List (Nat × Step ν)) : Update := ss.foldl stepAt u

/-- Steps that are all taken at one time. -/
theorem steps_eq_stepsAt (now : Nat) (u : Update) (ss : List (Step ν)) :
    u.steps now ss = u.stepsAt (ss.map (now, ·)) := by
  rw [steps, stepsAt, List.foldl_map]
  rfl

/-! ### What a step says -/

/-- The condition that a step adds. -/
def Step.condition? : Step ν → Option Condition
  | .onlyIf field op value => (AsOperand.encode value).toOption.map fun v => ⟨field, op, [v]⟩
  | .onlyIfExists field => some ⟨field, .attributeExists, []⟩
  | .onlyIfAbsent field => some ⟨field, .attributeNotExists, []⟩
  | _ => none

/-- The fragment that a step adds. -/
def Step.fragment? : Step ν → Option Fragment
  | .filter fragment => some fragment
  | _ => none

/-- The change that a step adds. -/
def Step.change? : Step ν → Option Change
  | .apply form path value =>
    (AsOperand.encode value).toOption.bind fun v => (operandOf form v).toOption.map fun operand =>
      .apply form path operand
  | .remove path => some (.remove path)
  | _ => none

/-- What is set in an update, and not added to it. -/
inductive Setting where
  | partition
  | sort
  | deadline
  deriving DecidableEq, Repr

/-- What a setting can be. -/
abbrev Setting.Choice : Setting → Type
  | .partition => Option Value
  | .sort => Option Value
  | .deadline => Option Nat

/-- A setting of an update. -/
def setting (u : Update) : (k : Setting) → k.Choice
  | .partition => u.partition
  | .sort => u.sort
  | .deadline => u.deadline

/-- **What a step says of a setting.**  A key without a sort value says that there is none. -/
def Step.says? (now : Nat) : Step ν → (k : Setting) → Option k.Choice
  | .ofPartition value, .partition => (AsOperand.encode value).toOption.map some
  | .ofSort value, .sort => (AsOperand.encode value).toOption.map some
  | .ofKey key, .partition => some (some key.partition)
  | .ofKey key, .sort => some key.sort
  | .before deadline, .deadline => some (some deadline)
  | .within duration, .deadline => some (some (now + duration))
  | _, _ => none

/-! ### One step -/

/-- **An update takes a step.** -/
structure Takes (u : Update) (s : Nat × Step ν) (r : Update) : Prop where
  error : r.error? = u.error?
  conditions : r.conditions.conditions = u.conditions.conditions ++ s.2.condition?.toList
  fragments : r.conditions.fragments = u.conditions.fragments ++ s.2.fragment?.toList
  changes : r.changes = u.changes ++ s.2.change?.toList
  settings : ∀ k, r.setting k = (s.2.says? s.1 k).getD (u.setting k)
  /-- The table is not set by steps. -/
  table : r.schema = u.schema

theorem operandOf_ne_error {e : Error} (he : e.isValidation = false) (form : ChangeForm)
    (v : Value) : operandOf form v ≠ .error e := by
  unfold operandOf
  split
  · exact Value.asSet_ne_error he v
  · exact Value.asSet_ne_error he v
  · simp

section

variable {now : Nat} {u : Update} {s : Step ν}

/-- A step that adds a change. -/
theorem rightOr_withChange {c : Change} (hchange : s.change? = some c)
    (hadds : s.condition? = none ∧ s.fragment? = none) (hquiet : ∀ k, s.says? now k = none) :
    RightOr ν (u.Takes (now, s)) (u.withChange c) := by
  refine .part (fun e he => TableSchema.checkAttribute_ne_error he _ _) fun _ _ => .ok ?_
  exact {
    error := rfl
    conditions := by rw [hadds.1]; exact (List.append_nil _).symm
    fragments := by rw [hadds.2]; exact (List.append_nil _).symm
    changes := by rw [hchange]; rfl
    settings := fun k => by rw [hquiet]; cases k <;> rfl
    table := rfl }

/-- A step that adds a condition. -/
theorem rightOr_condition {field : String} {op : Operator} {values : List Value}
    (hcondition : s.condition? = some ⟨field, op, values⟩)
    (hadds : s.fragment? = none ∧ s.change? = none) (hquiet : ∀ k, s.says? now k = none) :
    RightOr ν (u.Takes (now, s))
      (do
        let c ← Condition.check field op values
        .ok { u with conditions := u.conditions.add c }) := by
  refine .part (fun e he => Condition.check_ne_error he _ _ _) fun c hc => .ok ?_
  obtain ⟨rfl, -⟩ := Condition.check_eq_ok hc
  exact {
    error := rfl
    conditions := by rw [hcondition]; rfl
    fragments := by rw [hadds.1]; exact (List.append_nil _).symm
    changes := by rw [hadds.2]; exact (List.append_nil _).symm
    settings := fun k => by rw [hquiet]; cases k <;> rfl
    table := rfl }

/-- A step that sets something. -/
theorem rightOr_setting {r : Update} (hconditions : r.conditions = u.conditions)
    (hchanges : r.changes = u.changes)
    (hadds : s.condition? = none ∧ s.fragment? = none ∧ s.change? = none)
    (hsettings : ∀ k, r.setting k = (s.says? now k).getD (u.setting k))
    (htable : r.schema = u.schema) : RightOr ν (u.Takes (now, s)) (.ok r) :=
  .ok {
    error := congrArg ConditionSet.error hconditions
    conditions := by rw [hadds.1, hconditions]; exact (List.append_nil _).symm
    fragments := by rw [hadds.2.1, hconditions]; exact (List.append_nil _).symm
    changes := by rw [hadds.2.2, hchanges]; exact (List.append_nil _).symm
    settings := hsettings
    table := htable }

end

/-- What the conditions attempt is a step that a failed update ignores, too. -/
theorem conditions_attempt {α : Type} (u : Update) (x : Except Error α) (f : α → ConditionSet) :
    { u with conditions := u.conditions.attempt (do let a ← x; .ok (f a)) } =
      u.attempt (do let a ← x; .ok { u with conditions := f a }) := by
  unfold ConditionSet.attempt attempt failed
  split
  · rfl
  · next hnot =>
    cases x with
    | ok _ => rfl
    | error e => simp [bind, Except.bind, fail, ConditionSet.fail, ConditionSet.attempt, hnot]

/-- **What a step makes of an update.** -/
theorem step_spec (now : Nat) (u : Update) (s : Step ν) :
    ∃ outcome, u.step now s = u.attempt outcome ∧ RightOr ν (u.Takes (now, s)) outcome := by
  cases s with
  | ofPartition value =>
      refine ⟨_, rfl, .operand value fun v hv =>
        rightOr_setting rfl rfl ⟨rfl, rfl, rfl⟩ (fun k => ?_) rfl⟩
      cases k <;> simp [Step.says?, setting, hv, Except.toOption]
  | ofSort value =>
      refine ⟨_, rfl, .operand value fun v hv =>
        rightOr_setting rfl rfl ⟨rfl, rfl, rfl⟩ (fun k => ?_) rfl⟩
      cases k <;> simp [Step.says?, setting, hv, Except.toOption]
  | apply form path value =>
      refine ⟨_, rfl, .operand value fun v hv => .part (fun e he =>
        operandOf_ne_error he form v) fun operand hoperand =>
          rightOr_withChange ?_ ⟨rfl, rfl⟩ (fun k => by cases k <;> rfl)⟩
      simp [Step.change?, hv, hoperand, Except.toOption]
  | remove path =>
      exact ⟨_, rfl, rightOr_withChange rfl ⟨rfl, rfl⟩ (fun k => by cases k <;> rfl)⟩
  | onlyIf field op value =>
      refine ⟨_, rfl, .part (fun e he => TableSchema.checkAttribute_ne_error he _ _) fun _ _ =>
        .operand value fun v hv =>
          rightOr_condition ?_ ⟨rfl, rfl⟩ (fun k => by cases k <;> rfl)⟩
      simp [Step.condition?, hv, Except.toOption]
  | onlyIfExists _ | onlyIfAbsent _ =>
      exact ⟨_, conditions_attempt u _ _,
        rightOr_condition rfl ⟨rfl, rfl⟩ (fun k => by cases k <;> rfl)⟩
  | filter fragment =>
      refine ⟨_, conditions_attempt u _ _,
        .part (fun e he => Fragment.validate_ne_error he fragment) fun _ _ => .ok ?_⟩
      exact ⟨rfl, (List.append_nil _).symm, rfl, (List.append_nil _).symm,
        fun k => by cases k <;> rfl, rfl⟩
  | ofKey _ | before _ | within _ =>
      refine ⟨.ok _, rfl, ?_⟩
      exact rightOr_setting rfl rfl ⟨rfl, rfl, rfl⟩ (fun k => by cases k <;> rfl) rfl

/-! ### Many steps -/

/-- An update with an error. -/
def withError (u : Update) (e : Error) : Update :=
  { u with conditions := u.conditions.withError e }

theorem failed_of_error {u : Update} {e : Error} (h : u.error? = some e) : u.failed = true :=
  Option.isSome_iff_exists.mpr ⟨e, h⟩

theorem not_failed_of_error_none {u : Update} (h : u.error? = none) : u.failed = false :=
  Option.isSome_eq_false_iff.mpr (Option.isNone_iff_eq_none.mpr h)

theorem attempts : Attempts error? withError attempt where
  failed _ _ _ h := attempt_of_failed (failed_of_error h)
  right _ _ h := by simp [attempt, not_failed_of_error_none h]
  wrong _ _ h := by
    simp [attempt, not_failed_of_error_none h, fail, ConditionSet.fail_of_error_none h, withError]
  told _ _ := rfl

/-- **The steps of an update are attempted.** -/
theorem takesSteps : TakesSteps ν error? withError attempt (stepAt (ν := ν)) Takes where
  attempts := attempts
  spec u s := step_spec s.1 u s.2
  keeps _ _ _ h := h.error

/-- **The update after some steps**: everything was added in order, and every setting is what was
said of it last. -/
structure Took (u : Update) (ss : List (Nat × Step ν)) (r : Update) : Prop where
  conditions : r.conditions.conditions =
    u.conditions.conditions ++ ss.filterMap fun s => s.2.condition?
  fragments : r.conditions.fragments =
    u.conditions.fragments ++ ss.filterMap fun s => s.2.fragment?
  changes : r.changes = u.changes ++ ss.filterMap fun s => s.2.change?
  settings : ∀ k, r.setting k = lastOf (ss.filterMap fun s => s.2.says? s.1 k) (u.setting k)
  table : r.schema = u.schema

theorem took_nil (u : Update) : u.Took ([] : List (Nat × Step ν)) u :=
  ⟨(List.append_nil _).symm, (List.append_nil _).symm, (List.append_nil _).symm, fun _ => rfl, rfl⟩

/-- **Steps that leave no error are all taken.** -/
theorem took_of_error_none {u : Update} {ss : List (Nat × Step ν)}
    (h : (u.stepsAt ss).error? = none) : u.Took ss (u.stepsAt ss) := by
  induction ss generalizing u with
  | nil => exact took_nil u
  | cons s rest ih =>
      have first : u.Takes s (u.stepAt s) := takesSteps.taken (takesSteps.stopsAtError.error_none h)
      have others : (u.stepAt s).Took rest ((u.stepAt s).stepsAt rest) := ih h
      refine ⟨?_, ?_, ?_, fun k => ?_, others.table.trans first.table⟩
      · rw [filterMap_cons_toList, ← List.append_assoc, ← first.conditions]
        exact others.conditions
      · rw [filterMap_cons_toList, ← List.append_assoc, ← first.fragments]
        exact others.fragments
      · rw [filterMap_cons_toList, ← List.append_assoc, ← first.changes]
        exact others.changes
      · rw [filterMap_cons_toList, lastOf_toList_append, ← first.settings]
        exact others.settings k

/-! ### Failed updates -/

/-- **Every way to run an update gives an error**, and sends nothing. -/
structure Refuses (u : Update) (e : Error) : Prop where
  compile : u.compile = .error e
  execute : ∀ {σ α : Type} (m : Model α) (store : Store σ) w, u.execute m store w = (.error e, w)

/-- **A failed update sends nothing.** -/
theorem refuses_of_error {u : Update} {e : Error} (h : u.error? = some e) : u.Refuses e := by
  have hcompile : u.compile = .error e := by
    unfold compile
    rw [ConditionSet.parts_of_error h]
    rfl
  refine ⟨hcompile, fun m store w => ?_⟩
  unfold execute
  rw [hcompile]

end Keyspace.Update

/-! ### The first error -/

namespace Keyspace

/-- **The first error wins and freezes the builder.**  Whatever the steps of a query and of an
update are: the first one that leaves an error leaves nothing else, no later step changes anything,
and every way to run the query or the update gives that error and leaves the world as it is.  If no
step leaves an error, then conditions, fragments and changes are those that were added, in order,
and every setting is what was said of it last. -/
theorem first_error_freezes_the_builder {ν μ : Type} [AsOperand ν] [AsOperand μ] (q : Query)
    (qs : List (Nat × Query.Step ν)) (u : Update) (us : List (Nat × Update.Step μ)) :
    (∀ before s after e, qs = before ++ s :: after → (q.stepsAt before).error? = none →
      ((q.stepsAt before).stepAt s).error? = some e →
        q.stepsAt qs = (q.stepsAt before).withError e ∧ (q.stepsAt qs).Refuses e) ∧
    ((∀ before s after, qs = before ++ s :: after →
      ((q.stepsAt before).stepAt s).error? = none) → q.Took qs (q.stepsAt qs)) ∧
    (∀ before s after e, us = before ++ s :: after → (u.stepsAt before).error? = none →
      ((u.stepsAt before).stepAt s).error? = some e →
        u.stepsAt us = (u.stepsAt before).withError e ∧ (u.stepsAt us).Refuses e) ∧
    ((∀ before s after, us = before ++ s :: after →
      ((u.stepsAt before).stepAt s).error? = none) → u.Took us (u.stepsAt us)) := by
  refine ⟨?_, fun hnone => ?_, ?_, fun hnone => ?_⟩
  · rintro before s after e rfl hbefore hs
    have hlast : q.stepsAt (before ++ s :: after) = (q.stepsAt before).withError e :=
      Query.takesSteps.stopsAtError.steps_first hbefore hs after
    exact ⟨hlast, Query.refuses_of_error (hlast ▸ rfl)⟩
  · obtain rfl | hlast := StopsAtError.last_error_none hnone
    · exact Query.took_nil q
    · exact Query.took_of_error_none hlast
  · rintro before s after e rfl hbefore hs
    have hlast : u.stepsAt (before ++ s :: after) = (u.stepsAt before).withError e :=
      Update.takesSteps.stopsAtError.steps_first hbefore hs after
    exact ⟨hlast, Update.refuses_of_error (hlast ▸ rfl)⟩
  · obtain rfl | hlast := StopsAtError.last_error_none hnone
    · exact Update.took_nil u
    · exact Update.took_of_error_none hlast

/-! ### A library -/

namespace Library

/-- The books of a library, of which nothing is asked yet. -/
def holdings : TableSchema :=
  { table := "library", partitionKey := "owner", attributes := ["title"] }

/-- At most no books of ann, and the rest does not matter. -/
def hastyQuery : List (Nat × Query.Step) :=
  [(0, .compare "owner" .eq (.text "ann")), (1, .take 0), (2, .take 5), (3, .startAt "later")]

/-- An empty set of borrowers that is added to a book. -/
def hastyUpdate : List (Nat × Update.Step) :=
  [(0, .ofPartition (.text "ann")), (1, .apply .add "title" (.list [])), (2, .remove "title")]

end Library

/-- A limit that is not positive, and a set without elements. -/
theorem library_first_errors_win :
    (Query.new Library.holdings {}).stepsAt Library.hastyQuery =
        ((Query.new Library.holdings {}).stepsAt
          [(0, .compare "owner" .eq (Datum.text "ann"))]).withError
            (.invalid (.limitNotPositive 0)) ∧
      ((Query.new Library.holdings {}).stepsAt Library.hastyQuery).Refuses
        (.invalid (.limitNotPositive 0)) ∧
      ((Update.new Library.holdings).stepsAt Library.hastyUpdate).Refuses
        (.invalid .emptySet) ∧
      (Update.new Library.holdings).Took (Library.hastyUpdate.take 1)
        ((Update.new Library.holdings).stepsAt (Library.hastyUpdate.take 1)) := by
  obtain ⟨hquery, -, hupdate, -⟩ := first_error_freezes_the_builder (Query.new Library.holdings {})
    Library.hastyQuery (Update.new Library.holdings) Library.hastyUpdate
  obtain ⟨-, -, -, htook⟩ := first_error_freezes_the_builder (Query.new Library.holdings {})
    Library.hastyQuery (Update.new Library.holdings) (Library.hastyUpdate.take 1)
  obtain ⟨hlast, hrefuses⟩ := hquery [(0, .compare "owner" .eq (.text "ann"))] (1, .take 0)
    [(2, .take 5), (3, .startAt "later")] _ rfl rfl rfl
  obtain ⟨-, hfailed⟩ := hupdate [(0, .ofPartition (.text "ann"))]
    (1, .apply .add "title" (.list [])) [(2, .remove "title")] _ rfl rfl rfl
  refine ⟨hlast, hrefuses, hfailed, htook fun before s after h => ?_⟩
  cases before with
  | nil => cases h; rfl
  | cons first rest => cases rest <;> cases h

/-- A set, which no plain datum becomes, is an operand as it is. -/
example : ((Update.new Library.holdings).stepsAt
    [(0, .ofPartition (Value.text "ann")), (1, .apply .delete "title" (.texts ["Emma"]))]).changes =
      [.apply .delete "title" (.texts ["Emma"])] := rfl

end Keyspace
