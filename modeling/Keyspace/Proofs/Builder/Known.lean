import Keyspace.Proofs.Builder.Update
import Keyspace.Proofs.Query.Prepared
/-!
# Known attributes

A step that names a document path looks at the attribute it starts at, and an attribute that the
schema does not know is an error.  So a query or an update without an error has only named what is
known.  The two steps of an update that ask whether a field exists do not look: what they name may
be unknown, and then nobody says so.

Main definitions:

* `Keyspace.Vets` — an outcome that is right only if some paths are known;
* `Keyspace.VetsSteps` — steps that look at the paths they name;
* `Keyspace.Query.Step.paths`, `Keyspace.Update.Step.vettedPaths` — the paths that a step looks at.

Main results:

* `Keyspace.VetsSteps.known_of_steps`, `Keyspace.VetsSteps.refuses` — **steps without an error only
  name what is known**, and an unknown name is an error at once;
* `Keyspace.Query.vetsSteps`, `Keyspace.Update.vetsSteps` — queries and updates look at what they
  are told;
* `Keyspace.unknown_only_where_existence_is_asked` — **what a query or an update is about is
  known**, but for what an update asks to exist or to be absent.
-/

set_option autoImplicit false

namespace Keyspace

/-! ### Looking at names -/

/-- **An outcome that is right only if some paths are known.**  If one of them is not, something is
wrong in itself, or one of the operands that are written before cannot be written. -/
abbrev Vets {ν β : Type} [AsOperand ν] (s : TableSchema) (paths : List String)
    (operands : List ν) : Except Error β → Prop :=
  Meets (fun _ => ∀ path ∈ paths, s.hasAttribute path = true) fun e =>
    ∀ path ∈ paths, s.hasAttribute path = false →
      e.isValidation = true ∨ ∃ value ∈ operands, AsOperand.encode value = .error e

namespace Vets

variable {ν α β : Type} [AsOperand ν] {s : TableSchema} {paths : List String} {operands : List ν}

/-- If all paths are known it does not matter what comes out. -/
theorem of_known (h : ∀ path ∈ paths, s.hasAttribute path = true) (outcome : Except Error β) :
    Vets s paths operands outcome where
  right _ _ := h
  wrong _ _ path hpath hunknown := by
    rw [h path hpath] at hunknown
    cases hunknown

/-- What names nothing looks at nothing. -/
theorem nothing (outcome : Except Error β) : Vets s [] operands outcome :=
  of_known (fun _ hpath => absurd hpath List.not_mem_nil) outcome

/-- A part whose errors are all wrong in themselves. -/
theorem part {x : Except Error α} {f : α → Except Error β}
    (hx : ∀ e, e.isValidation = false → x ≠ .error e)
    (hf : ∀ a, x = .ok a → Vets s paths operands (f a)) : Vets s paths operands (x >>= f) :=
  .bind (fun _ he _ _ _ => .inl (kind_of_error hx he)) hf

/-- An operand that has to be written. -/
theorem operand {value : ν} (hvalue : value ∈ operands) {f : Value → Except Error β}
    (hf : ∀ v, Vets s paths operands (f v)) :
    Vets s paths operands (AsOperand.encode value >>= f) :=
  .bind (fun _ he _ _ _ => .inr ⟨value, hvalue, he⟩) fun v _ => hf v

end Vets

theorem TableSchema.hasAttribute_of_check {s : TableSchema} {field : String} {u : Unit}
    (h : s.checkAttribute field = .ok u) : s.hasAttribute field = true := by
  unfold checkAttribute at h
  split at h
  · assumption
  · cases h

/-- One field that is looked at. -/
theorem Vets.field {ν β : Type} [AsOperand ν] (s : TableSchema) (field : String)
    (operands : List ν) (f : Unit → Except Error β) :
    Vets s [field] operands (s.checkAttribute field >>= f) :=
  part (fun _ he => TableSchema.checkAttribute_ne_error he s field) fun _ hchecked =>
    of_known (List.forall_mem_singleton.2 (TableSchema.hasAttribute_of_check hchecked)) _

/-- **Steps that look at the paths they name.**  The operands of a step are written before. -/
structure VetsSteps {ν β ς : Type} [AsOperand ν] (error? : β → Option Error)
    (withError : β → Error → β) (attempt : β → Except Error β → β) (step : β → ς → β)
    (schema : β → TableSchema) (paths : ς → List String) (operands : ς → List ν) : Prop where
  attempts : Attempts error? withError attempt
  spec : ∀ b s, ∃ outcome,
    step b s = attempt b outcome ∧ Vets (schema b) (paths s) (operands s) outcome

namespace VetsSteps

variable {ν β ς : Type} [AsOperand ν] {error? : β → Option Error} {withError : β → Error → β}
  {attempt : β → Except Error β → β} {step : β → ς → β} {schema : β → TableSchema}
  {paths : ς → List String} {operands : ς → List ν}

/-- What a step leaves without an error has looked at all its paths. -/
theorem known (h : VetsSteps error? withError attempt step schema paths operands) {b : β} {s : ς}
    (hb : error? b = none) (hs : error? (step b s) = none) :
    ∀ path ∈ paths s, (schema b).hasAttribute path = true := by
  obtain ⟨outcome, hstep, hvets⟩ := h.spec b s
  cases outcome with
  | ok r => exact hvets.right r rfl
  | error e =>
      rw [hstep, h.attempts.wrong b e hb, h.attempts.told] at hs
      cases hs

/-- **An unknown name is an error at once**, unless an operand cannot be written. -/
theorem refuses (h : VetsSteps error? withError attempt step schema paths operands) {b : β} {s : ς}
    (hb : error? b = none) {path : String} (hpath : path ∈ paths s)
    (hunknown : (schema b).hasAttribute path = false) :
    ∃ e, error? (step b s) = some e ∧
      (e.isValidation = true ∨ ∃ value ∈ operands s, AsOperand.encode value = .error e) := by
  obtain ⟨outcome, hstep, hvets⟩ := h.spec b s
  cases outcome with
  | ok r =>
      have hknown := hvets.right r rfl path hpath
      rw [hunknown] at hknown
      cases hknown
  | error e =>
      refine ⟨e, ?_, hvets.wrong e rfl path hpath hunknown⟩
      rw [hstep, h.attempts.wrong b e hb, h.attempts.told]

/-- That error stays. -/
theorem refuses_steps (h : VetsSteps error? withError attempt step schema paths operands)
    (hstops : StopsAtError error? withError step) {b : β} {before : List ς} {s : ς}
    (hb : error? (before.foldl step b) = none) {path : String} (hpath : path ∈ paths s)
    (hunknown : (schema (before.foldl step b)).hasAttribute path = false) (after : List ς) :
    ∃ e, error? ((before ++ s :: after).foldl step b) = some e ∧
      (e.isValidation = true ∨ ∃ value ∈ operands s, AsOperand.encode value = .error e) := by
  obtain ⟨e, he, hcause⟩ := h.refuses hb hpath hunknown
  rw [List.foldl_append, List.foldl_cons, hstops.steps_failed he]
  exact ⟨e, he, hcause⟩

/-- **Steps that leave no error only name what is known.** -/
theorem known_of_steps (h : VetsSteps error? withError attempt step schema paths operands)
    (hstops : StopsAtError error? withError step)
    (htable : ∀ b s, error? (step b s) = none → schema (step b s) = schema b) {b : β}
    {ss : List ς} (hss : error? (ss.foldl step b) = none) :
    ∀ s ∈ ss, ∀ path ∈ paths s, (schema b).hasAttribute path = true := by
  induction ss generalizing b with
  | nil => intro s hs; cases hs
  | cons s rest ih =>
      have hfirst : error? (step b s) = none := hstops.error_none hss
      have hb : error? b = none :=
        hstops.error_none (show error? ([s].foldl step b) = none from hfirst)
      refine List.forall_mem_cons.2 ⟨h.known hb hfirst, ?_⟩
      rw [← htable b s hfirst]
      exact ih hss

end VetsSteps

/-! ### Queries -/

namespace Query

variable {ν : Type} [AsOperand ν]

/-- The paths that a step names. -/
def Step.paths {ν : Type} : Step ν → List String
  | .compare field _ _ | .between field _ _ | .oneOf field _ | .beginsWith field _ => [field]
  | .attributeExists field | .attributeNotExists field | .condition field _ _ => [field]
  | .select paths => paths
  | _ => []

/-- The operands that a step writes before it looks at a path. -/
def Step.operands {ν : Type} : Step ν → List ν
  | .compare _ _ value | .condition _ _ value => [value]
  | .between _ low high => [low, high]
  | .oneOf _ values => values
  | _ => []

/-- Checks that are all passed are passed by each path. -/
theorem known_of_forM {s : TableSchema} {paths : List String} {u : Unit}
    (h : paths.forM s.checkAttribute = .ok u) :
    ∀ path ∈ paths, s.hasAttribute path = true := by
  induction paths with
  | nil => intro path hpath; cases hpath
  | cons first rest ih =>
      obtain ⟨_, hfirst, hrest⟩ :=
        bind_eq_ok (f := fun _ => rest.forM s.checkAttribute) (x := s.checkAttribute first) h
      exact List.forall_mem_cons.2 ⟨TableSchema.hasAttribute_of_check hfirst, ih hrest⟩

/-- **What a step names it looks at.** -/
theorem step_vets (now : Nat) (q : Query) (s : Step ν) :
    ∃ outcome, q.step now s = q.attempt outcome ∧ Vets q.schema s.paths s.operands outcome := by
  cases s with
  | compare field op value =>
      exact ⟨_, rfl, .operand List.mem_cons_self fun v => .field _ _ _ _⟩
  | between field low high =>
      refine ⟨_, rfl, .operand List.mem_cons_self fun l => .operand ?_ fun h => .field _ _ _ _⟩
      exact List.mem_cons_of_mem _ List.mem_cons_self
  | oneOf field values =>
      exact ⟨_, rfl, .bind (fun _ he _ _ _ => .inr (AsOperand.exists_of_encodeAll he)) fun vs _ =>
        Vets.field _ _ _ _⟩
  | beginsWith field start => exact ⟨_, rfl, .field _ _ _ _⟩
  | attributeExists field => exact ⟨_, rfl, .field _ _ _ _⟩
  | attributeNotExists field => exact ⟨_, rfl, .field _ _ _ _⟩
  | condition field op value =>
      exact ⟨_, rfl, .part (fun e he => Operator.read_ne_error he op) fun op _ =>
        .operand List.mem_cons_self fun v => .field _ _ _ _⟩
  | select paths =>
      refine ⟨_, rfl, .part (fun e he => ?_) fun _ hchecked =>
        .of_known (known_of_forM hchecked) _⟩
      exact forM_ne_error (TableSchema.checkAttribute_ne_error he q.schema) paths
  | filter fragment => exact ⟨_, filter_eq_attempt q fragment, .nothing _⟩
  | take _ | inSegments _ => exact ⟨_, rfl, .nothing _⟩
  | useIndex _ | orderBy _ | startAt _ | consistently _ | retrying _ | before _ | within _ | scan =>
      exact ⟨.ok _, rfl, .nothing _⟩

/-- **A query looks at what it is told.** -/
theorem vetsSteps : VetsSteps error? withError attempt (stepAt (ν := ν)) Query.schema
    (fun s => s.2.paths) (fun s => s.2.operands) where
  attempts := attempts
  spec q s := step_vets s.1 q s.2

/-- The condition that a step adds is on the path that the step names. -/
theorem Step.field_of_condition? {s : Step ν} {c : Condition} (h : s.condition? = some c) :
    c.field ∈ s.paths := by
  cases s with
  | compare field op value | oneOf field values =>
      obtain ⟨_, -, rfl⟩ := Option.map_eq_some_iff.1 h
      exact List.mem_cons_self
  | between field low high | condition field op value =>
      obtain ⟨_, -, hrest⟩ := Option.bind_eq_some_iff.1 h
      obtain ⟨_, -, rfl⟩ := Option.map_eq_some_iff.1 hrest
      exact List.mem_cons_self
  | beginsWith field _ | attributeExists field | attributeNotExists field =>
      obtain rfl := Option.some.inj h
      exact List.mem_cons_self
  | _ => cases h

omit [AsOperand ν] in
/-- What a step says is to be read are the paths that it names. -/
theorem Step.paths_of_says? {now : Nat} {s : Step ν} {paths : List String}
    (h : s.says? now .projection = some paths) : paths = s.paths := by
  cases s with
  | select paths' => exact (Option.some.inj h).symm
  | _ => cases h

/-- **All that a query without an error is about is known.** -/
theorem known_of_error_none {s : TableSchema} {config : Config} {ss : List (Nat × Step ν)}
    (h : ((Query.new s config).stepsAt ss).error? = none) :
    (∀ c ∈ ((Query.new s config).stepsAt ss).conditions.conditions,
      s.hasAttribute c.field = true) ∧
    ∀ path ∈ ((Query.new s config).stepsAt ss).projection, s.hasAttribute path = true := by
  have hknown := vetsSteps.known_of_steps takesSteps.stopsAtError
    (fun b s hs => (takesSteps.taken hs).table.1) h
  have htook := took_of_error_none h
  constructor
  · intro c hc
    rw [htook.conditions] at hc
    obtain ⟨step, hstep, hadds⟩ := List.mem_filterMap.1 hc
    exact hknown step hstep _ (Step.field_of_condition? hadds)
  · have hlast : ((Query.new s config).stepsAt ss).projection =
        lastOf (ss.filterMap fun step => step.2.says? step.1 .projection) [] :=
      htook.settings .projection
    rw [hlast, lastOf]
    cases hsaid : (ss.filterMap fun step => step.2.says? step.1 .projection).getLast? with
    | none => intro path hpath; cases hpath
    | some paths =>
        obtain ⟨step, hstep, hsays⟩ := List.mem_filterMap.1 (List.mem_of_getLast? hsaid)
        obtain rfl := Step.paths_of_says? hsays
        exact hknown step hstep

/-- A query that is built has no error. -/
theorem error_none_of_build {q : Query} {r : Read} (h : q.build = .ok r) : q.error? = none := by
  cases herror : q.error? with
  | none => rfl
  | some e => rw [(refuses_of_error herror).build] at h; cases h

end Query

/-! ### Updates -/

namespace Update

variable {ν : Type} [AsOperand ν]

/-- The paths that a step names and looks at. -/
def Step.vettedPaths {ν : Type} : Step ν → List String
  | .apply _ path _ | .remove path | .onlyIf path _ _ => [path]
  | _ => []

/-- The operands that a step writes before it looks at a path. -/
def Step.operands {ν : Type} : Step ν → List ν
  | .apply _ _ value => [value]
  | _ => []

/-- **What a step names it looks at**, unless it asks for existence. -/
theorem step_vets (now : Nat) (u : Update) (s : Step ν) :
    ∃ outcome, u.step now s = u.attempt outcome ∧
      Vets u.schema s.vettedPaths s.operands outcome := by
  cases s with
  | apply form path value =>
      exact ⟨_, rfl, .operand List.mem_cons_self fun v =>
        .part (fun e he => operandOf_ne_error he form v) fun operand _ => .field _ _ _ _⟩
  | remove path => exact ⟨_, rfl, .field _ _ _ _⟩
  | onlyIf field op value => exact ⟨_, rfl, .field _ _ _ _⟩
  | onlyIfExists _ | onlyIfAbsent _ | filter _ =>
      exact ⟨_, conditions_attempt u _ _, .nothing _⟩
  | ofPartition _ | ofSort _ => exact ⟨_, rfl, .nothing _⟩
  | ofKey _ | before _ | within _ => exact ⟨.ok _, rfl, .nothing _⟩

/-- **An update looks at what it is told.** -/
theorem vetsSteps : VetsSteps error? withError attempt (stepAt (ν := ν)) Update.schema
    (fun s => s.2.vettedPaths) (fun s => s.2.operands) where
  attempts := attempts
  spec u s := step_vets s.1 u s.2

/-- The change that a step adds is at the path that the step names. -/
theorem Step.path_of_change? {s : Step ν} {c : Change} (h : s.change? = some c) :
    c.path ∈ s.vettedPaths := by
  cases s with
  | apply form path value =>
      obtain ⟨_, -, hrest⟩ := Option.bind_eq_some_iff.1 h
      obtain ⟨_, -, rfl⟩ := Option.map_eq_some_iff.1 hrest
      exact List.mem_cons_self
  | remove path =>
      obtain rfl := Option.some.inj h
      exact List.mem_cons_self
  | _ => cases h

/-- The condition that a step adds is on a path that the step looks at, or asks for existence. -/
theorem Step.field_of_condition? {s : Step ν} {c : Condition} (h : s.condition? = some c) :
    c.field ∈ s.vettedPaths ∨ s = .onlyIfExists c.field ∨ s = .onlyIfAbsent c.field := by
  cases s with
  | onlyIf field op value =>
      obtain ⟨_, -, rfl⟩ := Option.map_eq_some_iff.1 h
      exact .inl List.mem_cons_self
  | onlyIfExists field =>
      obtain rfl := Option.some.inj h
      exact .inr (.inl rfl)
  | onlyIfAbsent field =>
      obtain rfl := Option.some.inj h
      exact .inr (.inr rfl)
  | _ => cases h

/-- **All that an update without an error is about is known**, but for what it asks to exist or to
be absent. -/
theorem known_of_error_none {s : TableSchema} {ss : List (Nat × Step ν)}
    (h : ((Update.new s).stepsAt ss).error? = none) :
    (∀ c ∈ ((Update.new s).stepsAt ss).changes, s.hasAttribute c.path = true) ∧
    ∀ c ∈ ((Update.new s).stepsAt ss).conditions.conditions, s.hasAttribute c.field = true ∨
      ∃ now, (now, .onlyIfExists c.field) ∈ ss ∨ (now, .onlyIfAbsent c.field) ∈ ss := by
  have hknown := vetsSteps.known_of_steps takesSteps.stopsAtError
    (fun b s hs => (takesSteps.taken hs).table) h
  have htook := took_of_error_none h
  constructor
  · intro c hc
    rw [htook.changes] at hc
    obtain ⟨step, hstep, hadds⟩ := List.mem_filterMap.1 hc
    exact hknown step hstep _ (Step.path_of_change? hadds)
  · intro c hc
    rw [htook.conditions] at hc
    obtain ⟨⟨now, step⟩, hstep, hadds⟩ := List.mem_filterMap.1 hc
    rcases Step.field_of_condition? hadds with hfield | rfl | rfl
    · exact .inl (hknown _ hstep _ hfield)
    · exact .inr ⟨now, .inl hstep⟩
    · exact .inr ⟨now, .inr hstep⟩

/-- An update that is compiled has no error. -/
theorem error_none_of_compile {u : Update} {t : UpdateRequest} (h : u.compile = .ok t) :
    u.error? = none := by
  cases herror : u.error? with
  | none => rfl
  | some e => rw [(refuses_of_error herror).compile] at h; cases h

/-- A question for existence is taken, whatever field it is about. -/
theorem takes_existence (u : Update) (hu : u.error? = none) (now : Nat) {field : String}
    (hfield : Text.isBlankText field = false) :
    u.Takes (now, (.onlyIfExists field : Step ν)) (u.onlyIfExists field) ∧
      u.Takes (now, (.onlyIfAbsent field : Step ν)) (u.onlyIfAbsent field) := by
  have hnone : ∀ op : Operator, op.admits 0 = true →
      (u.conditions.append field op []).error = none := by
    intro op hop
    have hcheck : Condition.check field op [] = .ok ⟨field, op, []⟩ := by
      simp [Condition.check, hfield, hop]
    have hfailed : u.conditions.failed = false := not_failed_of_error_none hu
    simp only [ConditionSet.append, ConditionSet.attempt, hcheck, hfailed]
    exact hu
  exact ⟨takesSteps.taken (s := (now, (.onlyIfExists field : Step ν))) (hnone .attributeExists rfl),
    takesSteps.taken (s := (now, (.onlyIfAbsent field : Step ν))) (hnone .attributeNotExists rfl)⟩

end Update

/-! ### What is known -/

/-- **What a query or an update is about is known, but for what an update asks to exist or to be
absent.**  The paths of all conditions and of the projection of a read start at attributes that the
schema knows, and so do those of the changes and conditions of an update, unless a step has asked
for the existence of a field: such a step is taken whatever field it names.  Every other step that
names an unknown attribute leaves an error: the attribute is unknown, or an operand, which is
written before, cannot be written. -/
theorem unknown_only_where_existence_is_asked {ν μ : Type} [AsOperand ν] [AsOperand μ]
    (s : TableSchema) (config : Config) (qs : List (Nat × Query.Step ν))
    (us : List (Nat × Update.Step μ)) :
    let q := (Query.new s config).stepsAt qs
    let u := (Update.new s).stepsAt us
    -- what a query reads, and on which conditions
    (∀ r, q.build = .ok r →
      (∀ c ∈ r.plan.keyConditions ++ r.plan.filterConditions, s.hasAttribute c.field = true) ∧
      ∀ path ∈ r.projection, s.hasAttribute path = true) ∧
    -- what an update changes, and on which conditions
    (∀ t, u.compile = .ok t →
      (∀ c ∈ u.changes, s.hasAttribute c.path = true) ∧
      ∀ c ∈ u.conditions.conditions, s.hasAttribute c.field = true ∨
        ∃ now, (now, .onlyIfExists c.field) ∈ us ∨ (now, .onlyIfAbsent c.field) ∈ us) ∧
    -- a step that names an unknown attribute leaves an error for good
    (∀ before step after, qs = before ++ step :: after →
      ((Query.new s config).stepsAt before).error? = none →
      ∀ path ∈ step.2.paths, s.hasAttribute path = false → ∃ e, q.error? = some e ∧
        (e.isValidation = true ∨ ∃ value ∈ step.2.operands, AsOperand.encode value = .error e)) ∧
    (∀ before step after, us = before ++ step :: after →
      ((Update.new s).stepsAt before).error? = none →
      ∀ path ∈ step.2.vettedPaths, s.hasAttribute path = false → ∃ e, u.error? = some e ∧
        (e.isValidation = true ∨ ∃ value ∈ step.2.operands, AsOperand.encode value = .error e)) ∧
    -- unless it asks for existence
    ∀ now field, u.error? = none → Text.isBlankText field = false →
      u.Takes (now, (.onlyIfExists field : Update.Step μ)) (u.onlyIfExists field) ∧
        u.Takes (now, (.onlyIfAbsent field : Update.Step μ)) (u.onlyIfAbsent field) := by
  intro q u
  refine ⟨fun r hbuild => ?_, fun t hcompile => ?_, ?_, ?_, fun now field hu hfield =>
    u.takes_existence hu now hfield⟩
  · obtain ⟨hconditions, hprojection⟩ :=
      Query.known_of_error_none (Query.error_none_of_build hbuild)
    obtain ⟨plan, start, hplan, rfl⟩ := Query.build_spec hbuild
    exact ⟨fun c hc => hconditions c ((Query.planOf_perm hplan).mem_iff.1 hc), hprojection⟩
  · exact Update.known_of_error_none (Update.error_none_of_compile hcompile)
  · rintro before step after rfl hbefore path hpath hunknown
    have htable : ((Query.new s config).stepsAt before).schema = s :=
      (Query.took_of_error_none hbefore).table.1
    exact Query.vetsSteps.refuses_steps Query.takesSteps.stopsAtError hbefore hpath
      ((congrArg (·.hasAttribute path) htable).trans hunknown) after
  · rintro before step after rfl hbefore path hpath hunknown
    have htable : ((Update.new s).stepsAt before).schema = s :=
      (Update.took_of_error_none hbefore).table
    exact Update.vetsSteps.refuses_steps Update.takesSteps.stopsAtError hbefore hpath
      ((congrArg (·.hasAttribute path) htable).trans hunknown) after

/-! ### A library -/

namespace Library

/-- The titles of ann's books. -/
def titlesOfAnn : List (Nat × Query.Step) :=
  [(0, .compare "owner" .eq (.text "ann")), (0, .select ["title"])]

/-- Ann's books of a title, which is misspelt. -/
def misspelt : List (Nat × Query.Step) :=
  [(0, .compare "owner" .eq (.text "ann")), (1, .compare "titel" .eq (.text "Emma")), (2, .scan)]

/-- Another title for a book of ann's. -/
def retitled : List (Nat × Update.Step) :=
  [(0, .ofPartition (.text "ann")), (0, .apply .set "title" (.text "Emma"))]

/-- Another title only if there was one, which is misspelt. -/
def guarded : List (Nat × Update.Step) := retitled ++ [(1, .onlyIfExists "titel")]

end Library

/-- A query and an update that name what is known, and a query, two updates that do not. -/
theorem library_knows_its_titles :
    (∃ r, ((Query.new Library.holdings {}).stepsAt Library.titlesOfAnn).build = .ok r ∧
      r.projection = ["title"] ∧
      ∀ path ∈ r.projection, Library.holdings.hasAttribute path = true) ∧
    (∃ t, ((Update.new Library.holdings).stepsAt Library.retitled).compile = .ok t ∧
      ∀ c ∈ ((Update.new Library.holdings).stepsAt Library.retitled).changes,
        Library.holdings.hasAttribute c.path = true) ∧
    (Library.holdings.hasAttribute "titel" = false ∧
      ∃ e, ((Query.new Library.holdings {}).stepsAt Library.misspelt).error? = some e ∧
        (e.isValidation = true ∨ ∃ d ∈ [Datum.text "Emma"], d.toValue = .error e)) ∧
    (∃ e, ((Update.new Library.holdings).stepsAt
        (Library.retitled ++ [(1, .remove "titel")])).error? = some e ∧
      (e.isValidation = true ∨ ∃ d ∈ ([] : List Datum), d.toValue = .error e)) ∧
    ((Update.new Library.holdings).stepsAt Library.retitled).Takes
      (1, (.onlyIfExists "titel" : Update.Step))
      ((Update.new Library.holdings).stepsAt Library.guarded) := by
  obtain ⟨hread, hupdate, -, -, hexists⟩ :=
    unknown_only_where_existence_is_asked Library.holdings {} Library.titlesOfAnn Library.retitled
  obtain ⟨-, -, hquery, hremove, -⟩ := unknown_only_where_existence_is_asked Library.holdings {}
    Library.misspelt (Library.retitled ++ [(1, .remove "titel")])
  have hunknown : Library.holdings.hasAttribute "titel" = false := by decide +kernel
  refine ⟨?_, ?_, ⟨hunknown, ?_⟩, ?_, (hexists 1 "titel" rfl (by decide)).1⟩
  · have hprojection : ((Query.new Library.holdings {}).stepsAt
        Library.titlesOfAnn).build.toOption.map Read.projection = some ["title"] := by
      decide +kernel
    cases hbuild : ((Query.new Library.holdings {}).stepsAt Library.titlesOfAnn).build with
    | error e => rw [hbuild] at hprojection; cases hprojection
    | ok r =>
        rw [hbuild] at hprojection
        exact ⟨r, rfl, Option.some.inj hprojection, (hread r hbuild).2⟩
  · have hcompiles : ((Update.new Library.holdings).stepsAt
        Library.retitled).compile.toOption.isSome = true := by decide +kernel
    cases hcompile : ((Update.new Library.holdings).stepsAt Library.retitled).compile with
    | error e => rw [hcompile] at hcompiles; cases hcompiles
    | ok t => exact ⟨t, rfl, (hupdate t hcompile).1⟩
  · exact hquery [(0, .compare "owner" .eq (.text "ann"))] (1, .compare "titel" .eq (.text "Emma"))
      [(2, .scan)] rfl rfl "titel" List.mem_cons_self hunknown
  · exact hremove Library.retitled (1, .remove "titel") [] rfl rfl "titel" List.mem_cons_self
      hunknown

/-- **An update depends on an attribute that nobody knows**: it is sent with a condition on it. -/
theorem library_guards_what_it_does_not_know :
    Library.holdings.hasAttribute "titel" = false ∧
      ((Update.new Library.holdings).stepsAt Library.guarded).error?.isNone = true ∧
      (((Update.new Library.holdings).stepsAt Library.guarded).compile.toOption.map fun t =>
        (t.condition, t.names.get? "#n1")) = some (some "attribute_exists(#n1)", some "titel") :=
  ⟨by decide +kernel, by decide +kernel, by decide +kernel⟩

end Keyspace
