import Keyspace.Condition.Set
import Keyspace.Datum
import Keyspace.Proofs.Model.Decoding
import Keyspace.Schema
import Keyspace.Update.Change
/-!
# The first error

Queries and updates are put together step by step, and both keep the first error and then stay as
they are.  What that means for any number of steps follows from what it means for one.

Main definitions:

* `Keyspace.StopsAtError` — steps that stop at the first error;
* `Keyspace.Meets` — what is said of the value or the error of an outcome;
* `Keyspace.AsOperand.Refuses`, `Keyspace.RightOr` — the errors that a step can have, and an outcome
  that is right or such an error;
* `Keyspace.AsOperand.FailsAsMarshal` — operands that fail to be written with errors of encoding
  only;
* `Keyspace.Attempts`, `Keyspace.TakesSteps` — what ignores and keeps errors, and takes what is
  right;
* `Keyspace.lastOf` — what was said last, or what held before.

Main results:

* `Keyspace.StopsAtError.steps_failed`, `Keyspace.StopsAtError.steps_first` — **what follows the
  first error does not matter**;
* `Keyspace.StopsAtError.exists_first` — an error was the error of some step first;
* `Keyspace.TakesSteps.stopsAtError`, `Keyspace.TakesSteps.taken` — steps that are attempted stop at
  the first error, and are taken if they leave none;
* `Keyspace.Datum.failsAsMarshal`, `Keyspace.Condition.check_ne_error` and so on — the errors of the
  parts of a step.
-/

set_option autoImplicit false

namespace Keyspace

/-! ### Steps that stop -/

/-- **Steps that stop at the first error.**  They leave what has failed as it is, and what fails at
a step is what there was before it, with an error. -/
structure StopsAtError {β ς : Type} (error? : β → Option Error) (withError : β → Error → β)
    (step : β → ς → β) : Prop where
  failed : ∀ b s e, error? b = some e → step b s = b
  fails : ∀ b s e, error? b = none → error? (step b s) = some e → step b s = withError b e

namespace StopsAtError

variable {β ς : Type} {error? : β → Option Error} {withError : β → Error → β} {step : β → ς → β}

/-- What has failed stays as it is. -/
theorem steps_failed (h : StopsAtError error? withError step) {b : β} {e : Error}
    (hb : error? b = some e) (ss : List ς) : ss.foldl step b = b := by
  induction ss with
  | nil => rfl
  | cons s rest ih => rw [List.foldl_cons, h.failed b s e hb, ih]

/-- **What follows the first error does not matter.** -/
theorem steps_first (h : StopsAtError error? withError step) {b : β} {before : List ς} {s : ς}
    {e : Error} (hbefore : error? (before.foldl step b) = none)
    (hs : error? (step (before.foldl step b) s) = some e) (after : List ς) :
    (before ++ s :: after).foldl step b = withError (before.foldl step b) e := by
  rw [List.foldl_append, List.foldl_cons, h.steps_failed hs after]
  exact h.fails _ s e hbefore hs

/-- **An error was the error of some step first.** -/
theorem exists_first (h : StopsAtError error? withError step) {b : β} (hb : error? b = none)
    {ss : List ς} {e : Error} (he : error? (ss.foldl step b) = some e) :
    ∃ before s after, ss = before ++ s :: after ∧ error? (before.foldl step b) = none ∧
      error? (step (before.foldl step b) s) = some e := by
  induction ss generalizing b with
  | nil => rw [List.foldl_nil, hb] at he; cases he
  | cons s rest ih =>
      cases hstep : error? (step b s) with
      | none =>
          obtain ⟨before, s', after, rfl, hbefore, hs'⟩ := ih hstep he
          exact ⟨s :: before, s', after, rfl, hbefore, hs'⟩
      | some e' =>
          rw [List.foldl_cons, h.steps_failed hstep, hstep] at he
          cases he
          exact ⟨[], s, rest, rfl, hb, hstep⟩

/-- If there is no error at the end there was none before. -/
theorem error_none (h : StopsAtError error? withError step) {b : β} {ss : List ς}
    (hss : error? (ss.foldl step b) = none) : error? b = none := by
  cases hb : error? b with
  | none => rfl
  | some e => rw [h.steps_failed hb, hb] at hss; cases hss

/-- If no step leaves an error there is none at the end. -/
theorem last_error_none {b : β} {ss : List ς}
    (h : ∀ before s after, ss = before ++ s :: after →
      error? (step (before.foldl step b) s) = none) :
    ss = [] ∨ error? (ss.foldl step b) = none := by
  obtain rfl | ⟨before, s, hss⟩ := List.eq_nil_or_concat ss
  · exact .inl rfl
  · rw [List.concat_eq_append] at hss
    rw [hss, List.foldl_append]
    exact .inr (h before s [] hss)

end StopsAtError

/-! ### Steps that are attempted -/

/-- **The errors that a step can have**: something is wrong in itself, or an operand cannot be
written. -/
def AsOperand.Refuses (ν : Type) [AsOperand ν] (e : Error) : Prop :=
  e.isValidation = true ∨ ∃ value : ν, AsOperand.encode value = .error e

/-- Operands that fail to be written with errors of encoding only. -/
def AsOperand.FailsAsMarshal (ν : Type) [AsOperand ν] : Prop :=
  ∀ (value : ν) (e : Error), AsOperand.encode value = .error e → e.isMarshal = true

/-- An error of several operands is an error of one of them. -/
theorem AsOperand.exists_of_encodeAll {ν : Type} [AsOperand ν] {values : List ν} {e : Error}
    (h : AsOperand.encodeAll values = .error e) :
    ∃ value ∈ values, AsOperand.encode value = .error e := by
  induction values with
  | nil => cases h
  | cons value rest ih =>
      rw [AsOperand.encodeAll, List.mapM_cons] at h
      cases hvalue : AsOperand.encode value with
      | error e' =>
          rw [hvalue] at h
          cases h
          exact ⟨value, List.mem_cons_self, hvalue⟩
      | ok v =>
          rw [hvalue] at h
          cases hrest : rest.mapM AsOperand.encode with
          | ok vs => rw [hrest] at h; cases h
          | error e' =>
              rw [hrest] at h
              cases h
              obtain ⟨other, hother, he⟩ := ih hrest
              exact ⟨other, List.mem_cons_of_mem _ hother, he⟩

/-- **What is said of an outcome**: something of its value, something else of its error. -/
structure Meets {β : Type} (Right : β → Prop) (Wrong : Error → Prop) (outcome : Except Error β) :
    Prop where
  right : ∀ r, outcome = .ok r → Right r
  wrong : ∀ e, outcome = .error e → Wrong e

/-- What is said of the errors of a part and, for each value of the part, of the rest. -/
theorem Meets.bind {α β : Type} {Right : β → Prop} {Wrong : Error → Prop} {x : Except Error α}
    {f : α → Except Error β} (hx : ∀ e, x = .error e → Wrong e)
    (hf : ∀ a, x = .ok a → Meets Right Wrong (f a)) : Meets Right Wrong (x >>= f) := by
  cases hresult : x with
  | ok a => exact hf a hresult
  | error e =>
      refine { right := fun r hr => ?_, wrong := fun e' he' => ?_ }
      · cases hr
      · obtain rfl : e = e' := Except.error.inj he'
        exact hx e hresult

/-- **An outcome that is right**, or an error that a step with operands of a type can have. -/
abbrev RightOr (ν : Type) [AsOperand ν] {β : Type} (Right : β → Prop) : Except Error β → Prop :=
  Meets Right (AsOperand.Refuses ν)

namespace RightOr

variable {ν α β : Type} [AsOperand ν] {Right : β → Prop}

theorem ok {r : β} (h : Right r) : RightOr ν Right (.ok r) where
  right r' hr' := by cases hr'; exact h
  wrong e he := by cases he

theorem invalid (cause : Invalid) : RightOr ν Right (.error (.invalid cause)) where
  right r hr := by cases hr
  wrong e he := by cases he; exact .inl rfl

/-- A part whose errors are all wrong in themselves. -/
theorem part {x : Except Error α} {f : α → Except Error β}
    (hx : ∀ e, e.isValidation = false → x ≠ .error e)
    (hf : ∀ a, x = .ok a → RightOr ν Right (f a)) : RightOr ν Right (x >>= f) :=
  .bind (fun _ he => .inl (kind_of_error hx he)) hf

/-- An operand that has to be written. -/
theorem operand (value : ν) {f : Value → Except Error β}
    (hf : ∀ v, AsOperand.encode value = .ok v → RightOr ν Right (f v)) :
    RightOr ν Right (AsOperand.encode value >>= f) :=
  .bind (fun _ he => .inr ⟨value, he⟩) hf

/-- Operands that have to be written. -/
theorem operands (values : List ν) {f : List Value → Except Error β}
    (hf : ∀ vs, AsOperand.encodeAll values = .ok vs → RightOr ν Right (f vs)) :
    RightOr ν Right (AsOperand.encodeAll values >>= f) :=
  .bind (fun _ he => .inr ((AsOperand.exists_of_encodeAll he).imp fun _ h => h.2)) hf

end RightOr

/-- **What keeps its first error**: an outcome is taken if nothing has failed, an error is kept, and
from then on nothing changes. -/
structure Attempts {β : Type} (error? : β → Option Error) (withError : β → Error → β)
    (attempt : β → Except Error β → β) : Prop where
  failed : ∀ b outcome e, error? b = some e → attempt b outcome = b
  right : ∀ b r, error? b = none → attempt b (.ok r) = r
  wrong : ∀ b e, error? b = none → attempt b (.error e) = withError b e
  told : ∀ b e, error? (withError b e) = some e

/-- **Steps that are attempted**: what is right is what there was with the step taken, and has no
error of its own. -/
structure TakesSteps (ν : Type) [AsOperand ν] {β ς : Type} (error? : β → Option Error)
    (withError : β → Error → β) (attempt : β → Except Error β → β) (step : β → ς → β)
    (Takes : β → ς → β → Prop) : Prop where
  attempts : Attempts error? withError attempt
  spec : ∀ b s, ∃ outcome, step b s = attempt b outcome ∧ RightOr ν (Takes b s) outcome
  keeps : ∀ b s r, Takes b s r → error? r = error? b

namespace TakesSteps

variable {ν β ς : Type} [AsOperand ν] {error? : β → Option Error} {withError : β → Error → β}
  {attempt : β → Except Error β → β} {step : β → ς → β} {Takes : β → ς → β → Prop}

/-- What has not failed takes a step, or has the error of the step from then on. -/
theorem step_cases (h : TakesSteps ν error? withError attempt step Takes) {b : β}
    (hb : error? b = none) (s : ς) :
    Takes b s (step b s) ∧ error? (step b s) = none ∨
      ∃ e, step b s = withError b e ∧ AsOperand.Refuses ν e := by
  obtain ⟨outcome, hstep, hright⟩ := h.spec b s
  rw [hstep]
  cases outcome with
  | ok r =>
      have htakes : Takes b s r := hright.right r rfl
      rw [h.attempts.right b r hb]
      exact .inl ⟨htakes, (h.keeps b s r htakes).trans hb⟩
  | error e => exact .inr ⟨e, h.attempts.wrong b e hb, hright.wrong e rfl⟩

/-- **Steps that are attempted stop at the first error.** -/
theorem stopsAtError (h : TakesSteps ν error? withError attempt step Takes) :
    StopsAtError error? withError step where
  failed b s e hb := by
    obtain ⟨outcome, hstep, -⟩ := h.spec b s
    rw [hstep, h.attempts.failed b outcome e hb]
  fails b s e hb hs := by
    obtain ⟨-, hnone⟩ | ⟨e', hstep, -⟩ := h.step_cases hb s
    · rw [hs] at hnone
      cases hnone
    · rw [hstep, h.attempts.told] at hs
      cases hs
      exact hstep

/-- An error that a step leaves is one that a step can have. -/
theorem refuses (h : TakesSteps ν error? withError attempt step Takes) {b : β} {s : ς} {e : Error}
    (hb : error? b = none) (hs : error? (step b s) = some e) : AsOperand.Refuses ν e := by
  obtain ⟨-, hnone⟩ | ⟨e', hstep, hrefuses⟩ := h.step_cases hb s
  · rw [hs] at hnone
    cases hnone
  · rw [hstep, h.attempts.told] at hs
    cases hs
    exact hrefuses

/-- **A step that leaves no error is taken.** -/
theorem taken (h : TakesSteps ν error? withError attempt step Takes) {b : β} {s : ς}
    (hs : error? (step b s) = none) : Takes b s (step b s) := by
  have hend : error? ([s].foldl step b) = none := hs
  have hb : error? b = none := h.stopsAtError.error_none hend
  obtain ⟨htakes, -⟩ | ⟨e, hstep, -⟩ := h.step_cases hb s
  · exact htakes
  · rw [hstep, h.attempts.told] at hs
    cases hs

end TakesSteps

/-! ### What was said last -/

/-- **What was said last**, or what held before if nothing was said. -/
def lastOf {α : Type} (said : List α) (before : α) : α := said.getLast?.getD before

@[simp] theorem lastOf_nil {α : Type} (before : α) : lastOf [] before = before := rfl

/-- What is said first only holds until something else is said. -/
theorem lastOf_toList_append {α : Type} (first : Option α) (rest : List α) (before : α) :
    lastOf (first.toList ++ rest) before = lastOf rest (first.getD before) := by
  cases first with
  | none => rfl
  | some x =>
      unfold lastOf
      rw [Option.toList_some, List.singleton_append, List.getLast?_cons]
      rfl

theorem filterMap_cons_toList {α β : Type} (f : α → Option β) (x : α) (rest : List α) :
    (x :: rest).filterMap f = (f x).toList ++ rest.filterMap f := by
  cases h : f x <;> simp [h]

/-! ### Conditions with an error -/

namespace ConditionSet

/-- Conditions with an error. -/
def withError (s : ConditionSet) (e : Error) : ConditionSet := { s with error := some e }

theorem fail_of_error_none {s : ConditionSet} (h : s.error = none) (e : Error) :
    s.fail e = s.withError e := by
  simp [fail, attempt, failed, h, withError]

theorem parts_of_error {s : ConditionSet} {e : Error} (h : s.error = some e) :
    s.parts = .error e := by
  rw [parts, h]

end ConditionSet

/-! ### Errors of the parts of a step -/

theorem Error.ne_invalid {e : Error} (he : e.isValidation = false) (cause : Invalid) :
    e ≠ .invalid cause := by
  rintro rfl
  cases he

variable {e : Error}

theorem TableSchema.checkAttribute_ne_error (he : e.isValidation = false) (s : TableSchema)
    (field : String) : s.checkAttribute field ≠ .error e := by
  unfold checkAttribute
  split
  · simp
  · exact fun h => Error.ne_invalid he _ (Except.error.inj h).symm

/-- An error of some checks is an error of one of them. -/
theorem forM_ne_error {α : Type} {check : α → Except Error Unit}
    (hcheck : ∀ a, check a ≠ .error e) (xs : List α) : xs.forM check ≠ .error e := by
  induction xs with
  | nil => intro h; cases h
  | cons x rest ih => exact bind_ne_error (hcheck x) fun _ => ih

theorem Condition.check_ne_error (he : e.isValidation = false) (field : String) (op : Operator)
    (values : List Value) : Condition.check field op values ≠ .error e := by
  unfold check
  split
  · exact fun h => Error.ne_invalid he _ (Except.error.inj h).symm
  · split
    · simp
    · exact fun h => Error.ne_invalid he _ (Except.error.inj h).symm

theorem Operator.read_ne_error (he : e.isValidation = false) (text : String) :
    Operator.read text ≠ .error e := by
  unfold read
  split
  · exact fun h => Error.ne_invalid he _ (Except.error.inj h).symm
  · split
    · simp
    · exact fun h => Error.ne_invalid he _ (Except.error.inj h).symm

theorem Fragment.validate_ne_error (he : e.isValidation = false) (f : Fragment) :
    f.validate ≠ .error e := by
  unfold validate
  split
  · exact fun h => Error.ne_invalid he _ (Except.error.inj h).symm
  · simp

theorem Value.asSet_ne_error (he : e.isValidation = false) (v : Value) : v.asSet ≠ .error e := by
  unfold asSet
  split
  · exact fun h => Error.ne_invalid he _ (Except.error.inj h).symm
  · split
    · simp
    · exact fun h => Error.ne_invalid he _ (Except.error.inj h).symm
  · simp

namespace Datum

mutual

/-- What has no attribute value cannot be written, and nothing else is wrong with it. -/
theorem toValue_ne_error (he : e.isMarshal = false) : (d : Datum) → d.toValue ≠ .error e
  | .null => by simp [toValue]
  | .bool b => by simp [toValue]
  | .int n => by simp [toValue]
  | .float x => by simp [toValue]
  | .text s => by simp [toValue]
  | .bytes b => by simp [toValue]
  | .list xs => by simpa [toValue] using map_ne_error _ (valuesOfList_ne_error he xs)
  | .map es => by simpa [toValue] using map_ne_error _ (entriesOfMap_ne_error he es)

theorem valuesOfList_ne_error (he : e.isMarshal = false) :
    (xs : List Datum) → valuesOfList xs ≠ .error e
  | [] => by simp [valuesOfList]
  | x :: xs => by
    rw [valuesOfList]
    exact bind_ne_error (toValue_ne_error he x) fun v =>
      bind_ne_error (valuesOfList_ne_error he xs) fun vs => by simp

theorem entriesOfMap_ne_error (he : e.isMarshal = false) :
    (es : List (Datum × Datum)) → entriesOfMap es ≠ .error e
  | [] => by simp [entriesOfMap]
  | (key, x) :: es => by
    rw [entriesOfMap]
    split
    · rintro ⟨⟩
      cases he
    · exact bind_ne_error (toValue_ne_error he x) fun v =>
        bind_ne_error (entriesOfMap_ne_error he es) fun vs => by simp

end

/-- **Plain data fail to be written with errors of encoding only.** -/
theorem failsAsMarshal : AsOperand.FailsAsMarshal Datum := fun d _ h =>
  kind_of_error (fun _ he => toValue_ne_error he d) h

end Datum

end Keyspace
