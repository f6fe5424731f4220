import Keyspace.Proofs.Builder.Query
import Keyspace.Proofs.Condition.Spelling
/-!
# Conditions that are spelt out

A condition can be asked for by the text of its operator and one value, or by the step that the
operator has for itself.  Both leave the same query and the same error.  A value that stands for
as many operands as the operator does not take has no such step, and is refused, and so is a text
that spells no operator.

Main definitions:

* `Keyspace.Query.Step.typed?` — the step that an operator has for a value.

Main results:

* `Keyspace.Query.typed_spec` — what such a step attempts;
* `Keyspace.Query.operands_refused` — values without such a step;
* `Keyspace.Query.spelt_conditions_are_typed` — **both ways to ask for a condition agree**.
-/

set_option autoImplicit false

namespace Keyspace.Query

/-- **The step that an operator has for a value.**  Two bounds are the elements of a list, several
choices too, and what is no list is the only choice; a null stands for no operand.  There is no
step for bounds that are not two, and none for an operand where none is wanted. -/
def Step.typed? (field : String) : Operator → Datum → Option Step
  | .between, .list [low, high] => some (.between field low high)
  | .between, _ => none
  | .oneOf, .list values => some (.oneOf field values)
  | .oneOf, value => some (.oneOf field [value])
  | .beginsWith, .text start => some (.beginsWith field start)
  | .attributeExists, .null => some (.attributeExists field)
  | .attributeExists, _ => none
  | .attributeNotExists, .null => some (.attributeNotExists field)
  | .attributeNotExists, _ => none
  | op, value => some (.compare field op value)

variable {q : Query} {field text : String} {op : Operator} {value : Datum}

/-- What is attempted when an operator is asked for with one value. -/
def outcomeOf (q : Query) (field : String) (op : Operator) (value : Datum) :
    Except Error Query := do
  let v ← value.toValue
  q.withCondition field op (operandsOf op v)

/-- A condition whose operator is spelt right. -/
theorem condition_of_spells (h : Operator.Spells text op) :
    q.condition field text value = q.attempt (q.outcomeOf field op value) := by
  unfold condition
  rw [Operator.read_eq_ok_iff.2 h]
  rfl

/-- An error is kept unless there is one. -/
theorem attempt_error (q : Query) (e : Error) : q.attempt (.error e) = q.fail e := by
  unfold attempt
  split
  · next hfailed =>
      rw [fail, ConditionSet.fail, ConditionSet.attempt_of_failed hfailed]
  · rfl

/-- A condition whose operator is not spelt right. -/
theorem condition_of_misspelling (h : ∀ op, ¬Operator.Spells text op) :
    q.condition field text value = q.fail (.invalid (Operator.misspelling text)) := by
  unfold condition
  rw [Operator.read_eq_error_iff.2 h]
  exact q.attempt_error _

/-! ### Values with a step -/

/-- What is no list does not stand for one. -/
theorem operandsOf_oneOf {v : Value} (hvalue : ∀ ds, value ≠ .list ds)
    (hv : value.toValue = .ok v) : operandsOf .oneOf v = [v] := by
  cases value with
  | list ds => exact absurd rfl (hvalue ds)
  | map es =>
      rw [Datum.toValue] at hv
      obtain ⟨entries, -, rfl⟩ := map_eq_ok hv
      rfl
  | null | bool | int | float | text | bytes =>
      obtain rfl := Except.ok.inj hv
      rfl

/-- Bounds are the two elements of a list. -/
theorem outcomeOf_between (low high : Datum) :
    q.outcomeOf field .between (.list [low, high]) = (do
      let l ← low.toValue
      let h ← high.toValue
      q.withCondition field .between [l, h]) := by
  simp only [outcomeOf, Datum.toValue, Datum.valuesOfList]
  cases low.toValue with
  | error e => rfl
  | ok l => cases high.toValue <;> rfl

/-- Several operands are written as the elements of a list are. -/
theorem encodeAll_data (values : List Datum) :
    AsOperand.encodeAll values = Datum.valuesOfList values := by
  induction values with
  | nil => rfl
  | cons d rest ih =>
      rw [AsOperand.encodeAll, List.mapM_cons, ← AsOperand.encodeAll, ih]
      rfl

/-- Choices are the elements of a list. -/
theorem outcomeOf_oneOf_list (values : List Datum) :
    q.outcomeOf field .oneOf (.list values) = (do
      let vs ← AsOperand.encodeAll values
      q.withCondition field .oneOf vs) := by
  simp only [outcomeOf, Datum.toValue, encodeAll_data]
  cases Datum.valuesOfList values <;> rfl

/-- What is no list is the only choice. -/
theorem outcomeOf_oneOf (hvalue : ∀ ds, value ≠ .list ds) :
    q.outcomeOf field .oneOf value = (do
      let vs ← AsOperand.encodeAll [value]
      q.withCondition field .oneOf vs) := by
  simp only [outcomeOf, encodeAll_data, Datum.valuesOfList]
  cases hv : value.toValue with
  | error e => rfl
  | ok v =>
      have hone : operandsOf .oneOf v = [v] := operandsOf_oneOf hvalue hv
      simp only [bind, Except.bind, hone]

/-- **A step of an operator** attempts what is attempted when the operator is spelt out. -/
theorem typed_spec {s : Step} (h : Step.typed? field op value = some s) (now : Nat) :
    q.step now s = q.attempt (q.outcomeOf field op value) := by
  cases op with
  | between =>
      match value, h with
      | .list [low, high], h =>
          obtain rfl := Option.some.inj h
          rw [outcomeOf_between]
          rfl
  | oneOf =>
      cases value with
      | list values =>
          obtain rfl := Option.some.inj h
          rw [outcomeOf_oneOf_list]
          rfl
      | null | bool | int | float | text | bytes | map =>
          obtain rfl := Option.some.inj h
          rw [outcomeOf_oneOf (fun ds => by simp)]
          rfl
  | beginsWith =>
      cases value with
      | text start =>
          obtain rfl := Option.some.inj h
          rfl
      | null | bool | int | float | list | bytes | map =>
          obtain rfl := Option.some.inj h
          rfl
  | attributeExists =>
      match value, h with
      | .null, h =>
          obtain rfl := Option.some.inj h
          rfl
  | attributeNotExists =>
      match value, h with
      | .null, h =>
          obtain rfl := Option.some.inj h
          rfl
  | eq | ne | lt | le | gt | ge | contains =>
      obtain rfl := Option.some.inj h
      rfl

/-! ### Values without a step -/

/-- A list has as many attribute values as elements. -/
theorem length_of_valuesOfList {ds : List Datum} {vs : List Value}
    (h : Datum.valuesOfList ds = .ok vs) : vs.length = ds.length := by
  induction ds generalizing vs with
  | nil =>
      obtain rfl := Except.ok.inj h
      rfl
  | cons d rest ih =>
      rw [Datum.valuesOfList] at h
      obtain ⟨v, -, h⟩ := bind_eq_ok h
      obtain ⟨others, hothers, h⟩ := bind_eq_ok h
      obtain rfl := Except.ok.inj h
      rw [List.length_cons, List.length_cons, ih hothers]

/-- **A value without a step** does not stand for as many operands as the operator takes. -/
theorem not_admits_of_typed? (h : Step.typed? field op value = none) {v : Value}
    (hv : value.toValue = .ok v) : op.admits (operandsOf op v).length = false := by
  cases op with
  | between =>
      cases value with
      | list ds =>
          rw [Datum.toValue] at hv
          obtain ⟨vs, hvs, rfl⟩ := map_eq_ok hv
          have hlength : vs.length = ds.length := length_of_valuesOfList hvs
          have htwo : vs.length ≠ 2 := by
            match ds, h with
            | [], _ | [_], _ | _ :: _ :: _ :: _, _ => simp [hlength]
          simp only [operandsOf, Operator.admits, Operator.operands]
          grind
      | map es =>
          rw [Datum.toValue] at hv
          obtain ⟨entries, -, rfl⟩ := map_eq_ok hv
          rfl
      | null | bool | int | float | text | bytes =>
          obtain rfl := Except.ok.inj hv
          rfl
  | attributeExists | attributeNotExists =>
      cases value with
      | list ds | map es =>
          rw [Datum.toValue] at hv
          obtain ⟨inner, -, rfl⟩ := map_eq_ok hv
          rfl
      | null => cases h
      | bool | int | float | text | bytes =>
          obtain rfl := Except.ok.inj hv
          rfl
  | oneOf => cases value <;> cases h
  | beginsWith => cases value <;> cases h
  | eq | ne | lt | le | gt | ge | contains => cases h

/-- A condition with operands that its operator does not take is wrong in itself. -/
theorem withCondition_refused (q : Query) (field : String) {values : List Value}
    (h : op.admits values.length = false) :
    ∃ e, e.isValidation = true ∧ q.withCondition field op values = .error e := by
  cases hresult : q.withCondition field op values with
  | ok r =>
      obtain ⟨_, -, hcheck⟩ := bind_eq_ok hresult
      obtain ⟨c, hc, -⟩ := bind_eq_ok hcheck
      have hadmits := (Condition.check_eq_ok hc).2
      rw [h] at hadmits
      cases hadmits
  | error e =>
      refine ⟨e, kind_of_error (fun e hother => ?_) hresult, rfl⟩
      refine bind_ne_error (TableSchema.checkAttribute_ne_error hother _ _) fun _ => ?_
      exact bind_ne_error (Condition.check_ne_error hother _ _ _) fun c => by simp

/-- **A value without a step is refused**, and adds nothing to the query. -/
theorem outcomeOf_refused (h : Step.typed? field op value = none) :
    ∃ e, (e.isValidation = true ∨ value.toValue = .error e) ∧
      q.outcomeOf field op value = .error e := by
  unfold outcomeOf
  cases hv : value.toValue with
  | error e => exact ⟨e, .inr rfl, rfl⟩
  | ok v =>
      obtain ⟨e, hvalid, he⟩ :=
        withCondition_refused q field (not_admits_of_typed? h hv)
      exact ⟨e, .inl hvalid, he⟩

/-! ### Both ways to ask -/

/-- **A condition whose operator is spelt out** leaves the query, and the error, that the step of
the operator leaves.  A value that the operator has no step for is refused, and so is a text that
spells no operator; the text of an operator spells it. -/
theorem spelt_conditions_are_typed (q : Query) (field text : String) (value : Datum) :
    (∀ op, Operator.Spells text op →
      (∀ s, Step.typed? field op value = some s →
        ∀ now, q.condition field text value = q.step now s) ∧
      (Step.typed? field op value = none →
        ∃ e, (e.isValidation = true ∨ value.toValue = .error e) ∧
          q.condition field text value = q.fail e)) ∧
    ((∀ op, ¬Operator.Spells text op) →
      Operator.read text = .error (.invalid (Operator.misspelling text)) ∧
        q.condition field text value = q.fail (.invalid (Operator.misspelling text))) ∧
    ∀ op, Operator.read (Operator.text op) = .ok op := by
  refine ⟨fun op hspells => ⟨fun s hs now => ?_, fun hnone => ?_⟩, fun hmisspelt => ?_,
    fun op => ?_⟩
  · rw [condition_of_spells hspells, typed_spec hs now]
  · obtain ⟨e, hcause, he⟩ := outcomeOf_refused (q := q) hnone
    refine ⟨e, hcause, ?_⟩
    rw [condition_of_spells hspells, he, attempt_error]
  · exact ⟨Operator.read_eq_error_iff.2 hmisspelt, condition_of_misspelling hmisspelt⟩
  · exact Operator.read_eq_ok_iff.2 (Operator.spells_text op)

end Keyspace.Query

namespace Keyspace

/-! ### A library -/

namespace Library

/-- A search among all books. -/
def search : Query :=
  { schema := { table := "library", partitionKey := "owner" }, retry := { max := 0 } }

/-- Two years, as one value. -/
def twoYears : Datum := .list [.int 1811, .int 1818]

end Library

open Library

/-- Books of some years, asked for in two ways, with one year too few, and by an operator that there
is not. -/
theorem library_years_are_spelt_out :
    Operator.Spells "\tBetween " .between ∧ (∀ op, ¬Operator.Spells "near" op) ∧
      Query.Step.typed? "year" .between twoYears =
        some (.between "year" (.int 1811) (.int 1818)) ∧
      Query.Step.typed? "year" .between (.list [.int 1811]) = none ∧
      search.condition "year" "\tBetween " twoYears =
        search.between "year" (Datum.int 1811) (Datum.int 1818) ∧
      (search.between "year" (Datum.int 1811) (Datum.int 1818)).error?.isNone = true ∧
      (∃ e, (e.isValidation = true ∨ (Datum.list [.int 1811]).toValue = .error e) ∧
        search.condition "year" "\tBetween " (Datum.list [.int 1811]) = search.fail e) ∧
      search.condition "year" "near" Datum.null =
        search.fail (.invalid (.unsupportedOperator "near")) := by
  have hspells : Operator.Spells "\tBetween " .between := Operator.read?_eq_some_iff.1 (by decide)
  have hmisspelt : ∀ op, ¬Operator.Spells "near" op := Operator.read_eq_error_iff.1 rfl
  obtain ⟨htwo, -, -⟩ := Query.spelt_conditions_are_typed search "year" "\tBetween " twoYears
  obtain ⟨hone, -, -⟩ :=
    Query.spelt_conditions_are_typed search "year" "\tBetween " (.list [.int 1811])
  obtain ⟨-, hnear, -⟩ := Query.spelt_conditions_are_typed search "year" "near" .null
  refine ⟨hspells, hmisspelt, rfl, rfl, (htwo _ hspells).1 _ rfl 0, by decide, ?_, ?_⟩
  · exact (hone _ hspells).2 rfl
  · exact (hnear hmisspelt).2

end Keyspace
