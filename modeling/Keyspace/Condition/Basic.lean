import Keyspace.Error
/-!
# Conditions

A condition says how an attribute compares with some operands.  The attribute is named by a
document path, such as `address.city` or `tags[0]`.

Main definitions:

* `Keyspace.Condition` — the conditions;
* `Keyspace.Condition.check` — a condition with a named field and the right number of operands;
* `Keyspace.Operator.read` — the operator of a spelling, or what is wrong with it.
-/

set_option autoImplicit false

namespace Keyspace

/-- `field operator values`. -/
structure Condition where
  field : String
  operator : Operator
  values : List Value
  deriving Repr, BEq

/-- The condition that a field equals a value. -/
def Condition.eq (field : String) (value : Value) : Condition := ⟨field, .eq, [value]⟩

/-- **A condition with a field that is not blank and as many operands as its operator takes.** -/
def Condition.check (field : String) (op : Operator) (values : List Value) :
    Except Error Condition :=
  if Text.isBlankText field then .error (.invalid .emptyField)
  else if op.admits values.length then .ok ⟨field, op, values⟩
  else .error (.invalid (.operandCount op field values.length))

theorem Condition.check_eq_ok {field : String} {op : Operator} {values : List Value}
    {c : Condition} (h : Condition.check field op values = .ok c) :
    c = ⟨field, op, values⟩ ∧ op.admits values.length = true := by
  unfold Condition.check at h
  split at h
  · cases h
  · split at h
    · next admitted => cases h; exact ⟨rfl, admitted⟩
    · cases h

/-- **The operator of a spelling**, in any case and with blanks around it. -/
def Operator.read (s : String) : Except Error Operator :=
  if Text.isBlankText s then .error (.invalid .emptyOperator)
  else
    match Operator.read? s with
    | some op => .ok op
    | none => .error (.invalid (.unsupportedOperator s))

end Keyspace
