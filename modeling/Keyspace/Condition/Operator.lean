import Keyspace.Text.Blank
/-!
# Operators

A condition compares an attribute with its operands by one of twelve operators.  An operator has
a text in expressions, a name that identifies it, and several spellings in which it may be asked
for; case and surrounding blanks do not matter there.

Main definitions:

* `Keyspace.Operator` — the operators;
* `Keyspace.Operator.text`, `Keyspace.Operator.name` — how an operator is written;
* `Keyspace.Operator.read?` — the operator of a spelling;
* `Keyspace.Operator.admits` — the number of operands;
* `Keyspace.Operator.servesSortKey` — whether a key condition may use the operator.
-/

set_option autoImplicit false

namespace Keyspace

/-- How an attribute is compared with its operands. -/
inductive Operator where
  | eq
  | ne
  | lt
  | le
  | gt
  | ge
  | between
  | oneOf
  | beginsWith
  | contains
  | attributeExists
  | attributeNotExists
  deriving DecidableEq, Repr

namespace Operator

/-- All operators. -/
def all : List Operator :=
  [eq, ne, lt, le, gt, ge, between, oneOf, beginsWith, contains, attributeExists,
    attributeNotExists]

theorem mem_all (op : Operator) : op ∈ all := by cases op <;> decide

/-! ### Writing -/

/-- The text of an operator in expressions. -/
def text : Operator → String
  | eq => "="
  | ne => "<>"
  | lt => "<"
  | le => "<="
  | gt => ">"
  | ge => ">="
  | between => "BETWEEN"
  | oneOf => "IN"
  | beginsWith => "begins_with"
  | contains => "contains"
  | attributeExists => "attribute_exists"
  | attributeNotExists => "attribute_not_exists"

/-- The name that identifies an operator. -/
def name : Operator → String
  | eq => "Eq"
  | ne => "Ne"
  | lt => "Lt"
  | le => "Le"
  | gt => "Gt"
  | ge => "Ge"
  | between => "Between"
  | oneOf => "In"
  | beginsWith => "BeginsWith"
  | contains => "Contains"
  | attributeExists => "AttributeExists"
  | attributeNotExists => "AttributeNotExists"

/-! ### Reading -/

/-- The spellings of each operator, in upper case. -/
def spellings : List (String × Operator) :=
  [("=", eq), ("EQ", eq), ("<>", ne), ("!=", ne), ("NE", ne), ("<", lt), ("LT", lt), ("<=", le),
    ("LE", le), (">", gt), ("GT", gt), (">=", ge), ("GE", ge), ("BETWEEN", between), ("IN", oneOf),
    ("BEGINS_WITH", beginsWith), ("CONTAINS", contains), ("EXISTS", attributeExists),
    ("ATTRIBUTE_EXISTS", attributeExists), ("NOT_EXISTS", attributeNotExists),
    ("ATTRIBUTE_NOT_EXISTS", attributeNotExists)]

/-- A text without surrounding blanks, its ASCII letters in upper case. -/
def normalized (s : String) : String :=
  String.ofList ((Text.trim s).toList.map Char.toUpper)

/-- The operator of a spelling, in any case and with blanks around it. -/
def read? (s : String) : Option Operator := spellings.lookup (normalized s)

/-! ### Operands -/

/-- The most operands that `oneOf` takes. -/
def maxChoices : Nat := 100

/-- The least and the greatest number of operands. -/
def operands : Operator → Nat × Nat
  | attributeExists | attributeNotExists => (0, 0)
  | between => (2, 2)
  | oneOf => (1, maxChoices)
  | _ => (1, 1)

/-- Whether an operator takes `n` operands. -/
def admits (op : Operator) (n : Nat) : Bool := op.operands.1 ≤ n && n ≤ op.operands.2

/-- The number of operands, in words. -/
def operandsText : Operator → String
  | attributeExists | attributeNotExists => "no operands"
  | between => "exactly 2 operands"
  | oneOf => "between 1 and " ++ toString maxChoices ++ " operands"
  | _ => "exactly 1 operand"

/-- Whether a condition on a sort key may be part of a key condition. -/
def servesSortKey : Operator → Bool
  | eq | lt | le | gt | ge | between | beginsWith => true
  | _ => false

end Operator

end Keyspace
