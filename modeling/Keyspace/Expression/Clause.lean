import Keyspace.Condition.Basic
import Keyspace.Expression.Path
/-!
# Clauses

A clause is a condition whose names and operands have placeholders.

Main definitions:

* `Keyspace.Clause` — the clauses;
* `Keyspace.Clause.text` — the text of a clause.
-/

set_option autoImplicit false

namespace Keyspace

/-- A condition with placeholders; each operand's placeholder comes with its value. -/
structure Clause where
  operator : Operator
  path : PlacedPath
  operands : List (String × Value)
  deriving Repr

namespace Clause

/-- The placeholders of the operands. -/
def placeholders (c : Clause) : List String := c.operands.map Prod.fst

/-- The placeholder of an operand by its position.  `Condition.check` admits only conditions with
the operands that their operator has places for.  For a condition that was put together without the
check a missing operand is the empty text here, where the program ends. -/
def operand (c : Clause) (n : Nat) : String := c.placeholders.getD n ""

/-- **The text of a clause.**  An operator takes the operands it has a place for. -/
def text (c : Clause) : String :=
  let path := c.path.text
  match c.operator with
  | .eq | .ne | .lt | .le | .gt | .ge => path ++ " " ++ c.operator.text ++ " " ++ c.operand 0
  | .between => path ++ " BETWEEN " ++ c.operand 0 ++ " AND " ++ c.operand 1
  | .oneOf => path ++ " IN (" ++ ", ".intercalate c.placeholders ++ ")"
  | .beginsWith | .contains => c.operator.text ++ "(" ++ path ++ ", " ++ c.operand 0 ++ ")"
  | .attributeExists | .attributeNotExists => c.operator.text ++ "(" ++ path ++ ")"

end Clause

end Keyspace
