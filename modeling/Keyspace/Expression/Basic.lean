import Keyspace.Attribute.Basic
import Keyspace.Fragment
/-!
# Expressions of a request

An expression comes with the meaning of the placeholders in its text.  A request carries up to
five expressions and one dictionary of names and one of values for all of them.

Main definitions:

* `Keyspace.Expression` — a text with the names and values of its placeholders;
* `Keyspace.Expressions` — the expressions of one request;
* `Keyspace.Expressions.names`, `Keyspace.Expressions.values` — the joint dictionaries.
-/

set_option autoImplicit false

namespace Keyspace

/-- The text of an expression and what its placeholders stand for. -/
structure Expression where
  text : String
  names : Dict String := []
  values : Dict Value := []
  deriving Repr, BEq

/-- The expressions of one request. -/
structure Expressions where
  key : Option Expression := none
  filter : Option Expression := none
  projection : Option Expression := none
  update : Option Expression := none
  condition : Option Expression := none
  deriving Repr, BEq

namespace Expressions

/-- The expressions that there are. -/
def present (e : Expressions) : List Expression :=
  [e.key, e.filter, e.projection, e.update, e.condition].filterMap id

/-- The names of all expressions. -/
def names (e : Expressions) : Dict String :=
  e.present.foldl (fun d x => d.union x.names) Dict.empty

/-- The values of all expressions. -/
def values (e : Expressions) : Dict Value :=
  e.present.foldl (fun d x => d.union x.values) Dict.empty

end Expressions

end Keyspace
