import Keyspace.Dict
/-!
# Attribute values

An item of a table gives values to attribute names.  A value is a text, a number, which is kept as
the text it is written in, some bytes, a truth value, a null, a set of texts, numbers or byte
strings, a list of values, or a map from names to values.  A store may also send values of kinds
that are not known here.

Main definitions:

* `Keyspace.Value` — the values;
* `Keyspace.Item` — a stored item or a primary key;
* `Keyspace.Value.isKnown` — a value without unknown ones in it;
* `Keyspace.Value.presentNulls` — a value with every null flag set.
-/

set_option autoImplicit false

namespace Keyspace

/-- An attribute value.  The entries of a map are a dictionary; an unknown value tells nothing but
that it is there. -/
inductive Value where
  | text (value : String)
  | number (digits : String)
  | binary (bytes : List UInt8)
  | bool (value : Bool)
  | null (flag : Bool)
  | texts (values : List String)
  | numbers (values : List String)
  | binaries (values : List (List UInt8))
  | list (values : List Value)
  | map (entries : List (String × Value))
  | unknown
  deriving Repr, BEq, Inhabited

/-- A stored item or a primary key: attribute names with their values. -/
abbrev Item := Dict Value

namespace Value

/-! ### Unknown values -/

mutual

/-- Whether a value holds no unknown one and is none itself. -/
def isKnown : Value → Bool
  | .unknown => false
  | .list vs => allKnown vs
  | .map es => entriesKnown es
  | _ => true

/-- Whether all values of a list are known. -/
def allKnown : List Value → Bool
  | [] => true
  | v :: vs => isKnown v && allKnown vs

/-- Whether all values of a map are known. -/
def entriesKnown : List (String × Value) → Bool
  | [] => true
  | (_, v) :: es => isKnown v && entriesKnown es

end

/-! ### Null flags -/

mutual

/-- The value with the flag of every null in it set. -/
def presentNulls : Value → Value
  | .null _ => .null true
  | .list vs => .list (presentNullsOfList vs)
  | .map es => .map (presentNullsOfEntries es)
  | v => v

/-- `presentNulls` of each value of a list. -/
def presentNullsOfList : List Value → List Value
  | [] => []
  | v :: vs => presentNulls v :: presentNullsOfList vs

/-- `presentNulls` of each value of a map. -/
def presentNullsOfEntries : List (String × Value) → List (String × Value)
  | [] => []
  | (name, v) :: es => (name, presentNulls v) :: presentNullsOfEntries es

end

end Value

/-- Whether all values of an item are known. -/
def Item.isKnown (item : Item) : Bool := Value.entriesKnown item

end Keyspace
