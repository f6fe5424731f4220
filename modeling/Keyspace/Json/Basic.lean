import Keyspace.Dict
import Keyspace.Number.Approximate
/-!
# JSON values

A number written without fraction and exponent is an integer, of any size; every other number is
kept as it is written, minus zero among them.  The members of an object are a dictionary.

Main definitions:

* `Keyspace.Json` — the values;
* `Keyspace.Json.get?`, `Keyspace.Json.text?` and so on — one kind of value, or nothing.
-/

set_option autoImplicit false

namespace Keyspace

/-- A JSON value. -/
inductive Json where
  | null
  | bool (value : Bool)
  | int (value : Int)
  | real (literal : String)
  | string (value : String)
  | array (elements : List Json)
  | object (members : List (String × Json))
  deriving Repr, BEq, Inhabited

namespace Json

/-- An object with the given members, in the order of a dictionary. -/
def ofMembers (members : List (String × Json)) : Json := .object (Dict.ofList members)

/-! ### One kind of value -/

/-- The text of a string. -/
def text? : Json → Option String
  | .string s => some s
  | _ => none

/-- The elements of an array. -/
def elements? : Json → Option (List Json)
  | .array xs => some xs
  | _ => none

/-- The members of an object. -/
def members? : Json → Option (Dict Json)
  | .object ms => some ms
  | _ => none

/-- The value of a truth value. -/
def bool? : Json → Option Bool
  | .bool b => some b
  | _ => none

/-- The value of an integer. -/
def int? : Json → Option Int
  | .int n => some n
  | _ => none

/-- The double of a number. -/
def real? : Json → Option Number.Binary64
  | .int n => Number.Binary64.approximate? (toString n)
  | .real literal => Number.Binary64.approximate? literal
  | _ => none

/-- A whole number from `least` to `most`, whether or not it is written as one. -/
def whole? (least most : Int) (j : Json) : Option Int :=
  let n :=
    match j with
    | .real _ => j.real?.bind Number.Binary64.whole?
    | _ => j.int?
  n.filter fun n => least ≤ n && n ≤ most

/-- The value of a member of an object; `null` counts as no value. -/
def get? (j : Json) (name : String) : Option Json :=
  match j with
  | .object ms =>
    match Dict.get? ms name with
    | some .null => none
    | found => found
  | _ => none

/-- An array of texts. -/
def texts? (j : Json) : Option (List String) := j.elements?.bind fun xs => xs.mapM text?

end Json

end Keyspace
