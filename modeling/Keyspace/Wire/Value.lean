import Keyspace.Attribute.Tagged
/-!
# Values in replies

A store may say more of a value than its tag.  Members that are `null` and a member `__type` do
not count; of the others there has to be exactly one, and it is the tag with what stands under it.
What stands under a tag that is not known does not matter: the value is an unknown one.

Main definitions:

* `Keyspace.Wire.value?` — the value that a reply holds;
* `Keyspace.Wire.item?` — the item that a reply holds.
-/

set_option autoImplicit false

namespace Keyspace.Wire

/-- A member that tells nothing of the value. -/
def isIdle (tag : String) : Json → Bool
  | .null => true
  | _ => tag = "__type"

/-- The value under a tag, if it holds no other values. -/
def flat? (tag : String) (inner : Json) : Option Value :=
  if tag = "L" || tag = "M" then none
  else
    match Value.flatUnder Value.strictNull tag inner with
    | .ok v => some v
    | .error (.unknownTag _) => some .unknown
    | .error _ => none

mutual

/-- **The value that a reply holds.** -/
def value? : Json → Option Value
  | .object ms =>
    match variants? ms with
    | some [v] => some v
    | _ => none
  | _ => none

/-- The values under the tags of an object. -/
def variants? : List (String × Json) → Option (List Value)
  | [] => some []
  | (tag, x) :: ms =>
    if isIdle tag x then variants? ms
    else do
      let v ← under? tag x
      let vs ← variants? ms
      some (v :: vs)

/-- The value under a tag. -/
def under? (tag : String) : Json → Option Value
  | .array xs => if tag = "L" then (values? xs).map .list else flat? tag (.array xs)
  | .object ms => if tag = "M" then (entries? ms).map .map else flat? tag (.object ms)
  | inner => flat? tag inner

/-- The values of a list. -/
def values? : List Json → Option (List Value)
  | [] => some []
  | x :: xs => do
    let v ← value? x
    let vs ← values? xs
    some (v :: vs)

/-- The names and values of a map. -/
def entries? : List (String × Json) → Option (List (String × Value))
  | [] => some []
  | (name, x) :: ms => do
    let v ← value? x
    let es ← entries? ms
    some ((name, v) :: es)

end

/-- **The item that a reply holds.** -/
def item? (j : Json) : Option Item := j.members?.bind entries?

end Keyspace.Wire
