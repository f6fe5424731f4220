import Keyspace.Attribute.Basic
import Keyspace.Bytes.Base64
import Keyspace.Json.Basic
/-!
# Tagged values

In JSON an attribute value is an object with one member, whose name says of what kind the value
is: `S` a text, `N` a number, `B` some bytes in Base64, `BOOL`, `NULL`, the sets `SS`, `NS` and
`BS`, a list `L` and a map `M`.  An unknown value has no tag; it is shown as a word, which reads
as no value at all.

Main definitions:

* `Keyspace.Value.toJson`, `Keyspace.Item.toJson` — writing;
* `Keyspace.Value.Fault` — what a JSON value lacks to be a tagged value;
* `Keyspace.Value.ofJson`, `Keyspace.Item.ofJson` — reading.
-/

set_option autoImplicit false

namespace Keyspace

namespace Value

open Keyspace.Bytes

/-! ### Writing -/

/-- Bytes as a Base64 string. -/
def binaryJson (bytes : List UInt8) : Json :=
  .string (String.ofList (Base64.encode Base64.standard bytes))

mutual

/-- **A value as tagged JSON.** -/
def toJson : Value → Json
  | .text s => .object [("S", .string s)]
  | .number n => .object [("N", .string n)]
  | .binary b => .object [("B", binaryJson b)]
  | .bool b => .object [("BOOL", .bool b)]
  | .null flag => .object [("NULL", .bool flag)]
  | .texts ss => .object [("SS", .array (ss.map .string))]
  | .numbers ns => .object [("NS", .array (ns.map .string))]
  | .binaries bs => .object [("BS", .array (bs.map binaryJson))]
  | .list vs => .object [("L", .array (listToJson vs))]
  | .map es => .object [("M", .object (entriesToJson es))]
  | .unknown => .string "UNKNOWN"

/-- The values of a list as tagged JSON. -/
def listToJson : List Value → List Json
  | [] => []
  | v :: vs => toJson v :: listToJson vs

/-- The entries of a map as tagged JSON. -/
def entriesToJson : List (String × Value) → List (String × Json)
  | [] => []
  | (name, v) :: es => (name, toJson v) :: entriesToJson es

end

/-! ### Reading -/

/-- What a JSON value lacks to be a tagged value. -/
inductive Fault where
  | notTagged
  | unknownTag (tag : String)
  | notText (tag : String)
  | notArray (tag : String)
  | notObject (tag : String)
  | notBool (tag : String)
  | notBinary
  deriving DecidableEq, Repr

/-- The wording of a fault. -/
def Fault.message : Fault → String
  | .notTagged => "expected a single-entry object"
  | .unknownTag tag => "unknown type tag '" ++ tag ++ "'"
  | .notText tag => tag ++ " value must be a string"
  | .notArray tag => tag ++ " value must be an array"
  | .notObject tag => tag ++ " value must be an object"
  | .notBool tag => tag ++ " value must be a boolean"
  | .notBinary => "invalid binary"

/-- How the flag of a null is read: `strictNull` asks for a truth value, `anyNull` takes whatever
stands there for a set flag. -/
abbrev NullRule := Json → Except Fault Bool

/-- The flag of a null is a truth value. -/
def strictNull : NullRule
  | .bool b => .ok b
  | _ => .error (.notBool "NULL")

/-- A null is a null, whatever stands in it. -/
def anyNull : NullRule := fun _ => .ok true

/-- The text under a tag. -/
def textUnder (tag : String) : Json → Except Fault String
  | .string s => .ok s
  | _ => .error (.notText tag)

/-- The texts of the array under a tag. -/
def textsUnder (tag : String) : Json → Except Fault (List String)
  | .array xs => xs.mapM (textUnder tag)
  | _ => .error (.notArray tag)

/-- The bytes of a Base64 text. -/
def binaryOf (s : String) : Except Fault (List UInt8) :=
  match Base64.decode Base64.standard s.toList with
  | some bytes => .ok bytes
  | none => .error .notBinary

/-- A value that holds no other values. -/
def flatUnder (nullRule : NullRule) (tag : String) (inner : Json) : Except Fault Value :=
  if tag = "S" then (textUnder tag inner).map .text
  else if tag = "N" then (textUnder tag inner).map .number
  else if tag = "B" then do
    let s ← textUnder tag inner
    let b ← binaryOf s
    .ok (.binary b)
  else if tag = "BOOL" then
    match inner with
    | .bool b => .ok (.bool b)
    | _ => .error (.notBool tag)
  else if tag = "NULL" then (nullRule inner).map .null
  else if tag = "SS" then (textsUnder tag inner).map .texts
  else if tag = "NS" then (textsUnder tag inner).map .numbers
  else if tag = "BS" then do
    let ss ← textsUnder tag inner
    let bs ← ss.mapM binaryOf
    .ok (.binaries bs)
  else .error (.unknownTag tag)

mutual

/-- **The value of tagged JSON.** -/
def ofJson (nullRule : NullRule) : Json → Except Fault Value
  | .object [(tag, inner)] => ofTagged nullRule tag inner
  | _ => .error .notTagged

/-- The value under a tag. -/
def ofTagged (nullRule : NullRule) (tag : String) : Json → Except Fault Value
  | .array xs =>
    if tag = "L" then (ofElements nullRule xs).map .list
    else if tag = "M" then .error (.notObject tag)
    else flatUnder nullRule tag (.array xs)
  | .object ms =>
    if tag = "M" then (ofMembers nullRule ms).map .map
    else if tag = "L" then .error (.notArray tag)
    else flatUnder nullRule tag (.object ms)
  | inner =>
    if tag = "L" then .error (.notArray tag)
    else if tag = "M" then .error (.notObject tag)
    else flatUnder nullRule tag inner

/-- The values of tagged elements, or the first fault. -/
def ofElements (nullRule : NullRule) : List Json → Except Fault (List Value)
  | [] => .ok []
  | x :: xs => do
    let v ← ofJson nullRule x
    let vs ← ofElements nullRule xs
    .ok (v :: vs)

/-- The values of tagged members, or the first fault. -/
def ofMembers (nullRule : NullRule) : List (String × Json) → Except Fault (List (String × Value))
  | [] => .ok []
  | (name, x) :: ms => do
    let v ← ofJson nullRule x
    let es ← ofMembers nullRule ms
    .ok ((name, v) :: es)

end

end Value

namespace Item

/-- An item as JSON: its names with their tagged values. -/
def toJson (item : Item) : Json := .object (Value.entriesToJson item)

/-- The item of a JSON object of tagged values. -/
def ofJson (nullRule : Value.NullRule) : Json → Except Value.Fault Item
  | .object ms => Value.ofMembers nullRule ms
  | _ => .error .notTagged

end Item

end Keyspace
