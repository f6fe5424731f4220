import Keyspace.Json.Token
/-!
# Reading JSON

Reading has two parts.  The first finds the shape of a text, its `Json.Outline`: it refuses what
is no JSON at all, and keeps everything else, names that occur twice, strings that spell no text
and numbers of any size.  The second looks at the values: `Json.Outline.toJson?` refuses a string
without a text, a number beyond the range of double precision and too deep a nesting, and of two
members of one name keeps the later.  A reader that leaves a part of a text out only needs that
part to have a shape.

Main definitions:

* `Keyspace.Json.Outline` — the shape of a text;
* `Keyspace.Json.Outline.feed` — the effect of one token;
* `Keyspace.Json.Outline.ofBytes?` — the shape of some bytes;
* `Keyspace.Json.Outline.toJson?` — the value of a shape;
* `Keyspace.Json.ofBytes?` — the value of some bytes.
-/

set_option autoImplicit false

namespace Keyspace.Json

/-- The shape of a JSON text. -/
inductive Outline where
  | null
  | bool (value : Bool)
  | number (literal : String)
  | string (text : Option String)
  | array (elements : List Outline)
  | object (members : List (Option String × Outline))
  deriving Inhabited

namespace Outline

/-! ### The shape of a text -/

/-- An array or object that is still open, with what it holds so far, latest first; a member may
wait for its value. -/
inductive Frame where
  | array (elements : List Outline)
  | object (members : List (Option String × Outline))
  | member (members : List (Option String × Outline)) (name : Option String)

/-- What may come next. -/
inductive Expect where
  /-- A value. -/
  | value
  /-- The first element of an array, or its end. -/
  | elementOrEnd
  /-- The first name of an object, or its end. -/
  | nameOrEnd
  /-- A name. -/
  | name
  /-- The colon after a name. -/
  | colon (name : Option String)
  /-- A comma, or the end of the innermost array or object. -/
  | separator
  /-- Nothing: the text is complete. -/
  | nothing (result : Outline)

/-- Where reading stands: what may come next, and the open arrays and objects, innermost first. -/
structure Reading where
  expect : Expect
  frames : List Frame

/-- A complete value takes its place in the innermost open array or object. -/
def place (v : Outline) : List Frame → Option Reading
  | [] => some ⟨.nothing v, []⟩
  | .array xs :: fs => some ⟨.separator, .array (v :: xs) :: fs⟩
  | .member ms name :: fs => some ⟨.separator, .object ((name, v) :: ms) :: fs⟩
  | .object _ :: _ => none

/-- A token where a value may come. -/
def feedValue (fs : List Frame) : Token → Option Reading
  | .null => place .null fs
  | .bool b => place (.bool b) fs
  | .number literal => place (.number literal) fs
  | .string text => place (.string text) fs
  | .openArray => some ⟨.elementOrEnd, .array [] :: fs⟩
  | .openObject => some ⟨.nameOrEnd, .object [] :: fs⟩
  | _ => none

/-- The end of the innermost open array. -/
def closeArray : List Frame → Option Reading
  | .array xs :: fs => place (.array xs.reverse) fs
  | _ => none

/-- The end of the innermost open object. -/
def closeObject : List Frame → Option Reading
  | .object ms :: fs => place (.object ms.reverse) fs
  | _ => none

/-- **The effect of one token.** -/
def feed (r : Reading) (t : Token) : Option Reading :=
  match r.expect, t with
  | .value, t => feedValue r.frames t
  | .elementOrEnd, .closeArray => closeArray r.frames
  | .elementOrEnd, t => feedValue r.frames t
  | .nameOrEnd, .closeObject => closeObject r.frames
  | .nameOrEnd, .string name => some ⟨.colon name, r.frames⟩
  | .name, .string name => some ⟨.colon name, r.frames⟩
  | .colon name, .colon =>
    match r.frames with
    | .object ms :: fs => some ⟨.value, .member ms name :: fs⟩
    | _ => none
  | .separator, .comma =>
    match r.frames with
    | .array xs :: fs => some ⟨.value, .array xs :: fs⟩
    | .object ms :: fs => some ⟨.name, .object ms :: fs⟩
    | _ => none
  | .separator, .closeArray => closeArray r.frames
  | .separator, .closeObject => closeObject r.frames
  | _, _ => none

/-- The effect of some tokens. -/
def feedAll : Reading → List Token → Option Reading
  | r, [] => some r
  | r, t :: ts => (feed r t).bind fun r => feedAll r ts

/-- The shape that some tokens have. -/
def ofTokens? (ts : List Token) : Option Outline :=
  match feedAll ⟨.value, []⟩ ts with
  | some ⟨.nothing v, _⟩ => some v
  | _ => none

/-- **The shape of some bytes.** -/
def ofBytes? (bs : List UInt8) : Option Outline := (Token.ofBytes bs).bind ofTokens?

/-! ### The value of a shape -/

/-- The value of a number: an integer if it is written without fraction and exponent, and kept as
written otherwise.  A number beyond the range of double precision has none. -/
def number? (literal : String) : Option Json :=
  if (Number.Binary64.approximate? literal).isNone then none
  else
    let (negative, digits) := Number.splitSign literal.toList
    if !digits.all Number.isDigit || (negative && digits == ['0']) then some (.real literal)
    else
      let n := Number.ofDigits digits
      some (.int (if negative then -(n : Int) else n))

mutual

/-- **The value of a shape** with at most `depth` arrays and objects inside each other. -/
def toJson? (depth : Nat) : Outline → Option Json
  | .null => some .null
  | .bool b => some (.bool b)
  | .number literal => number? literal
  | .string text => text.map .string
  | .array xs =>
    if depth = 0 then none else (elementsToJson? (depth - 1) xs).map .array
  | .object ms =>
    if depth = 0 then none else (membersToJson? (depth - 1) ms).map ofMembers

/-- The values of all elements of an array. -/
def elementsToJson? (depth : Nat) : List Outline → Option (List Json)
  | [] => some []
  | x :: xs => do
    let v ← toJson? depth x
    let vs ← elementsToJson? depth xs
    some (v :: vs)

/-- The names and values of all members of an object. -/
def membersToJson? (depth : Nat) : List (Option String × Outline) → Option (List (String × Json))
  | [] => some []
  | (name, x) :: ms => do
    let n ← name
    let v ← toJson? depth x
    let vs ← membersToJson? depth ms
    some ((n, v) :: vs)

end

end Outline

/-- **The value of some bytes** with at most `depth` arrays and objects inside each other. -/
def ofBytes? (depth : Nat) (bs : List UInt8) : Option Json :=
  (Outline.ofBytes? bs).bind (Outline.toJson? depth)

end Keyspace.Json
