import Keyspace.Attribute.Tagged
import Keyspace.Json.Printer
import Keyspace.Json.Reader
/-!
# Envelopes

A cursor holds three things: a version, the key behind which to go on, and the fingerprint of the
read it belongs to.  They are written as a JSON object with the members `v`, `lastKey` and
`shape`, in this order.  When an envelope is read the members may come in any order, each exactly
once, with others between them; an array of the three is an envelope too.

Main definitions:

* `Keyspace.Envelope` — the three things, the values of the key still in JSON;
* `Keyspace.Envelope.toJson`, `Keyspace.Envelope.ofBytes?` — writing and reading.
-/

set_option autoImplicit false

namespace Keyspace

/-- What a cursor holds. -/
structure Envelope where
  version : Nat
  key : Dict Json
  shape : String
  deriving Repr

namespace Envelope

open Json (Outline)

/-- An envelope as JSON.  The order of the members is part of the format. -/
def toJson (e : Envelope) : Json :=
  .object [("v", .int e.version), ("lastKey", .object e.key), ("shape", .string e.shape)]

/-! ### Reading -/

/-- The largest version that can be written. -/
def maxVersion : Nat := 255

/-- The most arrays and objects inside each other that a key may have; with the envelope around
it there are 127. -/
def maxKeyDepth : Nat := 126

/-- The version that stands in an envelope: a whole number without sign. -/
def version? : Outline → Option Nat
  | .number literal =>
    match Outline.number? literal with
    | some (.int n) => if 0 ≤ n && n ≤ maxVersion then some n.toNat else none
    | _ => none
  | _ => none

/-- The key that stands in an envelope. -/
def key? (o : Outline) : Option (Dict Json) := (o.toJson? maxKeyDepth).bind Json.members?

/-- The fingerprint that stands in an envelope. -/
def shape? : Outline → Option String
  | .string text => text
  | _ => none

/-- The only value of a name among some members. -/
def only? (name : String) (members : List (Option String × Outline)) : Option Outline :=
  match members.filter fun m => m.1 == some name with
  | [m] => some m.2
  | _ => none

/-- The three parts of an envelope. -/
def parts? : Outline → Option (Outline × Outline × Outline)
  | .array [version, key, shape] => some (version, key, shape)
  | .object members =>
    if members.any fun m => m.1.isNone then none
    else do
      let version ← only? "v" members
      let key ← only? "lastKey" members
      let shape ← only? "shape" members
      some (version, key, shape)
  | _ => none

/-- **The envelope that some bytes spell.** -/
def ofBytes? (bytes : List UInt8) : Option Envelope := do
  let outline ← Outline.ofBytes? bytes
  let (version, key, shape) ← parts? outline
  let version ← version? version
  let key ← key? key
  let shape ← shape? shape
  some { version, key, shape }

end Envelope

end Keyspace
