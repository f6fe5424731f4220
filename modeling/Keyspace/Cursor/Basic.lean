import Keyspace.Cursor.Envelope
import Keyspace.Cursor.Fingerprint
import Keyspace.Error
/-!
# Cursors

A cursor is a text that says where a read goes on: the key of the last item looked at, bound to
the fingerprint of the read.  It is the Base64 form of an envelope, without padding and fit for
addresses.  Blanks around a cursor do not matter.

Main definitions:

* `Keyspace.Cursor.encode` — the cursor of a key;
* `Keyspace.Cursor.decode` — the key of a cursor.
-/

set_option autoImplicit false

namespace Keyspace.Cursor

open Keyspace.Bytes

/-- The version of every cursor that is written. -/
def version : Nat := 1

/-- The envelope of a key.  Every null in the key counts as present. -/
def envelope (key : Item) (shape : Fingerprint) : Envelope :=
  { version, key := Value.entriesToJson (Value.presentNullsOfEntries key), shape := shape.hex }

/-- **The cursor of a key.**  A key with an unknown value has none. -/
def encode (key : Item) (shape : Fingerprint) : Except Error String :=
  if key.isKnown then
    .ok (String.ofList (Base64.encode Base64.urlSafe (envelope key shape).toJson.toBytes))
  else .error (.cursor .unknownValue)

/-- The values of a key, or the first attribute that has none. -/
def readKey : Dict Json → Except CursorFault Item
  | [] => .ok []
  | (name, j) :: rest =>
    match Value.ofJson Value.anyNull j with
    | .error fault => .error (.attribute name fault)
    | .ok v => do
      let item ← readKey rest
      .ok ((name, v) :: item)

/-- The key of a cursor, or what is wrong with it. -/
def read (cursor : String) (shape : Fingerprint) : Except CursorFault Item :=
  match Base64.decode Base64.urlSafe (Text.trim cursor).toList with
  | none => .error .notBase64
  | some bytes =>
    match Envelope.ofBytes? bytes with
    | none => .error .malformed
    | some e =>
      if e.version ≠ version then .error (.version e.version version)
      else if e.shape ≠ shape.hex then .error .otherShape
      else if e.key.isEmpty then .error .emptyKey
      else readKey e.key

/-- **The key of a cursor** that belongs to a read of the given fingerprint. -/
def decode (cursor : String) (shape : Fingerprint) : Except Error Item :=
  (read cursor shape).mapError .cursor

end Keyspace.Cursor
