import Keyspace.Datum
import Keyspace.Schema
import Keyspace.Text.Utf8
/-!
# Models

A model ties a type of values to a table: it describes the table, and it turns values into items
and items into values.  The general model takes any data; a record model has named fields of fixed
kinds.

Main definitions:

* `Keyspace.Model` — the models;
* `Keyspace.Model.decodeAll` — the values of several items;
* `Keyspace.Model.dynamic` — any data;
* `Keyspace.Field`, `Keyspace.Model.record` — named fields.
-/

set_option autoImplicit false

namespace Keyspace

/-- A type of values that are stored in a table. -/
structure Model (α : Type) where
  /-- The name that tells models apart. -/
  name : String
  schema : TableSchema
  encode : α → Except Error Item
  decode : Item → Except Error α

namespace Model

/-- The values of several items, or the first error. -/
def decodeAll {α : Type} (m : Model α) (items : List Item) : Except Error (List α) :=
  items.mapM m.decode

/-- The model of any data. -/
def dynamic (name : String) (schema : TableSchema) : Model Datum :=
  { name, schema, encode := Datum.toItem, decode := Datum.ofItem }

end Model

/-! ### Fields -/

/-- What a field of a record holds. -/
inductive FieldKind where
  | text
  /-- A text, or null. -/
  | optionalText
  /-- A whole number from zero to `most`. -/
  | number (most : Nat)
  | texts
  deriving DecidableEq, Repr

/-- A field of a record.  A field that is not required has an empty value when it is missing. -/
structure Field where
  name : String
  kind : FieldKind
  required : Bool := false
  deriving DecidableEq, Repr

namespace FieldKind

/-- The empty value of a kind. -/
def default : FieldKind → Datum
  | .text => .text ""
  | .optionalText => .null
  | .number _ => .int 0
  | .texts => .list []

/-- The text that an attribute value holds. -/
def textOf : Value → Except Error Datum
  | .text s => .ok (.text s)
  | _ => .error .marshal

/-- The text that some bytes spell. -/
def textOfBytes (bytes : List UInt8) : Except Error Datum :=
  match Text.ofUtf8? bytes with
  | some s => .ok (.text s)
  | none => .error .marshal

/-- The datum of an attribute value for a field of a kind.  Texts may come as a list, as a set or
as a set of byte strings that spell them; a set without elements is one of texts, whatever its
kind. -/
def read : FieldKind → Value → Except Error Datum
  | .text, v => textOf v
  | .optionalText, .null true => .ok .null
  | .optionalText, v => textOf v
  | .number most, .number digits =>
    match Number.readUnsigned most digits with
    | some n => .ok (.int n)
    | none => .error .marshal
  | .texts, .list vs => (vs.mapM textOf).map .list
  | .texts, .texts ss => .ok (.list (ss.map .text))
  | .texts, .binaries bs => (bs.mapM textOfBytes).map .list
  | .texts, .numbers [] => .ok (.list [])
  | _, _ => .error .marshal

/-- Whether a datum is a text. -/
def isText : Datum → Bool
  | .text _ => true
  | _ => false

/-- Whether a datum fits a kind. -/
def fits : FieldKind → Datum → Bool
  | .text, .text _ => true
  | .optionalText, .text _ => true
  | .optionalText, .null => true
  | .number most, .int n => 0 ≤ n && n ≤ most
  | .texts, .list xs => xs.all isText
  | _, _ => false

end FieldKind

namespace Field

/-- The value of a field in an item. -/
def read (f : Field) (item : Item) : Except Error Datum :=
  match item.get? f.name with
  | some v => f.kind.read v
  | none => if f.required then .error .marshal else .ok f.kind.default

/-- The value of a field in a record. -/
def pick (f : Field) (entries : List (Datum × Datum)) : Except Error Datum :=
  match entries.find? fun e => e.1.keyText? == some f.name with
  | some e => if f.kind.fits e.2 then .ok e.2 else .error .marshal
  | none => if f.required then .error .marshal else .ok f.kind.default

end Field

namespace Model

/-- The fields of an item as a map.  Attributes that are no fields are left out, but they have to
be data. -/
def readRecord (fields : List Field) (item : Item) : Except Error Datum := do
  let others := item.filter fun e => !fields.any fun f => f.name == e.1
  let _ ← Datum.ofEntries others
  let entries ← fields.mapM fun f => do
    let d ← f.read item
    .ok (Datum.text f.name, d)
  .ok (.map entries)

/-- The item of a map with the fields of a record. -/
def writeRecord (fields : List Field) : Datum → Except Error Item
  | .map entries => do
    let entries ← fields.mapM fun f => do
      let d ← f.pick entries
      .ok (Datum.text f.name, d)
    Datum.toItem (.map entries)
  | _ => .error .marshal

/-- **The model of records with some fields.** -/
def record (name : String) (schema : TableSchema) (fields : List Field) : Model Datum :=
  { name, schema, encode := writeRecord fields, decode := readRecord fields }

end Model

end Keyspace
