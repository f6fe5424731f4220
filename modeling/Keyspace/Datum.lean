import Keyspace.Error
import Keyspace.Number.Binary64
/-!
# Data of programs

Operands and models hold plain data, which is turned into attribute values to be stored and read
back from them.  Numbers become texts; a number text is read as an integer of 64 bits if it is
one, and as a double precision number otherwise.  The keys of a map become texts too, and of two
keys with one text the later counts.

Operands may be of any type whose values can be written as attribute values: plain data are, and so
are attribute values themselves, the sets among them, which no plain data become.

Main definitions:

* `Keyspace.Datum` — plain data;
* `Keyspace.Datum.toValue`, `Keyspace.Datum.toItem` — as an attribute value, as an item;
* `Keyspace.Datum.ofValue`, `Keyspace.Datum.ofItem` — from an attribute value, from an item;
* `Keyspace.AsOperand` — the types of operands.
-/

set_option autoImplicit false

namespace Keyspace

open Number (Binary64)

/-- Plain data.  The keys of a map may be texts, integers and truth values. -/
inductive Datum where
  | null
  | bool (value : Bool)
  | int (value : Int)
  | float (value : Binary64)
  | text (value : String)
  | bytes (value : List UInt8)
  | list (elements : List Datum)
  | map (entries : List (Datum × Datum))
  deriving Repr, Inhabited

namespace Datum

/-! ### Writing -/

/-- The text of a key. -/
def keyText? : Datum → Option String
  | .text s => some s
  | .int n => some (toString n)
  | .bool true => some "true"
  | .bool false => some "false"
  | _ => none

mutual

/-- **A datum as an attribute value.** -/
def toValue : Datum → Except Error Value
  | .null => .ok (.null true)
  | .bool b => .ok (.bool b)
  | .int n => .ok (.number (toString n))
  | .float x => .ok (.number x.toText)
  | .text s => .ok (.text s)
  | .bytes b => .ok (.binary b)
  | .list xs => (valuesOfList xs).map .list
  | .map es => (entriesOfMap es).map fun es => .map (Dict.ofList es)

/-- The elements of a list as attribute values. -/
def valuesOfList : List Datum → Except Error (List Value)
  | [] => .ok []
  | x :: xs => do
    let v ← toValue x
    let vs ← valuesOfList xs
    .ok (v :: vs)

/-- The entries of a map with texts as keys and attribute values. -/
def entriesOfMap : List (Datum × Datum) → Except Error (List (String × Value))
  | [] => .ok []
  | (key, x) :: es =>
    match keyText? key with
    | none => .error .marshal
    | some name => do
      let v ← toValue x
      let vs ← entriesOfMap es
      .ok ((name, v) :: vs)

end

/-- A map as an item; nothing else is one. -/
def toItem (d : Datum) : Except Error Item := do
  match ← d.toValue with
  | .map entries => .ok entries
  | _ => .error .marshal

/-! ### Reading -/

/-- The number that a text denotes: a signed integer, an unsigned one, or a double. -/
def ofNumber (digits : String) : Except Error Datum :=
  match Number.readSigned Number.minInt64 Number.maxInt64 digits with
  | some n => .ok (.int n)
  | none =>
    match Number.readUnsigned Number.maxUInt64 digits with
    | some n => .ok (.int n)
    | none =>
      match Number.Literal.read digits with
      | some x => .ok (.float (Binary64.ofLiteral x))
      | none => .error .marshal

mutual

/-- **The datum of an attribute value.**  A null has to be present; an unknown value has none. -/
def ofValue : Value → Except Error Datum
  | .text s => .ok (.text s)
  | .number n => ofNumber n
  | .binary b => .ok (.bytes b)
  | .bool b => .ok (.bool b)
  | .null true => .ok .null
  | .null false => .error .marshal
  | .texts ss => .ok (.list (ss.map .text))
  | .numbers ns => (ns.mapM ofNumber).map .list
  | .binaries bs => .ok (.list (bs.map .bytes))
  | .list vs => (ofValues vs).map .list
  | .map es => (ofEntries es).map .map
  | .unknown => .error .marshal

/-- The data of some attribute values. -/
def ofValues : List Value → Except Error (List Datum)
  | [] => .ok []
  | v :: vs => do
    let x ← ofValue v
    let xs ← ofValues vs
    .ok (x :: xs)

/-- The data of the entries of a map. -/
def ofEntries : List (String × Value) → Except Error (List (Datum × Datum))
  | [] => .ok []
  | (name, v) :: es => do
    let x ← ofValue v
    let xs ← ofEntries es
    .ok ((.text name, x) :: xs)

end

/-- The map of an item. -/
def ofItem (item : Item) : Except Error Datum := (ofEntries item).map .map

end Datum

/-! ### Operands -/

/-- **A type of operands**: how its values are written, or why one cannot be. -/
class AsOperand (ν : Type) where
  encode : ν → Except Error Value

/-- The attribute values of several operands, or the first error. -/
def AsOperand.encodeAll {ν : Type} [AsOperand ν] (values : List ν) : Except Error (List Value) :=
  values.mapM encode

instance : AsOperand Datum := ⟨Datum.toValue⟩

instance : AsOperand Value := ⟨.ok⟩

end Keyspace
