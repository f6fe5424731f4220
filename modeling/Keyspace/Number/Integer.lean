/-!
# Integers as text

Settings and number attributes hold integers as text: ASCII digits, leading zeros allowed, with
an optional sign.  A type without negative numbers takes a plus sign only, so that `-0` is no
text for it.

Main definitions:

* `Keyspace.Number.readDigits` — the number that a run of digits denotes;
* `Keyspace.Number.readUnsigned`, `Keyspace.Number.readSigned` — an integer of a given range.
-/

set_option autoImplicit false

namespace Keyspace.Number

/-- An ASCII decimal digit. -/
def isDigit (c : Char) : Bool := '0' ≤ c && c ≤ '9'

/-- The value of an ASCII decimal digit. -/
def digitValue (c : Char) : Nat := c.toNat - '0'.toNat

/-- The number that digits denote, most significant first. -/
def ofDigits (cs : List Char) : Nat :=
  cs.foldl (fun n c => 10 * n + digitValue c) 0

/-- The number that a non-empty run of digits denotes. -/
def readDigits (cs : List Char) : Option Nat :=
  if !cs.isEmpty && cs.all isDigit then some (ofDigits cs) else none

/-- **An integer from zero to `most`**, an optional plus sign before its digits. -/
def readUnsigned (most : Nat) (s : String) : Option Nat :=
  let digits :=
    match s.toList with
    | '+' :: cs => cs
    | cs => cs
  (readDigits digits).filter (· ≤ most)

/-- **An integer from `least` to `most`**, an optional sign before its digits. -/
def readSigned (least most : Int) (s : String) : Option Int :=
  let value : Option Int :=
    match s.toList with
    | '-' :: cs => (readDigits cs).map fun n => -(n : Int)
    | '+' :: cs => (readDigits cs).map Int.ofNat
    | cs => (readDigits cs).map Int.ofNat
  value.filter fun n => least ≤ n && n ≤ most

/-! ### Ranges of machine words -/

/-- The largest number of 32 bits. -/
def maxUInt32 : Nat := UInt32.size - 1

/-- The largest number of 64 bits. -/
def maxUInt64 : Nat := UInt64.size - 1

/-- The least signed number of 32 bits. -/
def minInt32 : Int := -0x80000000

/-- The largest signed number of 32 bits. -/
def maxInt32 : Nat := 0x7FFFFFFF

/-- The least signed number of 64 bits. -/
def minInt64 : Int := -0x8000000000000000

/-- The largest signed number of 64 bits. -/
def maxInt64 : Int := 0x7FFFFFFFFFFFFFFF

end Keyspace.Number
