/-!
# Base64

Three bytes are four symbols of six bits.  One or two bytes at the end are two or three symbols,
whose spare bits are zero, with or without padding up to four.

Reading is strict: only symbols of the alphabet, padding exactly where the alphabet asks for it
and nowhere else, and spare bits that are zero.  So each text that is read is the text that
writing gives.

Main definitions:

* `Keyspace.Bytes.Base64.Alphabet` — the two last symbols and the padding;
* `Keyspace.Bytes.Base64.standard`, `Keyspace.Bytes.Base64.urlSafe` — the two alphabets in use;
* `Keyspace.Bytes.Base64.encode`, `Keyspace.Bytes.Base64.decode`.
-/

set_option autoImplicit false

namespace Keyspace.Bytes.Base64

/-- The symbols for 62 and 63, and whether the end is padded with `=`. -/
structure Alphabet where
  symbol62 : Char
  symbol63 : Char
  padded : Bool

/-- The standard alphabet, padded; binary attribute values are written in it. -/
def standard : Alphabet := ⟨'+', '/', true⟩

/-- The alphabet that may stand in addresses, without padding; cursors are written in it. -/
def urlSafe : Alphabet := ⟨'-', '_', false⟩

/-! ### Symbols -/

/-- The symbol of a number below 64. -/
def Alphabet.symbol (a : Alphabet) (n : Nat) : Char :=
  if n < 26 then Char.ofNat ('A'.toNat + n)
  else if n < 52 then Char.ofNat ('a'.toNat + (n - 26))
  else if n < 62 then Char.ofNat ('0'.toNat + (n - 52))
  else if n = 62 then a.symbol62
  else a.symbol63

/-- The number of a symbol. -/
def Alphabet.value? (a : Alphabet) (c : Char) : Option Nat :=
  if 'A' ≤ c && c ≤ 'Z' then some (c.toNat - 'A'.toNat)
  else if 'a' ≤ c && c ≤ 'z' then some (c.toNat - 'a'.toNat + 26)
  else if '0' ≤ c && c ≤ '9' then some (c.toNat - '0'.toNat + 52)
  else if c == a.symbol62 then some 62
  else if c == a.symbol63 then some 63
  else none

/-! ### Writing -/

/-- The end of a text: nothing, or `n` padding signs. -/
def Alphabet.padding (a : Alphabet) (n : Nat) : List Char :=
  if a.padded then List.replicate n '=' else []

/-- **The symbols of some bytes.** -/
def encode (a : Alphabet) : List UInt8 → List Char
  | [] => []
  | [x] =>
    let n := x.toNat * 16
    a.symbol (n / 64) :: a.symbol (n % 64) :: a.padding 2
  | [x, y] =>
    let n := (x.toNat * 256 + y.toNat) * 4
    a.symbol (n / 4096) :: a.symbol (n / 64 % 64) :: a.symbol (n % 64) :: a.padding 1
  | x :: y :: z :: rest =>
    let n := (x.toNat * 256 + y.toNat) * 256 + z.toNat
    a.symbol (n / 262144) :: a.symbol (n / 4096 % 64) :: a.symbol (n / 64 % 64) ::
      a.symbol (n % 64) :: encode a rest

/-! ### Reading -/

/-- Two symbols that end a text: one byte, if the four spare bits are zero. -/
def decodeTwo (a : Alphabet) (p q : Char) : Option (List UInt8) := do
  let s ← a.value? p
  let t ← a.value? q
  let n := s * 64 + t
  if n % 16 = 0 then some [UInt8.ofNat (n / 16)] else none

/-- Three symbols that end a text: two bytes, if the two spare bits are zero. -/
def decodeThree (a : Alphabet) (p q r : Char) : Option (List UInt8) := do
  let s ← a.value? p
  let t ← a.value? q
  let u ← a.value? r
  let n := (s * 64 + t) * 64 + u
  if n % 4 = 0 then some [UInt8.ofNat (n / 1024), UInt8.ofNat (n / 4 % 256)] else none

/-- Four symbols: three bytes. -/
def decodeFour (a : Alphabet) (p q r w : Char) : Option (List UInt8) := do
  let s ← a.value? p
  let t ← a.value? q
  let u ← a.value? r
  let v ← a.value? w
  let n := ((s * 64 + t) * 64 + u) * 64 + v
  some [UInt8.ofNat (n / 65536), UInt8.ofNat (n / 256 % 256), UInt8.ofNat (n % 256)]

/-- **The bytes of a text**, unless it breaks a rule above. -/
def decode (a : Alphabet) : List Char → Option (List UInt8)
  | [] => some []
  | [p, q] => if a.padded then none else decodeTwo a p q
  | [p, q, r] => if a.padded then none else decodeThree a p q r
  | p :: q :: r :: w :: rest =>
    if a.padded && rest.isEmpty && w == '=' then
      if r == '=' then decodeTwo a p q else decodeThree a p q r
    else do
      let front ← decodeFour a p q r w
      let back ← decode a rest
      some (front ++ back)
  | [_] => none

end Keyspace.Bytes.Base64
