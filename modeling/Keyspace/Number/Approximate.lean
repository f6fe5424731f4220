import Keyspace.Number.Binary64
/-!
# Approximate reading of doubles

The number texts of JSON are read without long arithmetic: as many leading digits as fit in 64
bits make a whole number, the place of the point and the exponent make a power of ten, and the
double of the one is multiplied by the double of the other, or divided by it.  Each step rounds,
so that the result may miss the nearest double by a few last places.  A number whose product is
too large for a double has no value.

Main definitions:

* `Keyspace.Number.Scaled` — a whole number of 64 bits and a power of ten;
* `Keyspace.Number.Scaled.ofDigits` — the digits that are kept;
* `Keyspace.Number.Binary64.approximate?` — the double of a number text.
-/

set_option autoImplicit false

namespace Keyspace.Number

/-- The number `digits · 10 ^ exponent`, whose digits fit in 64 bits. -/
structure Scaled where
  digits : Nat
  exponent : Int
  deriving DecidableEq, Repr

namespace Scaled

/-! ### Digits that are kept -/

/-- A number with one more digit, if it still fits. -/
def push? (n : Nat) (c : Char) : Option Nat :=
  let m := 10 * n + digitValue c
  if m ≤ maxUInt64 then some m else none

/-- The digits before a point: from the first one on that does not fit, each digit only says that
the number is ten times as large. -/
def whole (n : Nat) : List Char → Scaled
  | [] => ⟨n, 0⟩
  | c :: cs =>
    match push? n c with
    | some m => whole m cs
    | none => ⟨n, cs.length + 1⟩

/-- The digits after a point: from the first one on that does not fit, the digits are ignored. -/
def fraction (s : Scaled) : List Char → Scaled
  | [] => s
  | c :: cs =>
    match push? s.digits c with
    | some m => fraction ⟨m, s.exponent - 1⟩ cs
    | none => s

/-- **The digits that are kept** of those before and after a point. -/
def ofDigits (before after : List Char) : Scaled := (whole 0 before).fraction after

/-! ### Rounding -/

/-- The largest power of ten that is a double. -/
def maxPower : Nat := 308

/-- The double nearest to a power of ten. -/
def powerOfTen (k : Nat) : Binary64 := Binary64.ofDecimal ⟨false, 1, k⟩

/-- The double of a scaled number.  A power of ten that is no double is divided out in two steps;
where two do not do, they leave nothing of a number of 64 bits. -/
def toBinary64? (s : Scaled) : Option Binary64 :=
  let x := Binary64.ofDecimal ⟨false, s.digits, 0⟩
  let k := s.exponent.natAbs
  if s.digits = 0 then some x
  else if 0 ≤ s.exponent then
    if k ≤ maxPower then some (x.product (powerOfTen k)) |>.filter Binary64.isFinite else none
  else if k ≤ maxPower then some (x.quotient (powerOfTen k))
  else if k ≤ 2 * maxPower then
    some ((x.quotient (powerOfTen maxPower)).quotient (powerOfTen (k - maxPower)))
  else some (Binary64.ofMagnitude false 0)

end Scaled

/-- **The double of a number text**: digits with an optional minus sign, fraction and exponent. -/
def Binary64.approximate? (literal : String) : Option Binary64 := do
  let (negative, unsigned) := splitSign literal.toList
  let (before, after, tail) := splitDigits unsigned
  let exponent ← readExponent tail
  let s := Scaled.ofDigits before after
  let x ← Scaled.toBinary64? { s with exponent := s.exponent + exponent }
  some (Binary64.ofMagnitude negative x.magnitude)

end Keyspace.Number
