import Keyspace.Number.Decimal
/-!
# Double precision numbers

A double precision number is kept as its 64 bits: a sign, eleven bits of exponent, 52 bits of
fraction.  Reading rounds the exact decimal value to the nearest such number, ties to the even
one.  Writing gives the fewest digits that read back as the same number, and of those the
nearest to it; no exponent is ever written, and a whole number has no point.

All arithmetic is on natural numbers.

Main definitions:

* `Keyspace.Number.Binary64` — the bits;
* `Keyspace.Number.Binary64.ofDecimal` — the nearest double precision number;
* `Keyspace.Number.Binary64.product`, `Keyspace.Number.Binary64.quotient` — products and quotients;
* `Keyspace.Number.Binary64.shortest` — the shortest digits that read back;
* `Keyspace.Number.Binary64.toText` — the positional text.
-/

set_option autoImplicit false

namespace Keyspace.Number

/-- A double precision number, as its bits. -/
structure Binary64 where
  bits : UInt64
  deriving DecidableEq, Repr

namespace Binary64

/-! ### Fields -/

/-- The least exponent of a fraction: every double is a multiple of `2 ^ (-1074)`. -/
def leastExponent : Int := -1074

/-- The bits of the smaller infinity. -/
def infinityBits : Nat := 0x7FF0000000000000

/-- The bit that marks a negative number. -/
def signBit : Nat := 0x8000000000000000

/-- The bit in front of a fraction; it is not stored. -/
def hiddenBit : Nat := 0x10000000000000

/-- A number of the given magnitude and sign. -/
def ofMagnitude (negative : Bool) (magnitude : Nat) : Binary64 :=
  ⟨UInt64.ofNat (if negative then signBit + magnitude else magnitude)⟩

/-- The infinity of a sign. -/
def infinity (negative : Bool) : Binary64 := ofMagnitude negative infinityBits

/-- The quiet value that is no number. -/
def nan (negative : Bool) : Binary64 := ofMagnitude negative 0x7FF8000000000000

/-- Whether the sign bit is set. -/
def isNegative (x : Binary64) : Bool := signBit ≤ x.bits.toNat

/-- The bits without the sign. -/
def magnitude (x : Binary64) : Nat := x.bits.toNat % signBit

/-- Neither an infinity nor a value that is no number. -/
def isFinite (x : Binary64) : Bool := x.magnitude < infinityBits

/-- A finite magnitude as `m · 2 ^ e`. -/
def parts (x : Binary64) : Nat × Int :=
  let field := x.magnitude / hiddenBit
  let fraction := x.magnitude % hiddenBit
  if field = 0 then (fraction, leastExponent)
  else (hiddenBit + fraction, leastExponent + (field - 1 : Nat))

/-! ### Rounding a quotient -/

/-- `num / den` to the nearest whole number, ties to the even one. -/
def roundHalfEven (num den : Nat) : Nat :=
  let q := num / den
  let twice := 2 * (num % den)
  if twice < den then q
  else if den < twice then q + 1
  else if q % 2 = 0 then q else q + 1

/-- `num / den · 2 ^ e` as a quotient of natural numbers. -/
def scaled (num den : Nat) (e : Int) : Nat × Nat :=
  if 0 ≤ e then (num <<< e.toNat, den) else (num, den <<< (-e).toNat)

/-- The whole number `e` with `2 ^ e ≤ num / den < 2 ^ (e + 1)`. -/
def floorLog2 (num den : Nat) : Int :=
  let e : Int := (num.log2 : Int) - (den.log2 : Int)
  let (n, d) := scaled num den (-e)
  if n < d then e - 1 else e

/-- The magnitude bits of the double nearest to the positive quotient `num / den`. -/
def nearest (num den : Nat) : Nat :=
  let e := max leastExponent (floorLog2 num den - 52)
  let (n, d) := scaled num den (-e)
  -- a fraction rounded up to `2 ^ 53` carries into the exponent field by itself
  min infinityBits (roundHalfEven n d + (e - leastExponent).toNat * hiddenBit)

/-- How many decimal digits a number has; zero has none. -/
def digitCount (n : Nat) : Nat := if n = 0 then 0 else (Nat.toDigits 10 n).length

/-- **The double nearest to a decimal**, ties to the even fraction.  A decimal whose leading
digit stands far outside the range is settled without its power of ten. -/
def ofDecimal (d : Decimal) : Binary64 :=
  let top : Int := digitCount d.digits + d.exponent
  if d.digits = 0 || top < -330 then ofMagnitude d.negative 0
  else if 310 < top then infinity d.negative
  else if 0 ≤ d.exponent then
    ofMagnitude d.negative (nearest (d.digits * Nat.pow 10 d.exponent.toNat) 1)
  else ofMagnitude d.negative (nearest d.digits (Nat.pow 10 (-d.exponent).toNat))

/-- The double that a number text denotes. -/
def ofLiteral : Literal → Binary64
  | .finite d => ofDecimal d
  | .infinity negative => infinity negative
  | .nan negative => nan negative

/-! ### Products and quotients -/

/-- The product of two finite doubles. -/
def product (x y : Binary64) : Binary64 :=
  let (m, e) := x.parts
  let (n, f) := y.parts
  let (num, den) := scaled (m * n) 1 (e + f)
  ofMagnitude (x.isNegative != y.isNegative) (if num = 0 then 0 else nearest num den)

/-- The quotient of two finite doubles, the second one not zero. -/
def quotient (x y : Binary64) : Binary64 :=
  let (m, e) := x.parts
  let (n, f) := y.parts
  let (num, den) := scaled m n (e - f)
  ofMagnitude (x.isNegative != y.isNegative) (if num = 0 then 0 else nearest num den)

/-- The whole number that a double is. -/
def whole? (x : Binary64) : Option Int :=
  let (m, e) := x.parts
  let (num, den) := scaled m 1 e
  if x.isFinite && num % den = 0 then
    some (if x.isNegative then -(num / den : Nat) else (num / den : Nat))
  else none

/-! ### Shortest digits -/

/-- Four times the ends of the interval of reals that round to the positive double `m · 2 ^ e`,
both over `2 ^ e`.  Below a power of two the neighbours lie twice as close. -/
def interval (m : Nat) (e : Int) : Nat × Nat :=
  if m = hiddenBit && leastExponent < e then (4 * m - 1, 4 * m + 2) else (4 * m - 2, 4 * m + 2)

/-- `a · 2 ^ e / 4` compared with `b · 10 ^ k`: both brought to whole numbers. -/
def onGrid (a : Nat) (e : Int) (b : Nat) (k : Int) : Nat × Nat :=
  let left := (a <<< (max e 0).toNat) * Nat.pow 10 (max (-k) 0).toNat
  let right := (4 * b * Nat.pow 10 (max k 0).toNat) <<< (max (-e) 0).toNat
  (left, right)

/-- Whether `b · 10 ^ k` rounds to `m · 2 ^ e`; the ends of the interval do when `m` is even. -/
def readsBack (m : Nat) (e : Int) (b : Nat) (k : Int) : Bool :=
  let (low, high) := interval m e
  let (l, x) := onGrid low e b k
  let (h, y) := onGrid high e b k
  if m % 2 = 0 then l ≤ x && y ≤ h else l < x && y < h

/-- The number of digits before the decimal point of `m · 2 ^ e`, at most zero for numbers
below one: `10 ^ (p - 1) ≤ m · 2 ^ e < 10 ^ p`. -/
def decimalPoint (m : Nat) (e : Int) : Int :=
  let (n, d) := scaled m 1 e
  if d ≤ n then digitCount (n / d)
  else
    -- the leading digit of `n / d` is that of the quotient after the division by a power of ten
    let lead : Int := digitCount n - digitCount d
    let shifted := n * Nat.pow 10 (-lead).toNat
    if shifted < d then lead else lead + 1

/-- The digits, as one number, and the power of ten of the shortest decimal with at most `n`
digits from the grid `10 ^ (p - n)` on that reads back; of the two neighbours on a grid the
nearer, and of two equally near ones the larger. -/
def shortestOn (m : Nat) (e p : Int) (digits : List Nat) : Nat × Int :=
  match digits with
  | [] => (m, e)
  | n :: more =>
    let k : Int := p - n
    let (v, unit) := onGrid (4 * m) e 1 k
    let below := v / unit
    let down := readsBack m e below k
    let up := readsBack m e (below + 1) k
    if down && up then
      if 2 * (v % unit) < unit then (below, k) else (below + 1, k)
    else if down then (below, k)
    else if up then (below + 1, k)
    else shortestOn m e p more

/-- **The shortest digits of a positive finite double**, as a whole number and a power of ten. -/
def shortest (x : Binary64) : Nat × Int :=
  let (m, e) := x.parts
  shortestOn m e (decimalPoint m e) (List.range' 1 17)

/-! ### Positional text -/

/-- `digits · 10 ^ k` without an exponent. -/
def positional (digits : Nat) (k : Int) : List Char :=
  let ds := Nat.toDigits 10 digits
  if 0 ≤ k then ds ++ List.replicate k.toNat '0'
  else
    let places := (-k).toNat
    let padded := List.replicate (places + 1 - ds.length) '0' ++ ds
    let fraction := padded.drop (padded.length - places)
    -- zeros that end the fraction say nothing
    let fraction := (fraction.reverse.dropWhile (· == '0')).reverse
    let whole := padded.take (padded.length - places)
    if fraction.isEmpty then whole else whole ++ '.' :: fraction

/-- **The text of a double**: its shortest digits in positional form. -/
def toText (x : Binary64) : String :=
  if infinityBits < x.magnitude then "NaN"
  else
    let unsigned :=
      if x.magnitude = infinityBits then "inf".toList
      else if x.magnitude = 0 then ['0']
      else
        let (digits, k) := x.shortest
        positional digits k
    String.ofList (if x.isNegative then '-' :: unsigned else unsigned)

end Binary64

end Keyspace.Number
