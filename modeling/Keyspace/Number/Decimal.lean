import Keyspace.Number.Integer
/-!
# Decimal number texts

A decimal text is an optional sign, digits with an optional point among or around them, and an
optional exponent: `-1.50`, `.5`, `5.`, `1e-3`.  At least one digit stands beside the point.
The words `inf`, `infinity` and `nan`, in any case, are numbers too.

Main definitions:

* `Keyspace.Number.Decimal` — a sign, a natural number and a power of ten;
* `Keyspace.Number.Literal` — a decimal, an infinity or no number;
* `Keyspace.Number.Literal.read` — the grammar above.
-/

set_option autoImplicit false

namespace Keyspace.Number

/-- The number `± digits · 10 ^ exponent`; the sign of zero is kept. -/
structure Decimal where
  negative : Bool
  digits : Nat
  exponent : Int
  deriving DecidableEq, Repr

/-- What a number text denotes. -/
inductive Literal where
  | finite (value : Decimal)
  | infinity (negative : Bool)
  | nan (negative : Bool)
  deriving DecidableEq, Repr

/-! ### Reading -/

/-- The sign of a text, `true` for minus, and what follows it. -/
def splitSign : List Char → Bool × List Char
  | '-' :: cs => (true, cs)
  | '+' :: cs => (false, cs)
  | cs => (false, cs)

/-- The exponent that ends a number text: nothing, or `e` with an optional sign and digits. -/
def readExponent : List Char → Option Int
  | [] => some 0
  | c :: cs =>
    if c == 'e' || c == 'E' then
      let (negative, digits) := splitSign cs
      (readDigits digits).map fun n => if negative then -(n : Int) else (n : Int)
    else none

/-- The digits before a point, the digits after it, and what follows them. -/
def splitDigits (cs : List Char) : List Char × List Char × List Char :=
  let whole := cs.takeWhile isDigit
  match cs.dropWhile isDigit with
  | '.' :: more => (whole, more.takeWhile isDigit, more.dropWhile isDigit)
  | more => (whole, [], more)

/-- An unsigned decimal text. -/
def readDecimal (negative : Bool) (cs : List Char) : Option Decimal :=
  let (whole, fraction, tail) := splitDigits cs
  if whole.isEmpty && fraction.isEmpty then none
  else
    (readExponent tail).map fun e =>
      { negative, digits := ofDigits (whole ++ fraction), exponent := e - fraction.length }

/-- **A number text**, with the words for infinities and for no number. -/
def Literal.read (s : String) : Option Literal :=
  let (negative, cs) := splitSign s.toList
  let word := String.ofList (cs.map Char.toLower)
  if word == "inf" || word == "infinity" then some (.infinity negative)
  else if word == "nan" then some (.nan negative)
  else (readDecimal negative cs).map .finite

end Keyspace.Number
