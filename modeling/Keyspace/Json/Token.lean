import Keyspace.Json.Basic
import Keyspace.Text.Utf8
/-!
# JSON tokens

The bytes of a JSON text are cut into tokens, one byte after the other: brackets, commas and
colons, the three words, numbers and strings, with blanks between them.

A string token is well formed if it is closed, holds no bare control character and every
backslash begins one of the escapes.  Whether it also spells a text is a second question: its
bytes may be no UTF-8, or an escape may name half of a surrogate pair.  Such a token has no text,
and only a reader that looks at the text has to refuse it.

Main definitions:

* `Keyspace.Json.Token` — the tokens;
* `Keyspace.Json.Token.step` — the effect of one byte;
* `Keyspace.Json.Token.ofBytes` — all tokens of some bytes.
-/

set_option autoImplicit false

namespace Keyspace.Json

/-- A token.  A string without a text has none. -/
inductive Token where
  | openArray
  | closeArray
  | openObject
  | closeObject
  | comma
  | colon
  | null
  | bool (value : Bool)
  | number (literal : String)
  | string (text : Option String)
  deriving DecidableEq, Repr

namespace Token

/-! ### Strings -/

/-- What a string is made of: bytes as they stand, and the 16-bit units that escapes give. -/
inductive Piece where
  | byte (b : UInt8)
  | unit (u : Nat)
  deriving DecidableEq, Repr

/-- The first half of a surrogate pair. -/
def isHighHalf (u : Nat) : Bool := 0xD800 ≤ u && u ≤ 0xDBFF

/-- The second half of a surrogate pair. -/
def isLowHalf (u : Nat) : Bool := 0xDC00 ≤ u && u ≤ 0xDFFF

/-- The character of two halves. -/
def ofHalves (high low : Nat) : Char :=
  Char.ofNat ((high - 0xD800) * 0x400 + (low - 0xDC00) + 0x10000)

/-- The bytes that the pieces of a string spell, unless a half stands alone. -/
def bytesOfPieces : List Piece → Option (List UInt8)
  | [] => some []
  | .byte b :: ps => (bytesOfPieces ps).map (b :: ·)
  | .unit u :: .unit v :: ps =>
    if isHighHalf u then
      if isLowHalf v then
        (bytesOfPieces ps).map (String.utf8EncodeChar (ofHalves u v) ++ ·)
      else none
    else if isLowHalf u then none
    else (bytesOfPieces (.unit v :: ps)).map (String.utf8EncodeChar (Char.ofNat u) ++ ·)
  | .unit u :: ps =>
    if isHighHalf u || isLowHalf u then none
    else (bytesOfPieces ps).map (String.utf8EncodeChar (Char.ofNat u) ++ ·)

/-- The text that the pieces of a string spell, if they spell one. -/
def textOfPieces (ps : List Piece) : Option String :=
  (bytesOfPieces ps).bind Text.ofUtf8?

/-- The piece that a letter after a backslash stands for. -/
def escaped? (b : UInt8) : Option Piece :=
  if b = '"'.toUInt8 then some (.byte b)
  else if b = '\\'.toUInt8 then some (.byte b)
  else if b = '/'.toUInt8 then some (.byte b)
  else if b = 'b'.toUInt8 then some (.byte 0x08)
  else if b = 'f'.toUInt8 then some (.byte 0x0c)
  else if b = 'n'.toUInt8 then some (.byte 0x0a)
  else if b = 'r'.toUInt8 then some (.byte 0x0d)
  else if b = 't'.toUInt8 then some (.byte 0x09)
  else none

/-- The value of a hexadecimal digit of either case. -/
def hexValue? (b : UInt8) : Option Nat :=
  if '0'.toUInt8 ≤ b && b ≤ '9'.toUInt8 then some (b.toNat - 0x30)
  else if 'a'.toUInt8 ≤ b && b ≤ 'f'.toUInt8 then some (b.toNat - 0x57)
  else if 'A'.toUInt8 ≤ b && b ≤ 'F'.toUInt8 then some (b.toNat - 0x37)
  else none

/-! ### Numbers and words -/

/-- An optional fraction and an optional exponent. -/
def isNumberTail (cs : List Char) : Bool :=
  let exponent : List Char → Bool
    | [] => true
    | c :: rest =>
      (c == 'e' || c == 'E') && (Number.readDigits (Number.splitSign rest).2).isSome
  match cs with
  | '.' :: rest =>
    !(rest.takeWhile Number.isDigit).isEmpty && exponent (rest.dropWhile Number.isDigit)
  | _ => exponent cs

/-- A number: an optional minus sign, digits without a leading zero before others, an optional
fraction and an optional exponent. -/
def isNumber (cs : List Char) : Bool :=
  let unsigned :=
    match cs with
    | '-' :: rest => rest
    | _ => cs
  match unsigned with
  | '0' :: rest => isNumberTail rest
  | _ =>
    !(unsigned.takeWhile Number.isDigit).isEmpty && isNumberTail (unsigned.dropWhile Number.isDigit)

/-- The token of a run of number characters. -/
def ofNumber? (reversed : List UInt8) : Option Token :=
  let cs := reversed.reverse.map fun b => Char.ofNat b.toNat
  if isNumber cs then some (.number (String.ofList cs)) else none

/-- The token of a run of letters. -/
def ofWord? (reversed : List UInt8) : Option Token :=
  let word := String.ofList (reversed.reverse.map fun b => Char.ofNat b.toNat)
  if word = "null" then some .null
  else if word = "true" then some (.bool true)
  else if word = "false" then some (.bool false)
  else none

/-! ### Cutting -/

/-- Where the cut stands between two bytes; what was read of a token stands latest first. -/
inductive Mode where
  | between
  | word (letters : List UInt8)
  | number (characters : List UInt8)
  | string (pieces : List Piece)
  | escape (pieces : List Piece)
  | hex (pieces : List Piece) (left value : Nat)

/-- A blank of JSON. -/
def isSpace (b : UInt8) : Bool := b == 0x20 || b == 0x09 || b == 0x0a || b == 0x0d

/-- A lower case letter. -/
def isLetter (b : UInt8) : Bool := 'a'.toUInt8 ≤ b && b ≤ 'z'.toUInt8

/-- A byte that begins a number. -/
def beginsNumber (b : UInt8) : Bool :=
  b == '-'.toUInt8 || ('0'.toUInt8 ≤ b && b ≤ '9'.toUInt8)

/-- A byte that may stand in a number. -/
def inNumber (b : UInt8) : Bool :=
  beginsNumber b || b == '+'.toUInt8 || b == '.'.toUInt8 || b == 'e'.toUInt8 || b == 'E'.toUInt8

/-- The token that is a single byte. -/
def ofPunctuation? (b : UInt8) : Option Token :=
  if b = '['.toUInt8 then some .openArray
  else if b = ']'.toUInt8 then some .closeArray
  else if b = '\x7b'.toUInt8 then some .openObject
  else if b = '\x7d'.toUInt8 then some .closeObject
  else if b = ','.toUInt8 then some .comma
  else if b = ':'.toUInt8 then some .colon
  else none

/-- A byte between two tokens: the token it is, if any, and what it begins. -/
def start (b : UInt8) : Option (List Token × Mode) :=
  if isSpace b then some ([], .between)
  else if b = '"'.toUInt8 then some ([], .string [])
  else if beginsNumber b then some ([], .number [b])
  else if isLetter b then some ([], .word [b])
  else (ofPunctuation? b).map fun t => ([t], .between)

/-- A byte that may end the token before it. -/
def after (token : Option Token) (b : UInt8) : Option (List Token × Mode) := do
  let t ← token
  let (ts, mode) ← start b
  some (t :: ts, mode)

/-- **The effect of one byte**: the tokens it completes and where the cut stands after it. -/
def step : Mode → UInt8 → Option (List Token × Mode)
  | .between, b => start b
  | .word letters, b =>
    if isLetter b then some ([], .word (b :: letters)) else after (ofWord? letters) b
  | .number characters, b =>
    if inNumber b then some ([], .number (b :: characters)) else after (ofNumber? characters) b
  | .string pieces, b =>
    if b = '"'.toUInt8 then some ([.string (textOfPieces pieces.reverse)], .between)
    else if b = '\\'.toUInt8 then some ([], .escape pieces)
    else if b < 0x20 then none
    else some ([], .string (.byte b :: pieces))
  | .escape pieces, b =>
    if b = 'u'.toUInt8 then some ([], .hex pieces 3 0)
    else (escaped? b).map fun p => ([], .string (p :: pieces))
  | .hex pieces left value, b =>
    (hexValue? b).map fun d =>
      match left with
      | 0 => ([], .string (.unit (value * 16 + d) :: pieces))
      | n + 1 => ([], .hex pieces n (value * 16 + d))

/-- The token that the end of the bytes completes; a string cannot end so. -/
def finish : Mode → Option (List Token)
  | .between => some []
  | .word letters => (ofWord? letters).map ([·])
  | .number characters => (ofNumber? characters).map ([·])
  | _ => none

/-- The tokens of some bytes after those that led to `mode`. -/
def cut : Mode → List UInt8 → Option (List Token)
  | mode, [] => finish mode
  | mode, b :: bs => do
    let (ts, mode) ← step mode b
    let more ← cut mode bs
    some (ts ++ more)

/-- **All tokens of some bytes.** -/
def ofBytes (bs : List UInt8) : Option (List Token) := cut .between bs

end Token

end Keyspace.Json
