import Keyspace.Json.Basic
import Keyspace.Text.Utf8
import Keyspace.Bytes.Sha256
/-!
# Writing JSON

JSON is written without any blanks.  In a string the quote, the backslash and the control
characters below the space are escaped, five of them by a letter and the others by four lower
case hexadecimal digits; every other character stands for itself.

Main definitions:

* `Keyspace.Json.escape` — a character inside a string;
* `Keyspace.Json.chars`, `Keyspace.Json.toText`, `Keyspace.Json.toBytes` — a value.
-/

set_option autoImplicit false

namespace Keyspace.Json

/-- A character as it stands inside a string. -/
def escape (c : Char) : List Char :=
  if c = '"' then ['\\', '"']
  else if c = '\\' then ['\\', '\\']
  else if c = '\x08' then ['\\', 'b']
  else if c = '\x0c' then ['\\', 'f']
  else if c = '\n' then ['\\', 'n']
  else if c = '\r' then ['\\', 'r']
  else if c = '\t' then ['\\', 't']
  else if c.toNat < 0x20 then
    ['\\', 'u', '0', '0', Bytes.hexDigit (c.toNat / 16), Bytes.hexDigit (c.toNat % 16)]
  else [c]

/-- A string with its quotes. -/
def quoted (s : String) : List Char := '"' :: s.toList.flatMap escape ++ ['"']

/-- Pieces with a comma between each two. -/
def joinComma : List (List Char) → List Char
  | [] => []
  | [p] => p
  | p :: ps => p ++ ',' :: joinComma ps

mutual

/-- **The characters of a value.** -/
def chars : Json → List Char
  | .null => "null".toList
  | .bool true => "true".toList
  | .bool false => "false".toList
  | .int n => (toString n).toList
  | .real literal => literal.toList
  | .string s => quoted s
  | .array xs => '[' :: joinComma (charsOfElements xs) ++ [']']
  | .object ms => '\x7b' :: joinComma (charsOfMembers ms) ++ ['\x7d']

/-- The characters of each element. -/
def charsOfElements : List Json → List (List Char)
  | [] => []
  | x :: xs => chars x :: charsOfElements xs

/-- The characters of each member: its name, a colon and its value. -/
def charsOfMembers : List (String × Json) → List (List Char)
  | [] => []
  | (name, x) :: ms => (quoted name ++ ':' :: chars x) :: charsOfMembers ms

end

/-- A value as a text. -/
def toText (j : Json) : String := String.ofList j.chars

/-- A value as bytes. -/
def toBytes (j : Json) : List UInt8 := Text.utf8 j.chars

end Keyspace.Json
