/-!
# Blank characters

Operator names, field names, settings and cursors are read with the blank characters around
them left out.  Blank are the 25 characters with the Unicode property `White_Space`.

Main definitions:

* `Keyspace.Text.isBlank` — the property;
* `Keyspace.Text.trim` — a text without the blanks at its ends;
* `Keyspace.Text.isBlankText` — a text of blanks only, the empty text included.
-/

set_option autoImplicit false

namespace Keyspace.Text

/-- A character with the Unicode property `White_Space`. -/
def isBlank (c : Char) : Bool :=
  let v := c.toNat
  (0x09 ≤ v && v ≤ 0x0D) || v == 0x20 || v == 0x85 || v == 0xA0 || v == 0x1680 ||
    (0x2000 ≤ v && v ≤ 0x200A) || v == 0x2028 || v == 0x2029 || v == 0x202F || v == 0x205F ||
    v == 0x3000

/-! ### Trimming -/

/-- The characters without the blanks before the first other one. -/
def trimStart (cs : List Char) : List Char := cs.dropWhile isBlank

/-- The characters without the blanks after the last other one. -/
def trimEnd (cs : List Char) : List Char := (trimStart cs.reverse).reverse

/-- A text without the blanks at its two ends. -/
def trim (s : String) : String := String.ofList (trimEnd (trimStart s.toList))

/-- A text that holds nothing but blanks. -/
def isBlankText (s : String) : Bool := s.toList.all isBlank

end Keyspace.Text
