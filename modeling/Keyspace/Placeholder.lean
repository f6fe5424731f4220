/-!
# Placeholders

In an expression an attribute name is written as a placeholder `#word` and a value as `:word`,
where a word is made of ASCII letters, digits and underscores.  A sign without a word after it is
no placeholder.

Main definitions:

* `Keyspace.Placeholder.tokens` — the placeholders of a text, in the order they occur in;
* `Keyspace.Placeholder.ofName`, `Keyspace.Placeholder.ofValue` — the placeholders that are issued.
-/

set_option autoImplicit false

namespace Keyspace.Placeholder

/-- The sign of a name or of a value. -/
def isSign (c : Char) : Bool := c == '#' || c == ':'

/-- A character of a placeholder's word. -/
def isWordChar (c : Char) : Bool := c.isAlphanum || c == '_'

/-- A sign is no character of a word. -/
theorem isWordChar_of_isSign {c : Char} (h : isSign c = true) : isWordChar c = false := by
  simp only [isSign, Bool.or_eq_true, beq_iff_eq] at h
  rcases h with rfl | rfl <;> decide

/-- The placeholders of some characters.  The characters of a word hold no sign, so going on
behind the sign finds the same placeholders as going on behind the word. -/
def tokensOf : List Char → List (List Char)
  | [] => []
  | c :: cs =>
    let word := cs.takeWhile isWordChar
    if isSign c && !word.isEmpty then (c :: word) :: tokensOf cs else tokensOf cs

/-- **The placeholders of a text**, in the order they occur in. -/
def tokens (s : String) : List String := (tokensOf s.toList).map String.ofList

/-- Whether a placeholder stands for a name. -/
def isName (p : String) : Bool := p.toList.head? == some '#'

/-- Whether a placeholder stands for a value. -/
def isValue (p : String) : Bool := p.toList.head? == some ':'

/-! ### Issued placeholders -/

/-- The placeholder of the name that is issued after `n` others. -/
def ofName (n : Nat) : String := "#n" ++ toString n

/-- The placeholder of the value that is issued after `n` others. -/
def ofValue (n : Nat) : String := ":v" ++ toString n

end Keyspace.Placeholder
