/-!
# Characters as bytes

A text is sent as the UTF-8 bytes of its characters, and bytes are a text if they are the UTF-8
form of some characters.

Main definitions:

* `Keyspace.Text.utf8`, `Keyspace.Text.bytes` — the bytes of characters, of a text;
* `Keyspace.Text.ofUtf8?` — the text that some bytes spell.
-/

set_option autoImplicit false

namespace Keyspace.Text

/-- The bytes of some characters. -/
def utf8 (cs : List Char) : List UInt8 := cs.flatMap String.utf8EncodeChar

/-- The bytes of a text. -/
def bytes (s : String) : List UInt8 := utf8 s.toList

/-- The text that some bytes spell, if they spell one. -/
def ofUtf8? (bs : List UInt8) : Option String := String.fromUTF8? ⟨bs.toArray⟩

/-- The bytes of two parts are the bytes of each. -/
theorem utf8_append (as bs : List Char) : utf8 (as ++ bs) = utf8 as ++ utf8 bs := by
  simp [utf8]

end Keyspace.Text
