import Keyspace.Error
import Keyspace.Placeholder
/-!
# Fragments

A fragment is a part of an expression in its caller's own words, with the meaning of each
placeholder in it.  The text and its two dictionaries have to agree: every placeholder of the text
is declared, and every declared one occurs in the text.

Main definitions:

* `Keyspace.Fragment` — text and dictionaries;
* `Keyspace.Fragment.validate` — the text is not blank and declares what it uses;
* `Keyspace.Fragment.unused?` — a placeholder that is declared and never used.
-/

set_option autoImplicit false

namespace Keyspace

/-- A part of an expression with the names and values its placeholders stand for. -/
structure Fragment where
  expression : String
  names : Dict String := []
  values : Dict Value := []
  deriving Repr, BEq

namespace Fragment

/-- The placeholders that a fragment declares. -/
def declared (f : Fragment) : List String := f.names.names ++ f.values.names

/-- Whether a placeholder of the text is declared, a name among the names and a value among the
values. -/
def declares (f : Fragment) (token : String) : Bool :=
  if Placeholder.isName token then f.names.contains token else f.values.contains token

/-- **What is wrong with a fragment by itself**: a blank text, a placeholder without a meaning, or
one that is declared without its sign. -/
def invalid? (f : Fragment) : Option Invalid :=
  if Text.isBlankText f.expression then some .emptyFragment
  else
    match (Placeholder.tokens f.expression).find? (fun t => !f.declares t) with
    | some t => some (.undeclaredPlaceholder t)
    | none =>
      match f.names.names.find? (fun n => !Placeholder.isName n) with
      | some n => some (.nameWithoutSign n)
      | none => (f.values.names.find? fun v => !Placeholder.isValue v).map .valueWithoutSign

/-- A fragment that is right by itself. -/
def validate (f : Fragment) : Except Error Unit :=
  match f.invalid? with
  | some cause => .error (.invalid cause)
  | none => .ok ()

/-- A placeholder that is declared and does not occur in the text. -/
def unused? (f : Fragment) : Option String :=
  f.declared.find? fun p => !(Placeholder.tokens f.expression).contains p

end Fragment

end Keyspace
