import Keyspace.Placeholder
/-!
# Document paths in expressions

A document path names an attribute and goes on into maps and lists: `address.city`, `tags[0].id`.
Its steps are separated by points.  In an expression the name of each step is replaced by a
placeholder, and what follows the name from the first `[` on stays as it is.

Main definitions:

* `Keyspace.PathStep`, `Keyspace.pathSteps` — the steps of a path;
* `Keyspace.PlacedStep`, `Keyspace.PlacedPath.text` — steps with placeholders, and their text.
-/

set_option autoImplicit false

namespace Keyspace

/-- A step of a path: a name and the list indexes after it. -/
structure PathStep where
  name : String
  indexes : String
  deriving DecidableEq, Repr

/-- The parts of some characters between the points. -/
def splitPoints : List Char → List (List Char)
  | [] => [[]]
  | c :: cs =>
    if c = '.' then [] :: splitPoints cs
    else
      match splitPoints cs with
      | part :: parts => (c :: part) :: parts
      | [] => [[c]]

/-- The step that some characters without a point spell: the name ends before the first `[`. -/
def PathStep.ofChars (cs : List Char) : PathStep :=
  { name := String.ofList (cs.takeWhile (· != '['))
    indexes := String.ofList (cs.dropWhile (· != '[')) }

/-- **The steps of a path.** -/
def pathSteps (path : String) : List PathStep := (splitPoints path.toList).map PathStep.ofChars

/-! ### Placeholders for names -/

/-- A step whose name has a placeholder. -/
structure PlacedStep where
  placeholder : String
  name : String
  indexes : String
  deriving DecidableEq, Repr

/-- The path whose names have placeholders. -/
abbrev PlacedPath := List PlacedStep

namespace PlacedPath

/-- The text of a path in an expression. -/
def text (p : PlacedPath) : String :=
  ".".intercalate (p.map fun s => s.placeholder ++ s.indexes)

/-- The placeholders of a path with the names they stand for. -/
def names (p : PlacedPath) : List (String × String) := p.map fun s => (s.placeholder, s.name)

end PlacedPath

/-- There is always a first step. -/
theorem splitPoints_ne_nil (cs : List Char) : splitPoints cs ≠ [] := by
  cases cs with
  | nil => simp [splitPoints]
  | cons c cs =>
    unfold splitPoints
    split
    · simp
    · split <;> simp

/-- Points between the parts give the characters back. -/
theorem intercalate_splitPoints (cs : List Char) :
    List.intercalate ['.'] (splitPoints cs) = cs := by
  induction cs with
  | nil => simp [splitPoints, List.intercalate]
  | cons c cs ih =>
    unfold splitPoints
    split
    · next h =>
      subst h
      cases hs : splitPoints cs with
      | nil => exact absurd hs (splitPoints_ne_nil cs)
      | cons part parts =>
        rw [hs] at ih
        simpa [List.intercalate] using ih
    · cases hs : splitPoints cs with
      | nil => exact absurd hs (splitPoints_ne_nil cs)
      | cons part parts =>
        rw [hs] at ih
        cases parts <;> simpa [List.intercalate] using ih

end Keyspace
