import Keyspace.Expression.Path
import Keyspace.Proofs.Placeholder.Tokens
/-!
# Document paths

A document path is made of names with a point between them, and after each name there may be list
indexes, such as `[2]`, and nothing else.  The text of such a path with placeholders for its names
has these placeholders in it and no others.

Main definitions:

* `Keyspace.IndexPlace`, `Keyspace.spellsIndexes` — characters that spell list indexes;
* `Keyspace.isDocumentPath` — the document paths.

Main results:

* `Keyspace.PlacedPath.tokens_text` — **the placeholders of a path**;
* `Keyspace.PlacedPath.isApart_text` — a path prolongs no word before it.
-/

set_option autoImplicit false

namespace Keyspace

/-! ### List indexes -/

/-- Where a reader of list indexes stands. -/
inductive IndexPlace where
  /-- Not in brackets. -/
  | outside
  /-- Behind a `[`. -/
  | opened
  /-- Behind a digit. -/
  | inside
  deriving DecidableEq, Repr

/-- Whether characters spell list indexes: digits in brackets, as often as one likes. -/
def spellsIndexes : IndexPlace → List Char → Bool
  | .outside, [] => true
  | .outside, c :: cs => c == '[' && spellsIndexes .opened cs
  | .opened, c :: cs => c.isDigit && spellsIndexes .inside cs
  | .inside, c :: cs =>
    if c = ']' then spellsIndexes .outside cs else c.isDigit && spellsIndexes .inside cs
  | _, [] => false

/-- **The document paths.** -/
def isDocumentPath (path : String) : Bool :=
  (pathSteps path).all fun s => spellsIndexes .outside s.indexes.toList

example : isDocumentPath "tags[0][12].address.city" = true := by decide

theorem isSign_of_isDigit {c : Char} (h : c.isDigit = true) :
    Placeholder.isSign c = false := by
  cases hc : Placeholder.isSign c with
  | false => rfl
  | true =>
      have hw : Placeholder.isWordChar c = false := Placeholder.isWordChar_of_isSign hc
      simp [Placeholder.isWordChar, Char.isAlphanum, h] at hw

/-- List indexes hold no sign. -/
theorem isSign_of_spellsIndexes {cs : List Char} {place : IndexPlace}
    (h : spellsIndexes place cs = true) : ∀ c ∈ cs, Placeholder.isSign c = false := by
  induction cs generalizing place with
  | nil => intro c hc; cases hc
  | cons d ds ih =>
      intro c hc
      cases place with
      | outside =>
          obtain ⟨hd, hds⟩ : d = '[' ∧ spellsIndexes .opened ds = true := by
            simpa [spellsIndexes] using h
          rcases List.mem_cons.1 hc with rfl | hc
          · rw [hd]; decide
          · exact ih hds c hc
      | opened =>
          obtain ⟨hd, hds⟩ : d.isDigit = true ∧ spellsIndexes .inside ds = true := by
            simpa [spellsIndexes] using h
          rcases List.mem_cons.1 hc with rfl | hc
          · exact isSign_of_isDigit hd
          · exact ih hds c hc
      | inside =>
          simp only [spellsIndexes] at h
          split at h
          · next hd =>
              rcases List.mem_cons.1 hc with rfl | hc
              · rw [hd]; decide
              · exact ih h c hc
          · obtain ⟨hd, hds⟩ := Bool.and_eq_true_iff.1 h
            rcases List.mem_cons.1 hc with rfl | hc
            · exact isSign_of_isDigit hd
            · exact ih hds c hc

/-- List indexes prolong no word before them. -/
theorem isApartChars_of_spellsIndexes {cs : List Char}
    (h : spellsIndexes .outside cs = true) : Placeholder.isApartChars cs = true := by
  cases cs with
  | nil => rfl
  | cons c cs =>
      have hc : c = '[' := (by simpa [spellsIndexes] using h : c = '[' ∧ _).1
      rw [hc]
      rfl

/-! ### The text of a path -/

/-- A step whose name has an issued placeholder and is followed by list indexes. -/
structure PlacedStep.Regular (s : PlacedStep) : Prop where
  placeholder : ∃ n, s.placeholder = Placeholder.ofName n
  indexes : spellsIndexes .outside s.indexes.toList = true

/-- A regular step has one placeholder. -/
theorem PlacedStep.Regular.tokens {s : PlacedStep} (h : s.Regular) :
    Placeholder.tokens (s.placeholder ++ s.indexes) = [s.placeholder] := by
  obtain ⟨n, hn⟩ := h.placeholder
  have hapart : Placeholder.isApart s.indexes = true := isApartChars_of_spellsIndexes h.indexes
  have hplain : Placeholder.isPlain s.indexes = true := by
    refine List.all_eq_true.2 fun c hc => ?_
    rw [isSign_of_spellsIndexes h.indexes c hc]
    rfl
  rw [Placeholder.tokens_append _ hapart, Placeholder.tokens_of_isPlain hplain, hn,
    Placeholder.tokens_ofName, List.append_nil]

namespace PlacedPath

/-- **The placeholders of a path** are those of its names. -/
theorem tokens_text {p : PlacedPath} (h : ∀ s ∈ p, s.Regular) :
    Placeholder.tokens (text p) = p.map PlacedStep.placeholder := by
  rw [text, Placeholder.tokens_intercalate (by decide) (by decide) (by decide)]
  induction p with
  | nil => rfl
  | cons s rest ih =>
      have hs : s.Regular := h s List.mem_cons_self
      have hrest : ∀ t ∈ rest, t.Regular := fun t ht => h t (List.mem_cons_of_mem s ht)
      rw [List.map_cons, List.flatMap_cons, hs.tokens, ih hrest]
      rfl

/-- **A path prolongs no word before it.** -/
theorem isApart_text {p : PlacedPath} (h : ∀ s ∈ p, s.Regular) :
    Placeholder.isApart (text p) = true := by
  cases p with
  | nil => decide
  | cons s rest =>
      obtain ⟨n, hn⟩ := (h s List.mem_cons_self).placeholder
      have hne : s.placeholder ≠ "" := by
        intro hempty
        have htokens := Placeholder.tokens_ofName n
        rw [← hn, hempty] at htokens
        simp at htokens
      have happ : Placeholder.isApart s.placeholder = true := by
        rw [hn]; exact Placeholder.isApart_ofName n
      cases rest with
      | nil =>
          simpa [text] using Placeholder.isApart_append s.indexes hne happ
      | cons t more =>
          rw [text, List.map_cons, List.map_cons, String.intercalate_cons_cons,
            String.append_assoc, String.append_assoc]
          exact Placeholder.isApart_append _ hne happ

end PlacedPath

end Keyspace
