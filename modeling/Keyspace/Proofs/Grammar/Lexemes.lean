import Keyspace.Text.Blank
import Mathlib.Data.List.Forall2
/-!
# Lexemes

A reader of expressions first cuts their text into words, signs of comparison and marks.  A word
is as long as its characters go on, and so is a sign; every other character is a mark of its own.
Blanks only keep words and signs apart.

Main definitions:

* `Keyspace.Grammar.Lexeme`, `Keyspace.Grammar.lexemes` — the lexemes of some characters;
* `Keyspace.Grammar.scan` — the lexemes of a text that are no blanks;
* `Keyspace.Grammar.SpellsBy` — the symbols of a text, of which each lexeme is one.

Main results:

* `Keyspace.Grammar.lexemes_append_mark` — marks keep lexemes apart;
* `Keyspace.Grammar.scan_around` — **a text is cut at a piece that begins and ends with marks**;
* `Keyspace.Grammar.scan_word` — a text of word characters is one word;
* `Keyspace.Grammar.SpellsBy.around`, `Keyspace.Grammar.SpellsBy.intercalate` — the symbols of a
  text that is put together.
-/

set_option autoImplicit false

namespace Keyspace.Grammar

/-- A character of a word: of names, placeholders, list indexes and the points between steps. -/
def isWordChar (c : Char) : Bool :=
  c.isAlphanum || c == '_' || c == '#' || c == ':' || c == '.' || c == '[' || c == ']'

/-- A character of a sign of comparison. -/
def isSignChar (c : Char) : Bool := c == '=' || c == '<' || c == '>'

/-- A character that stands for itself. -/
def isMark (c : Char) : Bool := !isWordChar c && !isSignChar c

/-- A piece of an expression's text. -/
inductive Lexeme where
  | word (cs : List Char)
  | sign (cs : List Char)
  | mark (c : Char)
  deriving DecidableEq, Repr

namespace Lexeme

/-- Whether a lexeme is a blank. -/
def isBlank : Lexeme → Bool
  | .mark c => Text.isBlank c
  | _ => false

/-- The lexemes with a character before them, which belongs to the first one if that goes on. -/
def before (c : Char) (ls : List Lexeme) : List Lexeme :=
  if isWordChar c then
    match ls with
    | .word cs :: rest => .word (c :: cs) :: rest
    | ls => .word [c] :: ls
  else if isSignChar c then
    match ls with
    | .sign cs :: rest => .sign (c :: cs) :: rest
    | ls => .sign [c] :: ls
  else .mark c :: ls

theorem before_of_isMark {c : Char} (h : isMark c = true) (ls : List Lexeme) :
    before c ls = .mark c :: ls := by
  obtain ⟨hword, hsign⟩ := Bool.and_eq_true_iff.1 h
  rw [Bool.not_eq_true'] at hword hsign
  unfold before
  rw [if_neg (Bool.eq_false_iff.1 hword), if_neg (Bool.eq_false_iff.1 hsign)]

/-- A mark goes on nothing. -/
theorem before_append_mark (c d : Char) (ls rest : List Lexeme) :
    before c (ls ++ .mark d :: rest) = before c ls ++ .mark d :: rest := by
  unfold before
  split
  · cases ls with
    | nil => rfl
    | cons l ls => cases l <;> rfl
  · split
    · cases ls with
      | nil => rfl
      | cons l ls => cases l <;> rfl
    · rfl

end Lexeme

/-- **The lexemes of some characters.** -/
def lexemes (cs : List Char) : List Lexeme := cs.foldr Lexeme.before []

/-- **The lexemes of a text that are no blanks.** -/
def scan (text : String) : List Lexeme := (lexemes text.toList).filter fun l => !l.isBlank

example : scan "#n0[1] <= :v0 AND(x)" =
    [.word ['#', 'n', '0', '[', '1', ']'], .sign ['<', '='], .word [':', 'v', '0'],
      .word ['A', 'N', 'D'], .mark '(', .word ['x'], .mark ')'] := by
  decide

/-! ### Cutting -/

theorem lexemes_append_mark {c : Char} (h : isMark c = true) (xs ys : List Char) :
    lexemes (xs ++ c :: ys) = lexemes xs ++ .mark c :: lexemes ys := by
  induction xs with
  | nil => exact Lexeme.before_of_isMark h _
  | cons x xs ih =>
      show Lexeme.before x (lexemes (xs ++ c :: ys)) = _
      rw [ih, Lexeme.before_append_mark]
      rfl

/-- Whether a text begins and ends with marks. -/
def isEdged (text : String) : Bool :=
  text.toList.head?.any isMark && text.toList.getLast?.any isMark

/-- Lexemes do not go on behind a mark. -/
theorem lexemes_append_of_last {xs : List Char} (h : xs.getLast?.any isMark = true)
    (ys : List Char) : lexemes (xs ++ ys) = lexemes xs ++ lexemes ys := by
  obtain ⟨c, hlast, hc⟩ := (Option.any_eq_true ..).1 h
  obtain ⟨init, rfl⟩ := List.getLast?_eq_some_iff.1 hlast
  rw [List.append_assoc, List.singleton_append, lexemes_append_mark hc, lexemes_append_mark hc,
    List.append_assoc]
  rfl

/-- Lexemes do not go on in front of a mark. -/
theorem lexemes_append_of_head {ys : List Char} (h : ys.head?.any isMark = true)
    (xs : List Char) : lexemes (xs ++ ys) = lexemes xs ++ lexemes ys := by
  obtain ⟨c, hhead, hc⟩ := (Option.any_eq_true ..).1 h
  obtain ⟨rest, rfl⟩ := List.head?_eq_some_iff.1 hhead
  rw [lexemes_append_mark hc]
  exact congrArg _ (Lexeme.before_of_isMark hc _).symm

/-- **A text is cut at a piece that begins and ends with marks.** -/
theorem scan_around {piece : String} (h : isEdged piece = true) (s t : String) :
    scan (s ++ piece ++ t) = scan s ++ scan piece ++ scan t := by
  obtain ⟨hhead, hlast⟩ := Bool.and_eq_true_iff.1 h
  have hpiece : (piece.toList ++ t.toList).head?.any isMark = true := by
    obtain ⟨c, hc, hmark⟩ := (Option.any_eq_true ..).1 hhead
    rw [List.head?_append, hc]
    exact hmark
  have hsplit : lexemes (s ++ piece ++ t).toList =
      lexemes s.toList ++ lexemes piece.toList ++ lexemes t.toList := by
    rw [String.toList_append, String.toList_append, List.append_assoc,
      lexemes_append_of_head hpiece, lexemes_append_of_last hlast, List.append_assoc]
  rw [scan, hsplit, List.filter_append, List.filter_append]
  rfl

/-- **A text of word characters is one word.** -/
theorem scan_word {text : String} (h : ∀ c ∈ text.toList, isWordChar c = true) (hne : text ≠ "") :
    scan text = [.word text.toList] := by
  have hlexemes : ∀ cs : List Char, (∀ c ∈ cs, isWordChar c = true) → cs ≠ [] →
      lexemes cs = [.word cs] := by
    intro cs
    induction cs with
    | nil => exact fun _ hne => absurd rfl hne
    | cons c cs ih =>
        intro hall _
        have hc : isWordChar c = true := hall c List.mem_cons_self
        show Lexeme.before c (lexemes cs) = _
        cases cs with
        | nil => exact if_pos hc
        | cons d ds =>
            rw [ih (fun x hx => hall x (List.mem_cons_of_mem c hx)) (List.cons_ne_nil d ds)]
            exact if_pos hc
  have hlist : text.toList ≠ [] := fun h => hne (String.toList_inj.1 h)
  rw [scan, hlexemes text.toList h hlist]
  rfl

/-! ### Texts that are put together -/

/-- Lists whose elements are related by something in between. -/
theorem exists_between_of_forall₂ {α β γ : Type} {P : α → β → Prop} {Q : β → γ → Prop}
    {xs : List α} {zs : List γ} (h : List.Forall₂ (fun x z => ∃ y, P x y ∧ Q y z) xs zs) :
    ∃ ys, List.Forall₂ P xs ys ∧ List.Forall₂ Q ys zs := by
  induction h with
  | nil => exact ⟨[], .nil, .nil⟩
  | cons hfirst _ ih =>
      obtain ⟨y, hp, hq⟩ := hfirst
      obtain ⟨ys, hps, hqs⟩ := ih
      exact ⟨y :: ys, .cons hp hps, .cons hq hqs⟩

/-- All elements have an image. -/
theorem mapM_of_forall₂ {α β : Type} {f : α → Option β} {xs : List α} {ys : List β}
    (h : List.Forall₂ (fun x y => f x = some y) xs ys) : xs.mapM f = some ys := by
  induction h with
  | nil => rfl
  | cons hx _ ih => rw [List.mapM_cons, hx, ih]; rfl

/-- A text spells some symbols, if `read` takes each lexeme for one. -/
def SpellsBy {σ : Type} (read : Lexeme → Option σ) (text : String) (ss : List σ) : Prop :=
  (scan text).mapM read = some ss

section SpellsBy

variable {σ : Type} {read : Lexeme → Option σ}

instance [DecidableEq σ] (text : String) (ss : List σ) : Decidable (SpellsBy read text ss) :=
  inferInstanceAs (Decidable (_ = some ss))

theorem spellsBy_empty : SpellsBy read "" [] := rfl

/-- A word is a symbol. -/
theorem spellsBy_word {text : String} {s : σ} (hscan : scan text = [.word text.toList])
    (hread : read (.word text.toList) = some s) : SpellsBy read text [s] := by
  rw [SpellsBy, hscan, List.mapM_cons, hread]
  rfl

/-- **The symbols of a text that is put together** around a piece with marks at its ends. -/
theorem SpellsBy.around {piece s t : String} {ps ss ts : List σ} (hpiece : SpellsBy read piece ps)
    (hs : SpellsBy read s ss) (ht : SpellsBy read t ts) (hedged : isEdged piece = true) :
    SpellsBy read (s ++ piece ++ t) (ss ++ ps ++ ts) := by
  unfold SpellsBy at *
  rw [scan_around hedged, List.mapM_append, List.mapM_append, hs, hpiece, ht]
  rfl

/-- A piece with marks at its ends, and a text behind it. -/
theorem SpellsBy.before {piece t : String} {ps ts : List σ} (hpiece : SpellsBy read piece ps)
    (ht : SpellsBy read t ts) (hedged : isEdged piece = true) :
    SpellsBy read (piece ++ t) (ps ++ ts) := by
  have haround := hpiece.around spellsBy_empty ht hedged
  rwa [String.empty_append, List.nil_append] at haround

/-- A text, and a piece with marks at its ends behind it. -/
theorem SpellsBy.behind {piece s : String} {ps ss : List σ} (hpiece : SpellsBy read piece ps)
    (hs : SpellsBy read s ss) (hedged : isEdged piece = true) :
    SpellsBy read (s ++ piece) (ss ++ ps) := by
  have haround := hpiece.around hs spellsBy_empty hedged
  rwa [String.append_empty, List.append_nil] at haround

/-- Texts with a piece between them. -/
theorem SpellsBy.intercalate {piece : String} {ps : List σ} (hpiece : SpellsBy read piece ps)
    (hedged : isEdged piece = true) {texts : List String} {sss : List (List σ)}
    (h : List.Forall₂ (SpellsBy read) texts sss) :
    SpellsBy read (piece.intercalate texts) (ps.intercalate sss) := by
  induction h with
  | nil => exact spellsBy_empty
  | @cons t ss texts sss ht hrest ih =>
      cases hrest with
      | nil => simpa using ht
      | @cons u us texts sss hu hrest =>
          rw [String.intercalate_cons_cons]
          have haround := hpiece.around ht ih hedged
          simpa [List.intercalate, List.append_assoc] using haround

/-- Texts with blanks between them. -/
theorem SpellsBy.apart {blank : String} (hblank : SpellsBy read blank [])
    (hedged : isEdged blank = true) {texts : List String} {sss : List (List σ)}
    (h : List.Forall₂ (SpellsBy read) texts sss) :
    SpellsBy read (blank.intercalate texts) sss.flatten := by
  have hflat : ([] : List σ).intercalate sss = sss.flatten := by
    clear h
    induction sss with
    | nil => rfl
    | cons ss sss ih =>
        cases sss with
        | nil => simp
        | cons us sss => rw [List.intercalate_cons_cons, ih, List.append_nil]; rfl
  rw [← hflat]
  exact hblank.intercalate hedged h

end SpellsBy

end Keyspace.Grammar
