import Keyspace.Proofs.Grammar.Formula
import Keyspace.Update.Change
/-!
# Edits

The grammar of updates.  An update is made of sections; each begins with its keyword, stands once
and holds edits with commas between them.  `SET` assigns a term to a path, or the sum or the
difference of two terms, where a term is a path, a value or a function of terms; `REMOVE` names
paths; `ADD` and `DELETE` name paths with a value each.

A text is cut at the keywords.  The edits of a section are read symbol by symbol; the reader keeps
the functions that stand open around the place it has come to.

Main definitions:

* `Keyspace.Grammar.Term`, `Keyspace.Grammar.Edit` — terms and edits;
* `Keyspace.Grammar.Edit.Symbol` — the symbols of updates;
* `Keyspace.Grammar.Edit.Place.next?`, `Keyspace.Grammar.Edit.Reader.step` — the reader, and what a
  symbol does;
* `Keyspace.Grammar.sections?` — **the sections of an update**.

Main results:

* `Keyspace.Grammar.Edit.edits?_intercalate` — edits with commas between them;
* `Keyspace.Grammar.Edit.IsSection.of_edits`, `Keyspace.Grammar.sections?_intercalate` — **what
  edits and sections make up** when they are joined.
-/

set_option autoImplicit false

namespace Keyspace.Grammar

/-! ### Terms and edits -/

section Syntax

variable {π ν π' ν' : Type}

/-- A term of paths `π` and values `ν`. -/
inductive Term (π ν : Type) where
  | path (p : π)
  | value (v : ν)
  /-- `if_not_exists(p, t)`. -/
  | ifAbsent (p : π) (t : Term π ν)
  /-- `list_append(l, r)`. -/
  | append (l r : Term π ν)
  deriving DecidableEq, Repr

/-- **What one part of an update does.** -/
inductive Edit (π ν : Type) where
  | set (p : π) (t : Term π ν)
  | setSum (p : π) (l r : Term π ν)
  | setDifference (p : π) (l r : Term π ν)
  | remove (p : π)
  | add (p : π) (v : ν)
  | delete (p : π) (v : ν)
  deriving DecidableEq, Repr

/-- The values of a term, from left to right. -/
def Term.values : Term π ν → List ν
  | .path _ => []
  | .value v => [v]
  | .ifAbsent _ t => t.values
  | .append l r => l.values ++ r.values

/-- The values of an edit, from left to right. -/
def Edit.values : Edit π ν → List ν
  | .set _ t => t.values
  | .setSum _ l r | .setDifference _ l r => l.values ++ r.values
  | .remove _ => []
  | .add _ v | .delete _ v => [v]

/-- A term with other paths and values. -/
def Term.resolve? (path : π → Option π') (value : ν → Option ν') : Term π ν → Option (Term π' ν')
  | .path p => (path p).map .path
  | .value v => (value v).map .value
  | .ifAbsent p t => do some (.ifAbsent (← path p) (← t.resolve? path value))
  | .append l r => do some (.append (← l.resolve? path value) (← r.resolve? path value))

/-- An edit with other paths and values. -/
def Edit.resolve? (path : π → Option π') (value : ν → Option ν') : Edit π ν → Option (Edit π' ν')
  | .set p t => do some (.set (← path p) (← t.resolve? path value))
  | .setSum p l r => do
    some (.setSum (← path p) (← l.resolve? path value) (← r.resolve? path value))
  | .setDifference p l r => do
    some (.setDifference (← path p) (← l.resolve? path value) (← r.resolve? path value))
  | .remove p => do some (.remove (← path p))
  | .add p v => do some (.add (← path p) (← value v))
  | .delete p v => do some (.delete (← path p) (← value v))

end Syntax

/-- Terms and edits as they stand in a text. -/
abbrev TermRead := Term (List PathStep) String
abbrev EditRead := Edit (List PathStep) String

namespace Edit

/-! ### Symbols -/

/-- A symbol of an update. -/
inductive Symbol where
  | operand (x : Operand)
  | keyword (s : UpdateSection)
  | ifAbsent
  | append
  | equals
  | plus
  | minus
  | opening
  | closing
  | comma
  deriving DecidableEq, Repr

namespace Symbol

/-- The functions. -/
def functions : List (String × Symbol) := [("if_not_exists", ifAbsent), ("list_append", append)]

/-- The keywords, in upper case. -/
def keywords : List (String × Symbol) := UpdateSection.all.map fun s => (s.keyword, keyword s)

/-- The symbol of a word.  Keywords may be written in any case; a placeholder is none. -/
def ofWord? (cs : List Char) : Option Symbol :=
  if cs.head?.any Placeholder.isSign then (Operand.read? cs).map operand
  else
    (functions.lookup (String.ofList cs)).or <|
      (keywords.lookup (String.ofList (cs.map Char.toUpper))).or <|
        (Operand.read? cs).map operand

/-- A placeholder is an operand. -/
theorem ofWord?_placeholder {c : Char} (h : Placeholder.isSign c = true) (cs : List Char) :
    ofWord? (c :: cs) = (Operand.read? (c :: cs)).map operand := if_pos h

/-- The symbol of a lexeme. -/
def ofLexeme? : Lexeme → Option Symbol
  | .word cs => ofWord? cs
  | .sign cs => if cs = ['='] then some equals else none
  | .mark c =>
    if c = '(' then some opening
    else if c = ')' then some closing
    else if c = ',' then some comma
    else if c = '+' then some plus
    else if c = '-' then some minus
    else none

/-- Whether a symbol begins a section. -/
def isKeyword : Symbol → Bool
  | keyword _ => true
  | _ => false

end Symbol

/-! ### The reader -/

/-- A function that stands open around a term. -/
inductive Frame where
  | ifAbsent (p : List PathStep)
  | appendLeft
  | appendRight (l : TermRead)

/-- An assignment whose right side is being read: the path, the left operand with whether it is
added to, and the functions that stand open. -/
structure Assignment where
  path : List PathStep
  left : Option (Bool × TermRead) := none
  frames : List Frame := []

/-- An assignment with one more function open. -/
def Assignment.push (a : Assignment) (f : Frame) : Assignment := { a with frames := f :: a.frames }

/-- Where the reader has come to. -/
inductive Place where
  /-- An edit is due. -/
  | due
  /-- Behind its path, and behind a value that follows it. -/
  | named (p : List PathStep)
  | given (p : List PathStep) (v : String)
  /-- A term is due. -/
  | term (a : Assignment)
  /-- Behind `if_not_exists`, behind its parenthesis, and behind the path in it. -/
  | ifAbsent (a : Assignment)
  | absent (a : Assignment)
  | absentAt (a : Assignment) (p : List PathStep)
  /-- Behind `list_append`. -/
  | append (a : Assignment)
  /-- Behind a term. -/
  | complete (a : Assignment) (t : TermRead)

/-- The place behind a symbol that ends no edit. -/
def Place.next? : Place → Symbol → Option Place
  | .due, .operand (.path p) => some (.named p)
  | .named p, .operand (.value v) => some (.given p v)
  | .named p, .equals => some (.term { path := p })
  | .term a, .operand (.path p) => some (.complete a (.path p))
  | .term a, .operand (.value v) => some (.complete a (.value v))
  | .term a, .ifAbsent => some (.ifAbsent a)
  | .term a, .append => some (.append a)
  | .ifAbsent a, .opening => some (.absent a)
  | .absent a, .operand (.path p) => some (.absentAt a p)
  | .absentAt a p, .comma => some (.term (a.push (.ifAbsent p)))
  | .append a, .opening => some (.term (a.push .appendLeft))
  | .complete ⟨p, left, .appendLeft :: frames⟩ t, .comma =>
    some (.term ⟨p, left, .appendRight t :: frames⟩)
  | .complete ⟨p, left, .appendRight l :: frames⟩ t, .closing =>
    some (.complete ⟨p, left, frames⟩ (.append l t))
  | .complete ⟨p, left, .ifAbsent q :: frames⟩ t, .closing =>
    some (.complete ⟨p, left, frames⟩ (.ifAbsent q t))
  | .complete ⟨p, none, []⟩ t, .plus => some (.term { path := p, left := some (true, t) })
  | .complete ⟨p, none, []⟩ t, .minus => some (.term { path := p, left := some (false, t) })
  | _, _ => none

/-- The edit that is complete at a place in some section. -/
def Place.edit? : UpdateSection → Place → Option EditRead
  | .set, .complete ⟨p, none, []⟩ t => some (.set p t)
  | .set, .complete ⟨p, some (true, l), []⟩ t => some (.setSum p l t)
  | .set, .complete ⟨p, some (false, l), []⟩ t => some (.setDifference p l t)
  | .remove, .named p => some (.remove p)
  | .add, .given p v => some (.add p v)
  | .delete, .given p v => some (.delete p v)
  | _, _ => none

/-- **A reader of a section**: the edits so far, and where it has come to. -/
structure Reader where
  edits : List EditRead
  place : Place

/-- **What a symbol does.** -/
def Reader.step (k : UpdateSection) (r : Reader) (s : Symbol) : Option Reader :=
  match s, r.place.edit? k with
  | .comma, some e => some ⟨r.edits ++ [e], .due⟩
  | s, _ => (r.place.next? s).map fun place => ⟨r.edits, place⟩

/-- The reader behind some symbols. -/
def Reader.run (k : UpdateSection) (r : Reader) (ss : List Symbol) : Option Reader :=
  ss.foldlM (step k) r

/-- **The edits of a section.** -/
def edits? (k : UpdateSection) (ss : List Symbol) : Option (List EditRead) := do
  let r ← Reader.run k ⟨[], .due⟩ ss
  let e ← r.place.edit? k
  some (r.edits ++ [e])

/-- Symbols cut at the keywords: those in front of the first, and those behind each of them. -/
def cut : List Symbol → List Symbol × List (UpdateSection × List Symbol)
  | [] => ([], [])
  | .keyword k :: rest => ([], (k, (cut rest).1) :: (cut rest).2)
  | s :: rest => (s :: (cut rest).1, (cut rest).2)

end Edit

/-- **The sections of an update**, each of which stands once. -/
def sections? (text : String) : Option (List (UpdateSection × List EditRead)) := do
  let ss ← (scan text).mapM Edit.Symbol.ofLexeme?
  let (front, sections) := Edit.cut ss
  if front = [] ∧ sections ≠ [] ∧ (sections.map Prod.fst).Nodup then
    sections.mapM fun s => (Edit.edits? s.1 s.2).map (s.1, ·)
  else none

/-- Functions may stand in functions; sections may stand in any order. -/
example : sections? "REMOVE a[1], b SET #c = if_not_exists(#c, list_append(:x, d)) + :y" =
    some [(.remove, [.remove [⟨"a", "[1]"⟩], .remove [⟨"b", ""⟩]]),
      (.set, [.setSum [⟨"#c", ""⟩]
        (.ifAbsent [⟨"#c", ""⟩] (.append (.value ":x") (.path [⟨"d", ""⟩]))) (.value ":y")])] := by
  decide +kernel

namespace Edit

/-! ### Edits that stand by themselves -/

/-- A text spells the symbols of an update. -/
abbrev Spells (text : String) (ss : List Symbol) : Prop := SpellsBy Symbol.ofLexeme? text ss

/-- Some symbols make up an edit of a section, whatever edits are in front of it. -/
def Reads (k : UpdateSection) (ss : List Symbol) (e : EditRead) : Prop :=
  ∀ edits : List EditRead, ∃ place,
    Reader.run k ⟨edits, .due⟩ ss = some ⟨edits, place⟩ ∧ place.edit? k = some e

/-- A text that makes up an edit of a section. -/
def IsPart (k : UpdateSection) (text : String) (e : EditRead) : Prop :=
  ∃ ss, Spells text ss ∧ Reads k ss e

theorem Reader.run_append (k : UpdateSection) (r : Reader) (xs ys : List Symbol) :
    r.run k (xs ++ ys) = (r.run k xs).bind fun r => r.run k ys := by
  simp only [run, List.foldlM_append]
  rfl

/-- A comma behind a complete edit. -/
theorem Reader.step_comma {k : UpdateSection} {r : Reader} {e : EditRead}
    (h : r.place.edit? k = some e) : r.step k .comma = some ⟨r.edits ++ [e], .due⟩ := by
  simp only [step, h]

/-- The reader behind edits with commas between them: all but the last one are done. -/
theorem run_intercalate {k : UpdateSection} {sss : List (List Symbol)} {es : List EditRead}
    (h : List.Forall₂ (Reads k) sss es) (hne : sss ≠ []) (edits : List EditRead) :
    ∃ r e, Reader.run k ⟨edits, .due⟩ ([Symbol.comma].intercalate sss) = some r ∧
      r.place.edit? k = some e ∧ r.edits ++ [e] = edits ++ es := by
  induction h generalizing edits with
  | nil => exact absurd rfl hne
  | @cons ss e sss es hfirst hrest ih =>
      obtain ⟨place, hrun, hedit⟩ := hfirst edits
      cases hrest with
      | nil => exact ⟨⟨edits, place⟩, e, by simpa using hrun, hedit, rfl⟩
      | @cons us g sss es hnext hrest =>
          obtain ⟨r, last, hmore, hlast, hall⟩ := ih (List.cons_ne_nil _ _) (edits ++ [e])
          refine ⟨r, last, ?_, hlast, by rw [hall, List.append_assoc]; rfl⟩
          have hcomma : Reader.run k ⟨edits, place⟩ [.comma] = some ⟨edits ++ [e], .due⟩ := by
            rw [Reader.run, List.foldlM_cons, Reader.step_comma hedit]
            rfl
          rw [List.intercalate_cons_cons, Reader.run_append, Reader.run_append, hrun]
          simp only [Option.bind_some, hcomma, hmore]

/-- **Edits with commas between them** are those of a section. -/
theorem edits?_intercalate {k : UpdateSection} {sss : List (List Symbol)} {es : List EditRead}
    (h : List.Forall₂ (Reads k) sss es) (hne : sss ≠ []) :
    edits? k ([Symbol.comma].intercalate sss) = some es := by
  obtain ⟨r, e, hrun, hlast, hall⟩ := run_intercalate h hne []
  rw [edits?, hrun, Option.bind_eq_bind, Option.bind_some, hlast, Option.bind_eq_bind,
    Option.bind_some, hall, List.nil_append]

/-! ### Sections that stand by themselves -/

/-- No keyword stands inside of a section. -/
theorem isKeyword_of_run {k : UpdateSection} {r r' : Reader} {ss : List Symbol}
    (h : r.run k ss = some r') : ∀ s ∈ ss, s.isKeyword = false := by
  have hnext : ∀ (place : Place) (j : UpdateSection), place.next? (.keyword j) = none := by
    intro place j
    unfold Place.next?
    split <;> first | rfl | contradiction
  have hstep : ∀ (r : Reader) (j : UpdateSection), r.step k (.keyword j) = none := by
    intro r j
    simp only [Reader.step, hnext, Option.map_none]
  induction ss generalizing r with
  | nil => simp
  | cons s ss ih =>
      obtain ⟨r₁, hfirst, hrun⟩ := Option.bind_eq_some_iff.1 h
      refine List.forall_mem_cons.2 ⟨?_, ih hrun⟩
      cases s with
      | keyword j =>
          rw [hstep] at hfirst
          cases hfirst
      | _ => rfl

theorem isKeyword_of_edits? {k : UpdateSection} {ss : List Symbol} {es : List EditRead}
    (h : edits? k ss = some es) : ∀ s ∈ ss, s.isKeyword = false := by
  obtain ⟨r, hrun, -⟩ := Option.bind_eq_some_iff.1 h
  exact isKeyword_of_run hrun

/-- Symbols without a keyword belong to what is in front of the next one. -/
theorem cut_append {ss : List Symbol} (h : ∀ s ∈ ss, s.isKeyword = false) (rest : List Symbol) :
    cut (ss ++ rest) = (ss ++ (cut rest).1, (cut rest).2) := by
  induction ss with
  | nil => rfl
  | cons s ss ih =>
      obtain ⟨hs, hss⟩ := List.forall_mem_cons.1 h
      cases s with
      | keyword j => cases hs
      | _ => simp only [List.cons_append, cut, ih hss]

/-- **Symbols are cut at the keywords.** -/
theorem cut_flatMap {parts : List (UpdateSection × List Symbol)}
    (h : ∀ part ∈ parts, ∀ s ∈ part.2, s.isKeyword = false) :
    cut (parts.flatMap fun part => .keyword part.1 :: part.2) = ([], parts) := by
  induction parts with
  | nil => rfl
  | cons part parts ih =>
      obtain ⟨hpart, hparts⟩ := List.forall_mem_cons.1 h
      rw [List.flatMap_cons, List.cons_append, cut, cut_append hpart, ih hparts, List.append_nil]

/-- A text that makes up a section. -/
def IsSection (text : String) (part : UpdateSection × List EditRead) : Prop :=
  ∃ ss, Spells text (.keyword part.1 :: ss) ∧ edits? part.1 ss = some part.2

/-- **A keyword with edits behind it makes up a section.** -/
theorem IsSection.of_edits {k : UpdateSection} {texts : List String} {es : List EditRead}
    (h : List.Forall₂ (IsPart k) texts es) (hne : texts ≠ []) :
    IsSection (k.keyword ++ " " ++ ", ".intercalate texts) (k, es) := by
  obtain ⟨sss, hspells, hreads⟩ := exists_between_of_forall₂ h
  have hsss : sss ≠ [] := by
    rintro rfl
    cases hspells
    exact hne rfl
  have hkeyword : Spells k.keyword [.keyword k] := by
    cases k <;> decide
  have hblank : Spells " " [] := by decide
  have hcomma : Spells ", " [.comma] := by decide
  have hlist := hcomma.intercalate (by decide) hspells
  exact ⟨_, hblank.around hkeyword hlist (by decide), edits?_intercalate hreads hsss⟩

end Edit

/-- **Sections with blanks between them** make up an update, if none stands twice. -/
theorem sections?_intercalate {texts : List String}
    {parts : List (UpdateSection × List EditRead)} (h : List.Forall₂ Edit.IsSection texts parts)
    (hne : texts ≠ []) (hnodup : (parts.map Prod.fst).Nodup) :
    sections? (" ".intercalate texts) = some parts := by
  obtain ⟨pieces, hspells, hparts⟩ : ∃ pieces : List (UpdateSection × List Edit.Symbol),
      List.Forall₂ (fun text q => Edit.Spells text (.keyword q.1 :: q.2)) texts pieces ∧
        List.Forall₂ (fun q part => part.1 = q.1 ∧ Edit.edits? q.1 q.2 = some part.2)
          pieces parts := by
    refine exists_between_of_forall₂ (h.imp ?_)
    rintro text ⟨k, es⟩ ⟨ss, hss, hes⟩
    exact ⟨(k, ss), hss, rfl, hes⟩
  have hblank : Edit.Spells " " [] := by decide
  have hsymbols := hblank.apart (by decide) (List.forall₂_map_right_iff.2 hspells)
  rw [← List.flatMap_def] at hsymbols
  have hkeys : pieces.map Prod.fst = parts.map Prod.fst := by
    rw [← List.forall₂_eq_eq_eq, List.forall₂_map_left_iff, List.forall₂_map_right_iff]
    exact hparts.imp fun q part hq => hq.1.symm
  obtain ⟨hplain, -⟩ := (List.forall₂_and_left (p := fun q : _ × List Edit.Symbol =>
      ∀ s ∈ q.2, s.isKeyword = false) _ _).1
    (hparts.imp fun q part hq => ⟨Edit.isKeyword_of_edits? hq.2, hq⟩)
  have hread : pieces.mapM (fun q => (Edit.edits? q.1 q.2).map (q.1, ·)) = some parts := by
    refine mapM_of_forall₂ (hparts.imp ?_)
    rintro q ⟨k, es⟩ ⟨rfl, hes⟩
    rw [hes]
    rfl
  have hpieces : pieces ≠ [] := by
    rintro rfl
    cases hspells
    exact hne rfl
  rw [sections?, hsymbols, Option.bind_eq_bind, Option.bind_some, Edit.cut_flatMap hplain]
  simp only [hkeys, hpieces, hnodup, ne_eq, not_false_eq_true, and_self, if_true, hread]

end Keyspace.Grammar
