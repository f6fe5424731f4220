import Keyspace.Proofs.Expression.Compiled
import Keyspace.Proofs.Grammar.Formula
import Keyspace.Proofs.Text.Joined
/-!
# Expressions are read back

An expression is read by the grammar of conditions, or as a list of paths, and its placeholders
are looked up.  What was written for some conditions on document paths is read back as these
conditions: in their order, with their operators, their paths and their operands.  So is a list of
paths.

Main definitions:

* `Keyspace.Grammar.Operand.path?`, `Keyspace.Grammar.Operand.value?` — what an operand stands for;
* `Keyspace.Grammar.conditions?`, `Keyspace.Grammar.paths?` — **the conditions of an expression,
  the paths of a list**;
* `Keyspace.TakesPlaceholders` — readers of lexemes for which placeholders are operands.

Main results:

* `Keyspace.TakesPlaceholders.path`, `Keyspace.TakesPlaceholders.value` — placed paths and issued
  values are operands of any grammar;
* `Keyspace.Clause.isPart` — a clause reads as a test of its path;
* `Keyspace.Compiler.conditions_readBack`, `Keyspace.Compiler.projection_readBack` — **generated
  expressions are read back**.
-/

set_option autoImplicit false

namespace Keyspace

/-! ### What expressions say -/

namespace Grammar

/-- The text of a path. -/
def pathText (steps : List PathStep) : String :=
  ".".intercalate (steps.map fun s => s.name ++ s.indexes)

/-- A step with the attribute that it names. -/
def resolve? (names : Dict String) (s : PathStep) : Option PathStep :=
  if Placeholder.isName s.name then (names.get? s.name).map fun attr => ⟨attr, s.indexes⟩
  else some s

/-- The document path that an operand stands for. -/
def Operand.path? (names : Dict String) : Operand → Option String
  | .path steps => (steps.mapM (resolve? names)).map pathText
  | _ => none

/-- The value that an operand stands for. -/
def Operand.value? (values : Dict Value) : Operand → Option Value
  | .value placeholder => values.get? placeholder
  | _ => none

/-- The condition that a formula states. -/
def Formula.condition? (names : Dict String) (values : Dict Value) : Formula → Option Condition
  | .test (.operator op) subject operands => do
    let field ← subject.path? names
    let vs ← operands.mapM (Operand.value? values)
    some ⟨field, op, vs⟩
  | _ => none

/-- **The conditions of an expression**, all of which have to hold. -/
def conditions? (names : Dict String) (values : Dict Value) (text : String) :
    Option (List Condition) := do
  let f ← formula? text
  f.conjuncts.mapM (Formula.condition? names values)

/-- **The document paths of a list.** -/
def paths? (names : Dict String) (text : String) : Option (List String) := do
  let xs ← operands? text
  xs.mapM (Operand.path? names)

/-! ### Paths -/

theorem splitPoints_append {part : List Char} (h : '.' ∉ part) (rest : List Char) :
    splitPoints (part ++ '.' :: rest) = part :: splitPoints rest := by
  induction part with
  | nil => rfl
  | cons c cs ih =>
      have hc : c ≠ '.' := fun hc => h (hc ▸ List.mem_cons_self)
      simp [splitPoints, hc, ih fun hmem => h (List.mem_cons_of_mem c hmem)]

theorem splitPoints_of_not_mem {part : List Char} (h : '.' ∉ part) :
    splitPoints part = [part] := by
  induction part with
  | nil => rfl
  | cons c cs ih =>
      have hc : c ≠ '.' := fun hc => h (hc ▸ List.mem_cons_self)
      simp [splitPoints, hc, ih fun hmem => h (List.mem_cons_of_mem c hmem)]

/-- Parts without a point are found between the points. -/
theorem splitPoints_intercalate {parts : List (List Char)} (hne : parts ≠ [])
    (h : ∀ part ∈ parts, '.' ∉ part) : splitPoints (['.'].intercalate parts) = parts := by
  induction parts with
  | nil => exact absurd rfl hne
  | cons part rest ih =>
      have hpart := h part List.mem_cons_self
      cases rest with
      | nil => simpa using splitPoints_of_not_mem hpart
      | cons next more =>
          rw [List.intercalate_cons_cons, List.append_assoc, List.singleton_append,
            splitPoints_append hpart,
            ih (List.cons_ne_nil _ _) fun p hp => h p (List.mem_cons_of_mem part hp)]

/-- A name without `[`, and behind it nothing or something that begins with `[`, are a step. -/
theorem ofChars_append {name indexes : String} (hname : '[' ∉ name.toList)
    (hindexes : indexes.toList.takeWhile (· != '[') = []) :
    PathStep.ofChars (name ++ indexes).toList = ⟨name, indexes⟩ := by
  have hbefore : ∀ c ∈ name.toList, (c != '[') = true := by
    intro c hc
    have hne : c ≠ '[' := fun h => hname (h ▸ hc)
    simpa using hne
  have hbehind : indexes.toList.dropWhile (· != '[') = indexes.toList := by
    have hall := List.takeWhile_append_dropWhile (p := (· != '[')) (l := indexes.toList)
    rwa [hindexes, List.nil_append] at hall
  rw [PathStep.ofChars, String.toList_append, List.takeWhile_append_of_pos hbefore,
    List.dropWhile_append_of_pos hbefore, hindexes, hbehind, List.append_nil, String.ofList_toList,
    String.ofList_toList]

/-- The text of some steps has these steps, if each is one by itself and holds no point. -/
theorem pathSteps_pathText {steps : List PathStep} (hne : steps ≠ [])
    (h : ∀ s ∈ steps, PathStep.ofChars (s.name ++ s.indexes).toList = s ∧
      '.' ∉ (s.name ++ s.indexes).toList) : pathSteps (pathText steps) = steps := by
  have hparts : ∀ part ∈ steps.map (fun s => (s.name ++ s.indexes).toList), '.' ∉ part := by
    intro part hpart
    obtain ⟨s, hs, rfl⟩ := List.mem_map.1 hpart
    exact (h s hs).2
  have htext : (pathText steps).toList =
      ['.'].intercalate (steps.map fun s => (s.name ++ s.indexes).toList) := by
    rw [pathText, String.toList_intercalate, List.map_map]
    rfl
  rw [pathSteps, htext, splitPoints_intercalate (by simpa using hne) hparts, List.map_map]
  exact (List.map_congr_left fun s hs => (h s hs).1).trans (List.map_id _)

/-- The steps of a path make up its text. -/
theorem pathText_pathSteps (path : String) : pathText (pathSteps path) = path := by
  have hparts : (pathSteps path).map (fun s => (s.name ++ s.indexes).toList) =
      splitPoints path.toList := by
    simp only [pathSteps, List.map_map]
    refine List.map_id'' (fun part => ?_) _
    simp [PathStep.ofChars, String.toList_append, List.takeWhile_append_dropWhile]
  rw [← String.toList_inj, pathText, String.toList_intercalate, List.map_map]
  exact (congrArg _ hparts).trans (intercalate_splitPoints path.toList)

end Grammar

/-! ### Placed paths -/

open Grammar

/-- The steps of a placed path, as they stand in its text. -/
def PlacedPath.steps (p : PlacedPath) : List PathStep := p.map fun s => ⟨s.placeholder, s.indexes⟩

theorem PlacedPath.pathText_steps (p : PlacedPath) : pathText p.steps = p.text := by
  rw [pathText, PlacedPath.steps, List.map_map]
  rfl

/-- List indexes are made of brackets and digits. -/
theorem mem_of_spellsIndexes {cs : List Char} {place : IndexPlace}
    (h : spellsIndexes place cs = true) : ∀ c ∈ cs, c = '[' ∨ c = ']' ∨ c.isDigit = true := by
  induction cs generalizing place with
  | nil => intro c hc; cases hc
  | cons d ds ih =>
      have hd : (d = '[' ∨ d = ']' ∨ d.isDigit = true) ∧
          ∃ next, spellsIndexes next ds = true := by
        cases place with
        | outside =>
            obtain ⟨hd, hds⟩ := Bool.and_eq_true_iff.1 h
            exact ⟨.inl (by simpa using hd), .opened, hds⟩
        | opened =>
            obtain ⟨hd, hds⟩ := Bool.and_eq_true_iff.1 h
            exact ⟨.inr (.inr hd), .inside, hds⟩
        | inside =>
            simp only [spellsIndexes] at h
            split at h
            · next hd => exact ⟨.inr (.inl hd), .outside, h⟩
            · obtain ⟨hd, hds⟩ := Bool.and_eq_true_iff.1 h
              exact ⟨.inr (.inr hd), .inside, hds⟩
      obtain ⟨hchar, next, hds⟩ := hd
      intro c hc
      rcases List.mem_cons.1 hc with rfl | hc
      · exact hchar
      · exact ih hds c hc

theorem Placeholder.toList_ofName (n : Nat) :
    (Placeholder.ofName n).toList = '#' :: 'n' :: (toString n).toList := by
  simp [Placeholder.ofName, String.toList_append]

theorem Placeholder.toList_ofValue (n : Nat) :
    (Placeholder.ofValue n).toList = ':' :: 'v' :: (toString n).toList := by
  simp [Placeholder.ofValue, String.toList_append]

/-- The characters of a placeholder's word are characters of the grammar's words. -/
theorem Grammar.isWordChar_of_isWordChar {c : Char} (h : Placeholder.isWordChar c = true) :
    Grammar.isWordChar c = true ∧ c ≠ '.' ∧ c ≠ '[' := by
  refine ⟨?_, ?_, ?_⟩
  · unfold Placeholder.isWordChar at h
    rcases Bool.or_eq_true_iff.1 h with h | h
    · simp [Grammar.isWordChar, h]
    · simp [Grammar.isWordChar, h]
  · rintro rfl
    exact absurd h (by decide)
  · rintro rfl
    exact absurd h (by decide)

/-- The characters of an issued name. -/
theorem Placeholder.mem_ofName {n : Nat} {c : Char} (h : c ∈ (Placeholder.ofName n).toList) :
    Grammar.isWordChar c = true ∧ c ≠ '.' ∧ c ≠ '[' := by
  rw [Placeholder.toList_ofName] at h
  rcases List.mem_cons.1 h with rfl | h
  · decide
  · rcases List.mem_cons.1 h with rfl | h
    · decide
    · exact isWordChar_of_isWordChar (Placeholder.isWordChar_of_mem_toString h)

namespace PlacedStep.Regular

variable {s : PlacedStep}

/-- A step is cut behind its placeholder. -/
theorem ofChars (h : s.Regular) :
    PathStep.ofChars (s.placeholder ++ s.indexes).toList = ⟨s.placeholder, s.indexes⟩ := by
  obtain ⟨n, hn⟩ := h.placeholder
  refine ofChars_append (fun hmem => ?_) ?_
  · rw [hn] at hmem
    exact (Placeholder.mem_ofName hmem).2.2 rfl
  · have hspells := h.indexes
    cases hcs : s.indexes.toList with
    | nil => rfl
    | cons c cs =>
        rw [hcs] at hspells
        obtain rfl : c = '[' := by simpa using (Bool.and_eq_true_iff.1 hspells).1
        rfl

theorem isStep (h : s.Regular) : Grammar.isStep ⟨s.placeholder, s.indexes⟩ = true := by
  obtain ⟨n, hn⟩ := h.placeholder
  have hword : ((toString n).toList.all Placeholder.isWordChar) = true :=
    List.all_eq_true.2 fun c hc => Placeholder.isWordChar_of_mem_toString hc
  have hsign : Placeholder.isWordChar 'n' = true := by decide
  simp only [Grammar.isStep, h.indexes, hn, Placeholder.toList_ofName, List.all_cons, hsign, hword,
    List.isEmpty_cons, if_true]
  decide

/-- The text of a step is made of word characters other than the point. -/
theorem isWordChar (h : s.Regular) :
    ∀ c ∈ (s.placeholder ++ s.indexes).toList, Grammar.isWordChar c = true ∧ c ≠ '.' := by
  obtain ⟨n, hn⟩ := h.placeholder
  intro c hc
  rw [String.toList_append, List.mem_append, hn] at hc
  rcases hc with hc | hc
  · obtain ⟨hword, hpoint, -⟩ := Placeholder.mem_ofName hc
    exact ⟨hword, hpoint⟩
  · rcases mem_of_spellsIndexes h.indexes c hc with rfl | rfl | hdigit
    · decide
    · decide
    · have hword : Placeholder.isWordChar c = true := by
        simp [Placeholder.isWordChar, Char.isAlphanum, hdigit]
      obtain ⟨hchar, hpoint, -⟩ := isWordChar_of_isWordChar hword
      exact ⟨hchar, hpoint⟩

end PlacedStep.Regular

/-- The text of a placed path begins with the sign of a name. -/
theorem PlacedPath.toList_text {p : PlacedPath} (h : ∀ s ∈ p, s.Regular) (hne : p ≠ []) :
    ∃ rest, p.text.toList = '#' :: rest := by
  cases p with
  | nil => exact absurd rfl hne
  | cons s more =>
      obtain ⟨n, hn⟩ := (h s List.mem_cons_self).placeholder
      rw [PlacedPath.text, List.map_cons, intercalate_cons, hn, String.toList_append,
        String.toList_append, Placeholder.toList_ofName]
      exact ⟨_, rfl⟩

/-- The text of a placed path is one word. -/
theorem PlacedPath.scan_text {p : PlacedPath} (h : ∀ s ∈ p, s.Regular) (hne : p ≠ []) :
    scan p.text = [.word p.text.toList] := by
  refine scan_word (fun c hc => ?_) fun hempty => ?_
  · by_contra hno
    refine not_mem_intercalate ?_ ?_ hc
    · intro hpoint
      rw [List.mem_singleton.1 hpoint] at hno
      exact hno (by decide)
    · intro part hpart
      obtain ⟨s, hs, rfl⟩ := List.mem_map.1 hpart
      exact fun hmem => hno ((h s hs).isWordChar c hmem).1
  · obtain ⟨rest, hrest⟩ := PlacedPath.toList_text h hne
    rw [hempty] at hrest
    cases hrest

/-- **The word of a placed path is an operand**: its steps with their placeholders. -/
theorem PlacedPath.read?_text {p : PlacedPath} (h : ∀ s ∈ p, s.Regular) (hne : p ≠ []) :
    Operand.read? p.text.toList = some (.path p.steps) := by
  -- neither placeholders nor list indexes hold points, so the text is cut where it was joined
  have hsplit : (splitPoints p.text.toList).map PathStep.ofChars = p.steps := by
    rw [← pathText_steps]
    refine pathSteps_pathText (by simpa [PlacedPath.steps] using hne) fun step hstep => ?_
    obtain ⟨s, hs, rfl⟩ := List.mem_map.1 hstep
    exact ⟨(h s hs).ofChars, fun hpoint => ((h s hs).isWordChar _ hpoint).2 rfl⟩
  have hsteps : p.steps.all Grammar.isStep = true := by
    refine List.all_eq_true.2 fun step hstep => ?_
    obtain ⟨s, hs, rfl⟩ := List.mem_map.1 hstep
    exact (h s hs).isStep
  obtain ⟨rest, hrest⟩ := PlacedPath.toList_text h hne
  rw [hrest] at hsplit ⊢
  exact Operand.read?_of_name hsplit hsteps

/-- An issued value is one word. -/
theorem scan_ofValue (n : Nat) :
    scan (Placeholder.ofValue n) = [.word (Placeholder.ofValue n).toList] := by
  have htext := Placeholder.toList_ofValue n
  refine scan_word (fun c hc => ?_) fun hempty => ?_
  · rw [htext] at hc
    rcases List.mem_cons.1 hc with rfl | hc
    · decide
    · rcases List.mem_cons.1 hc with rfl | hc
      · decide
      · exact (isWordChar_of_isWordChar (Placeholder.isWordChar_of_mem_toString hc)).1
  · rw [hempty] at htext
    cases htext

/-- **The word of an issued value is an operand.** -/
theorem read?_ofValue (n : Nat) :
    Operand.read? (Placeholder.ofValue n).toList = some (.value (Placeholder.ofValue n)) := by
  have htext := Placeholder.toList_ofValue n
  have hdigits : ((toString n).toList.all Placeholder.isWordChar) = true :=
    List.all_eq_true.2 fun c hc => Placeholder.isWordChar_of_mem_toString hc
  have hall : ('v' :: (toString n).toList).all Placeholder.isWordChar = true := by
    rw [List.all_cons, hdigits]
    decide
  rw [htext, Operand.read?_of_value (List.cons_ne_nil _ _) hall, ← htext, String.ofList_toList]

/-- A reader of lexemes takes the words of placeholders for operands. -/
def TakesPlaceholders {σ : Type} (read : Lexeme → Option σ) (operand : Operand → σ) : Prop :=
  ∀ c cs, Placeholder.isSign c = true →
    read (.word (c :: cs)) = (Operand.read? (c :: cs)).map operand

section TakesPlaceholders

variable {σ : Type} {read : Lexeme → Option σ} {operand : Operand → σ}

/-- **The text of a placed path is an operand.** -/
theorem TakesPlaceholders.path (hread : TakesPlaceholders read operand) {p : PlacedPath}
    (h : ∀ s ∈ p, s.Regular) (hne : p ≠ []) :
    SpellsBy read p.text [operand (.path p.steps)] := by
  refine spellsBy_word (PlacedPath.scan_text h hne) ?_
  have hword := PlacedPath.read?_text h hne
  obtain ⟨rest, hrest⟩ := PlacedPath.toList_text h hne
  rw [hrest] at hword ⊢
  rw [hread _ _ (by decide), hword]
  rfl

/-- **An issued value is an operand.** -/
theorem TakesPlaceholders.value (hread : TakesPlaceholders read operand) (n : Nat) :
    SpellsBy read (Placeholder.ofValue n) [operand (.value (Placeholder.ofValue n))] := by
  refine spellsBy_word (scan_ofValue n) ?_
  have hword := read?_ofValue n
  rw [Placeholder.toList_ofValue] at hword ⊢
  rw [hread _ _ (by decide), hword]
  rfl

end TakesPlaceholders

theorem Grammar.Symbol.takesPlaceholders : TakesPlaceholders Symbol.ofLexeme? Symbol.operand :=
  fun _ cs h => Symbol.ofWord?_of_isSign h cs

/-- The text of a placed path is an operand of a condition. -/
theorem PlacedPath.spells_text {p : PlacedPath} (h : ∀ s ∈ p, s.Regular) (hne : p ≠ []) :
    Spells p.text [.operand (.path p.steps)] := Symbol.takesPlaceholders.path h hne

/-- An issued value is an operand of a condition. -/
theorem spells_ofValue (n : Nat) :
    Spells (Placeholder.ofValue n) [.operand (.value (Placeholder.ofValue n))] :=
  Symbol.takesPlaceholders.value n

/-! ### Clauses -/

/-- The formula of a clause. -/
def Clause.formula (y : Clause) : Formula :=
  .test (.operator y.operator) (.path y.path.steps) (y.placeholders.map .value)

/-- A document path has a step, so it has one when it is placed. -/
theorem Compiler.Placed.ne_nil {c : Compiler} {path : String} {p : PlacedPath}
    (h : c.Placed path p) : p ≠ [] := by
  rintro rfl
  have hsteps := h.steps
  rw [List.map_nil, pathSteps] at hsteps
  exact splitPoints_ne_nil _ (List.map_eq_nil_iff.1 hsteps.symm)

section Clauses

variable {text : String} {path : Operand}

/-- An operand, a sign of comparison and another operand. -/
theorem isPart_comparison (hpath : Spells text [.operand path]) {sign : String} {op : Operator}
    (hsign : Spells sign [.comparison op]) (n : Nat) :
    IsPart (text ++ " " ++ sign ++ " " ++ Placeholder.ofValue n)
      (.test (.operator op) path [.value (Placeholder.ofValue n)]) := by
  have hblank : Spells " " [] := by decide
  exact ⟨_, hblank.around (hblank.around hpath hsign (by decide)) (spells_ofValue n) (by decide),
    fun frames => rfl⟩

/-- An operand between two others. -/
theorem isPart_between (hpath : Spells text [.operand path]) (m n : Nat) :
    IsPart (text ++ " BETWEEN " ++ Placeholder.ofValue m ++ " AND " ++ Placeholder.ofValue n)
      (.test (.operator .between) path
        [.value (Placeholder.ofValue m), .value (Placeholder.ofValue n)]) := by
  have hbetween : Spells " BETWEEN " [.between] := by decide
  have hand : Spells " AND " [.and] := by decide
  exact ⟨_, hand.around (hbetween.around hpath (spells_ofValue m) (by decide)) (spells_ofValue n)
    (by decide), fun frames => rfl⟩

/-- A function applied to a path. -/
theorem isPart_application {steps : List PathStep} (hpath : Spells text [.operand (.path steps)])
    {name : String} {t : Test} (hname : Spells name [.function t]) (hcount : t.arguments = 0) :
    IsPart (name ++ "(" ++ text ++ ")") (.test t (.path steps) []) := by
  have hopening : Spells "(" [.opening] := by decide
  have hclosing : Spells ")" [.closing] := by decide
  refine ⟨_, hclosing.behind (hopening.around hname hpath (by decide)) (by decide),
    fun frames => ?_⟩
  simp [Reader.run, Reader.step, Place.next?, Hole.fill, Test.formulaOf?, hcount]

/-- A function applied to a path and an operand. -/
theorem isPart_application_operand {steps : List PathStep}
    (hpath : Spells text [.operand (.path steps)]) {name : String} {t : Test}
    (hname : Spells name [.function t]) (hcount : t.arguments = 1) (n : Nat) :
    IsPart (name ++ "(" ++ text ++ ", " ++ Placeholder.ofValue n ++ ")")
      (.test t (.path steps) [.value (Placeholder.ofValue n)]) := by
  have hopening : Spells "(" [.opening] := by decide
  have hcomma : Spells ", " [.comma] := by decide
  have hclosing : Spells ")" [.closing] := by decide
  refine ⟨_, hclosing.behind (hcomma.around (hopening.around hname hpath (by decide))
    (spells_ofValue n) (by decide)) (by decide), fun frames => ?_⟩
  simp [Reader.run, Reader.step, Place.next?, Hole.fill, Test.formulaOf?, hcount]

/-- The reader behind some choices. -/
theorem run_choices (path : Operand) (frames : List Pending) {xs : List Operand} (hne : xs ≠ [])
    (sofar : List Operand) :
    (⟨frames, .operand (.choice path sofar)⟩ : Reader).run
      ([Symbol.comma].intercalate (xs.map fun x => [.operand x])) =
        some ⟨frames, .chosen path (sofar ++ xs)⟩ := by
  induction xs generalizing sofar with
  | nil => exact absurd rfl hne
  | cons x xs ih =>
      cases xs with
      | nil => rfl
      | cons y ys =>
          rw [List.map_cons, List.map_cons, List.intercalate_cons_cons, Reader.run_append]
          show (⟨frames, .operand (.choice path (sofar ++ [x]))⟩ : Reader).run _ = _
          rw [← List.map_cons (f := fun x => [Symbol.operand x]), ih (List.cons_ne_nil _ _),
            List.append_assoc]
          rfl

/-- An operand that is one of several. -/
theorem isPart_choice (hpath : Spells text [.operand path]) {ps : List String} (hne : ps ≠ [])
    (hps : ∀ p ∈ ps, ∃ n, p = Placeholder.ofValue n) :
    IsPart (text ++ " IN (" ++ ", ".intercalate ps ++ ")")
      (.test (.operator .oneOf) path (ps.map .value)) := by
  have hin : Spells " IN (" [.oneOf, .opening] := by decide
  have hcomma : Spells ", " [.comma] := by decide
  have hclosing : Spells ")" [.closing] := by decide
  have hlist : Spells (", ".intercalate ps)
      ([Symbol.comma].intercalate ((ps.map Operand.value).map fun x => [.operand x])) := by
    refine hcomma.intercalate (by decide) ?_
    rw [List.map_map, List.forall₂_map_right_iff, List.forall₂_same]
    intro p hp
    obtain ⟨n, rfl⟩ := hps p hp
    exact spells_ofValue n
  refine ⟨_, hclosing.behind (hin.around hpath hlist (by decide)) (by decide), fun frames => ?_⟩
  rw [Reader.run_append, Reader.run_append,
    show (⟨frames, .condition⟩ : Reader).run ([.operand path] ++ [.oneOf, .opening]) =
      some ⟨frames, .operand (.choice path [])⟩ from rfl, Option.bind_some,
    run_choices path frames (by simpa using hne) [], Option.bind_some]
  rfl

end Clauses

/-- **A clause reads as a test of its path** by its operator and its operands. -/
theorem Clause.isPart {c : Compiler} {x : Condition} {y : Clause} (h : Clause.Renders c x y)
    (hx : x.IsRegular) : IsPart y.text y.formula := by
  have hspells := PlacedPath.spells_text (h.path.regular hx.path) h.path.ne_nil
  have hissued := h.placeholders_issued
  have hadmits := h.admits hx
  obtain ⟨op, path, operands⟩ := y
  have none_of (hcount : op.operands = (0, 0)) : operands = [] := h.operands_eq_nil hx hcount
  have one_of (hcount : op.operands = (1, 1)) : ∃ n v, operands = [(Placeholder.ofValue n, v)] :=
    h.exists_operand hx hcount
  -- one case for each operator: which of the grammar's forms its text has
  cases op with
  | eq =>
      obtain ⟨n, v, rfl⟩ := one_of rfl
      have hsign : Spells "=" [.comparison .eq] := by decide
      exact isPart_comparison hspells hsign n
  | ne =>
      obtain ⟨n, v, rfl⟩ := one_of rfl
      have hsign : Spells "<>" [.comparison .ne] := by decide
      exact isPart_comparison hspells hsign n
  | lt =>
      obtain ⟨n, v, rfl⟩ := one_of rfl
      have hsign : Spells "<" [.comparison .lt] := by decide
      exact isPart_comparison hspells hsign n
  | le =>
      obtain ⟨n, v, rfl⟩ := one_of rfl
      have hsign : Spells "<=" [.comparison .le] := by decide
      exact isPart_comparison hspells hsign n
  | gt =>
      obtain ⟨n, v, rfl⟩ := one_of rfl
      have hsign : Spells ">" [.comparison .gt] := by decide
      exact isPart_comparison hspells hsign n
  | ge =>
      obtain ⟨n, v, rfl⟩ := one_of rfl
      have hsign : Spells ">=" [.comparison .ge] := by decide
      exact isPart_comparison hspells hsign n
  | between =>
      obtain ⟨m, v, n, w, rfl⟩ := h.exists_bounds hx rfl
      exact isPart_between hspells m n
  | oneOf =>
      have hne : operands ≠ [] := by
        rintro rfl
        exact absurd (show Operator.oneOf.admits 0 = true from hadmits) (by decide)
      exact isPart_choice hspells (by simpa [Clause.placeholders] using hne) hissued
  | beginsWith =>
      obtain ⟨n, v, rfl⟩ := one_of rfl
      have hname : Spells "begins_with" [.function (.operator .beginsWith)] := by decide
      exact isPart_application_operand hspells hname rfl n
  | contains =>
      obtain ⟨n, v, rfl⟩ := one_of rfl
      have hname : Spells "contains" [.function (.operator .contains)] := by decide
      exact isPart_application_operand hspells hname rfl n
  | attributeExists =>
      obtain rfl := none_of rfl
      have hname : Spells "attribute_exists" [.function (.operator .attributeExists)] := by decide
      exact isPart_application hspells hname rfl
  | attributeNotExists =>
      obtain rfl := none_of rfl
      have hname : Spells "attribute_not_exists" [.function (.operator .attributeNotExists)] := by
        decide
      exact isPart_application hspells hname rfl

/-! ### Placeholders are looked up -/

section LookedUp

variable {c : Compiler} {names : Dict String} {values : Dict Value}

/-- **A placed path is looked up step by step.** -/
theorem Compiler.Placed.path? {path : String} {p : PlacedPath} (h : c.Placed path p)
    (hnames : ∀ s ∈ p, names.get? s.placeholder = some s.name) :
    (Operand.path p.steps).path? names = some path := by
  have hresolve : p.steps.mapM (resolve? names) = some (pathSteps path) := by
    rw [← h.steps]
    refine mapM_of_forall₂ ?_
    rw [PlacedPath.steps, List.forall₂_map_left_iff, List.forall₂_map_right_iff, List.forall₂_same]
    intro s hs
    have hname : Placeholder.isName s.placeholder = true := by
      obtain ⟨n, hn, -⟩ := h.names s hs
      rw [hn, Placeholder.isName_ofName]
    simp [resolve?, hname, hnames s hs]
  rw [Operand.path?, hresolve, Option.map_some, pathText_pathSteps]

/-- **The formula of a clause states its condition.** -/
theorem Clause.Renders.condition? {x : Condition} {y : Clause} (h : Clause.Renders c x y)
    (hnames : ∀ s ∈ y.path, names.get? s.placeholder = some s.name)
    (hvalues : ∀ o ∈ y.operands, values.get? o.1 = some o.2) :
    y.formula.condition? names values = some x := by
  have hoperands : (y.placeholders.map Operand.value).mapM (Operand.value? values) =
      some x.values := by
    rw [← h.values]
    refine mapM_of_forall₂ ?_
    rw [Clause.placeholders, List.map_map, List.forall₂_map_left_iff, List.forall₂_map_right_iff,
      List.forall₂_same]
    exact hvalues
  simp [Clause.formula, Formula.condition?, h.path.path? hnames, hoperands, h.operator]

end LookedUp

/-! ### Generated expressions -/

namespace Compiler

/-- The clauses of regular conditions read one by one. -/
theorem isPart_of_renders {c : Compiler} {xs : List Condition} {ys : List Clause}
    (h : List.Forall₂ (Clause.Renders c) xs ys) (hxs : ∀ x ∈ xs, x.IsRegular) :
    List.Forall₂ IsPart (ys.map Clause.text) (ys.map Clause.formula) := by
  rw [List.forall₂_map_left_iff, List.forall₂_map_right_iff, List.forall₂_same]
  intro y hy
  obtain ⟨x, hx, hxy⟩ := exists_left_of_forall₂ h hy
  exact Clause.isPart hxy (hxs x hx)

/-- What clauses state if their placeholders are looked up. -/
theorem mapM_condition? {c : Compiler} {xs : List Condition} {ys : List Clause}
    (h : List.Forall₂ (Clause.Renders c) xs ys) {names : Dict String} {values : Dict Value}
    (hnames : ∀ y ∈ ys, ∀ s ∈ y.path, names.get? s.placeholder = some s.name)
    (hvalues : ∀ y ∈ ys, ∀ o ∈ y.operands, values.get? o.1 = some o.2) :
    (ys.map Clause.formula).mapM (Formula.condition? names values) = some xs := by
  have hall : List.Forall₂ (fun y x => y ∈ ys ∧ Clause.Renders c x y) ys xs :=
    (List.forall₂_and_left _ _).2 ⟨fun y hy => hy, h.flip⟩
  refine mapM_of_forall₂ (List.forall₂_map_left_iff.2 (hall.imp ?_))
  rintro y x ⟨hy, hxy⟩
  exact hxy.condition? (hnames y hy) (hvalues y hy)

/-- **The conjunction of regular conditions is read back** with any dictionaries that show what
its own do. -/
theorem conditions_readBack {c : Compiler} {xs : List Condition} {e : Expression}
    (h : (c.conditions xs).1 = some e) (hxs : ∀ x ∈ xs, x.IsRegular) {names : Dict String}
    {values : Dict Value} (hnames : e.names.Within names) (hvalues : e.values.Within values) :
    conditions? names values e.text = some xs := by
  obtain ⟨-, hrenders, hoperands⟩ := c.clauses_spec xs
  unfold conditions at h
  split at h
  · cases h
  · next hempty =>
      cases h
      have hne : (c.clauses xs).1.map Clause.text ≠ [] := by
        intro hnil
        rw [List.map_eq_nil_iff.1 hnil, List.forall₂_nil_right_iff] at hrenders
        exact hempty (List.isEmpty_iff.2 hrenders)
      obtain ⟨f, hf, hconjuncts⟩ := formula?_intercalate (isPart_of_renders hrenders hxs) hne
      have hclauses : f.conjuncts = (c.clauses xs).1.map Clause.formula := by
        rw [hconjuncts, List.flatMap_map]
        exact List.flatMap_pure_eq_map _ _
      rw [conditions?, hf, Option.bind_eq_bind, Option.bind_some, hclauses]
      refine mapM_condition? hrenders (fun y hy s hs => hnames _ _ ?_)
        fun y hy o ho => hvalues _ _ ?_
      · -- every name was issued by the same compiler, so the dictionary has one meaning for it
        have hget := get?_names_of_placed (c.clauses_names xs) y.path (List.mem_map_of_mem hy) s hs
        rwa [List.flatMap_map] at hget
      · have hmem := List.mem_flatMap.2 ⟨y, hy, ho⟩
        rw [hoperands] at hmem ⊢
        exact get?_numbered hmem

/-- **The list of some document paths is read back** with any dictionary that shows what its own
does. -/
theorem projection_readBack {c : Compiler} {paths : List String} {e : Expression}
    (h : (c.projection paths).1 = some e) (hpaths : ∀ path ∈ paths, isDocumentPath path = true)
    {names : Dict String} (hnames : e.names.Within names) :
    paths? names e.text = some paths := by
  obtain ⟨-, hplaced⟩ := c.placeAll_spec paths
  unfold projection at h
  split at h
  · cases h
  · next hempty =>
      cases h
      have hne : (c.placeAll paths).1.map PlacedPath.text ≠ [] := by
        intro hnil
        rw [List.map_eq_nil_iff.1 hnil, List.forall₂_nil_right_iff] at hplaced
        exact hempty (List.isEmpty_iff.2 hplaced)
      have hspells : List.Forall₂ (fun text x => Spells text [.operand x])
          ((c.placeAll paths).1.map PlacedPath.text)
          ((c.placeAll paths).1.map fun p => .path p.steps) := by
        rw [List.forall₂_map_left_iff, List.forall₂_map_right_iff, List.forall₂_same]
        intro p hp
        obtain ⟨path, hpath, hpp⟩ := exists_left_of_forall₂ hplaced hp
        exact PlacedPath.spells_text (hpp.regular (hpaths path hpath)) hpp.ne_nil
      have hissued : ∀ p ∈ (c.placeAll paths).1,
          ∀ s ∈ p, (c.placeAll paths).2.Names s.placeholder s.name := by
        intro p hp
        obtain ⟨path, -, hpp⟩ := exists_left_of_forall₂ hplaced hp
        exact hpp.names
      have hall : List.Forall₂ (fun p path => p ∈ (c.placeAll paths).1 ∧
          (c.placeAll paths).2.Placed path p) (c.placeAll paths).1 paths :=
        (List.forall₂_and_left _ _).2 ⟨fun p hp => hp, hplaced.flip⟩
      rw [paths?, operands?_intercalate hspells hne, Option.bind_eq_bind, Option.bind_some]
      refine mapM_of_forall₂ (List.forall₂_map_left_iff.2 (hall.imp ?_))
      rintro p path ⟨hp, hpp⟩
      exact hpp.path? fun s hs => hnames _ _ (get?_names_of_placed hissued p hp s hs)

end Compiler

end Keyspace
