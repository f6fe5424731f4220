import Keyspace.Condition.Operator
import Keyspace.Proofs.Expression.Path
import Keyspace.Proofs.Grammar.Lexemes
import Mathlib.Data.List.Forall2
/-!
# Formulas

The grammar of conditions: an operand is compared with another one, lies between two, is one of
several, or a function is applied to operands; conditions are negated, put in parentheses and
joined by `AND` and `OR`.  `NOT` binds closer than `AND`, and `AND` closer than `OR`.  A list of
paths is made of operands with commas between them.

A formula is read symbol by symbol.  The reader keeps what stands open around the place it has
come to: parentheses, negations, and the left sides of `AND` and `OR`.

Main definitions:

* `Keyspace.Grammar.Operand`, `Keyspace.Grammar.Symbol`, `Keyspace.Grammar.symbols?` — operands and
  symbols, and the symbols of a text;
* `Keyspace.Grammar.Formula` — the formulas;
* `Keyspace.Grammar.Reader`, `Keyspace.Grammar.Place.next?`, `Keyspace.Grammar.Reader.step` — the
  reader, and what a symbol does;
* `Keyspace.Grammar.formula?` — **the formula of a text**;
* `Keyspace.Grammar.operands?` — the operands of a list;
* `Keyspace.Grammar.conjoined?` — what several texts say together.

Main results:

* `Keyspace.Grammar.Spells.around` — the symbols of a text that is put together;
* `Keyspace.Grammar.IsPart.group` — parentheses make a condition of a formula;
* `Keyspace.Grammar.formula?_intercalate`, `Keyspace.Grammar.formula?_of_conjoined?`,
  `Keyspace.Grammar.operands?_intercalate` — **what conditions, formulas and operands make up**
  when they are joined.
-/

set_option autoImplicit false

namespace Keyspace.Grammar

/-! ### Operands -/

/-- What a condition is about, as it stands in the text. -/
inductive Operand where
  | path (steps : List PathStep)
  | value (placeholder : String)
  /-- `size(path)`. -/
  | size (steps : List PathStep)
  deriving DecidableEq, Repr

/-- Whether a step of a path is a placeholder or a name that needs none, with list indexes. -/
def isStep (s : PathStep) : Bool :=
  spellsIndexes .outside s.indexes.toList &&
    match s.name.toList with
    | c :: word =>
      word.all Placeholder.isWordChar && (if c = '#' then !word.isEmpty else c.isAlpha)
    | [] => false

/-- The operand of a word. -/
def Operand.read? (cs : List Char) : Option Operand :=
  match cs with
  | ':' :: word =>
    if !word.isEmpty && word.all Placeholder.isWordChar then some (.value (String.ofList cs))
    else none
  | cs =>
    let steps := (splitPoints cs).map PathStep.ofChars
    if steps.all isStep then some (.path steps) else none

/-- A word that begins with the sign of a name is a path. -/
theorem Operand.read?_of_name {word : List Char} {steps : List PathStep}
    (hsteps : (splitPoints ('#' :: word)).map PathStep.ofChars = steps)
    (h : steps.all isStep = true) : Operand.read? ('#' :: word) = some (.path steps) := by
  subst hsteps
  exact if_pos h

/-- A word that begins with the sign of a value is a value. -/
theorem Operand.read?_of_value {word : List Char} (hne : word ≠ [])
    (h : word.all Placeholder.isWordChar = true) :
    Operand.read? (':' :: word) = some (.value (String.ofList (':' :: word))) := by
  have hempty : word.isEmpty = false := List.isEmpty_eq_false_iff.2 hne
  simp [Operand.read?, hempty, h]

/-! ### Symbols -/

/-- What an operand is tested for. -/
inductive Test where
  | operator (op : Operator)
  | attributeType
  deriving DecidableEq, Repr

/-- A symbol of an expression. -/
inductive Symbol where
  | operand (x : Operand)
  | comparison (op : Operator)
  | function (t : Test)
  | size
  | and
  | or
  | not
  | between
  | oneOf
  | opening
  | closing
  | comma
  deriving DecidableEq, Repr

namespace Symbol

/-- The signs of comparison. -/
def comparisons : List (String × Symbol) :=
  [("=", .comparison .eq), ("<>", .comparison .ne), ("<", .comparison .lt),
    ("<=", .comparison .le), (">", .comparison .gt), (">=", .comparison .ge)]

/-- The functions. -/
def functions : List (String × Symbol) :=
  [("attribute_exists", .function (.operator .attributeExists)),
    ("attribute_not_exists", .function (.operator .attributeNotExists)),
    ("attribute_type", .function .attributeType),
    ("begins_with", .function (.operator .beginsWith)),
    ("contains", .function (.operator .contains)), ("size", .size)]

/-- The keywords, in upper case. -/
def keywords : List (String × Symbol) :=
  [("AND", .and), ("OR", .or), ("NOT", .not), ("BETWEEN", .between), ("IN", .oneOf)]

/-- The symbol of a word.  Keywords may be written in any case; a placeholder is none. -/
def ofWord? (cs : List Char) : Option Symbol :=
  if cs.head?.any Placeholder.isSign then (Operand.read? cs).map .operand
  else
    (functions.lookup (String.ofList cs)).or <|
      (keywords.lookup (String.ofList (cs.map Char.toUpper))).or <|
        (Operand.read? cs).map .operand

/-- A placeholder is an operand. -/
theorem ofWord?_of_isSign {c : Char} (h : Placeholder.isSign c = true) (cs : List Char) :
    ofWord? (c :: cs) = (Operand.read? (c :: cs)).map .operand := if_pos h

/-- The symbol of a lexeme. -/
def ofLexeme? : Lexeme → Option Symbol
  | .word cs => ofWord? cs
  | .sign cs => comparisons.lookup (String.ofList cs)
  | .mark c =>
    if c = '(' then some .opening
    else if c = ')' then some .closing
    else if c = ',' then some .comma
    else none

end Symbol

/-- **The symbols of a text.** -/
def symbols? (text : String) : Option (List Symbol) := (scan text).mapM Symbol.ofLexeme?

/-! ### Formulas -/

/-- **What an expression demands of an item.** -/
inductive Formula where
  | test (t : Test) (subject : Operand) (operands : List Operand)
  | not (f : Formula)
  | and (f g : Formula)
  | or (f g : Formula)
  deriving DecidableEq, Repr

/-- The formulas that all have to hold. -/
def Formula.conjuncts : Formula → List Formula
  | .and f g => f.conjuncts ++ g.conjuncts
  | f => [f]

/-- The number of operands that a function takes besides its path. -/
def Test.arguments : Test → Nat
  | .operator .attributeExists | .operator .attributeNotExists => 0
  | _ => 1

/-- A function applied to some operands, the first of which is a path. -/
def Test.formulaOf? (t : Test) : List Operand → Option Formula
  | .path steps :: rest =>
    if rest.length = t.arguments then some (.test t (.path steps) rest) else none
  | _ => none

/-! ### The reader -/

/-- What an operand is read for. -/
inductive Hole where
  | left
  | right (op : Operator) (x : Operand)
  | low (x : Operand)
  | high (x least : Operand)
  | choice (x : Operand) (sofar : List Operand)
  | argument (t : Test) (sofar : List Operand)

/-- Where the reader has come to. -/
inductive Place where
  /-- A condition is due. -/
  | condition
  /-- An operand is due. -/
  | operand (h : Hole)
  /-- Behind `size`, behind its parenthesis, and behind the path in it. -/
  | sizing (h : Hole)
  | measure (h : Hole)
  | measured (h : Hole) (steps : List PathStep)
  /-- Behind the first operand of a condition. -/
  | left (x : Operand)
  /-- Behind the lower bound. -/
  | bounded (x least : Operand)
  /-- Behind `IN`, and behind one of the choices. -/
  | choices (x : Operand)
  | chosen (x : Operand) (sofar : List Operand)
  /-- Behind the name of a function, and behind one of its operands. -/
  | calling (t : Test)
  | given (t : Test) (sofar : List Operand)
  /-- Behind a condition. -/
  | complete (f : Formula)

/-- What stands open around a place. -/
inductive Pending where
  | group
  | negation
  | both (f : Formula)
  | either (f : Formula)

/-- **A reader of formulas**: where it has come to, and what stands open there. -/
structure Reader where
  frames : List Pending
  place : Place

/-- The place behind an operand. -/
def Hole.fill : Hole → Operand → Place
  | .left, x => .left x
  | .right op x, y => .complete (.test (.operator op) x [y])
  | .low x, y => .bounded x y
  | .high x least, y => .complete (.test (.operator .between) x [least, y])
  | .choice x sofar, y => .chosen x (sofar ++ [y])
  | .argument t sofar, y => .given t (sofar ++ [y])

/-- The place behind a symbol that opens and completes nothing. -/
def Place.next? : Place → Symbol → Option Place
  | .condition, .function t => some (.calling t)
  | .condition, .size => some (.sizing .left)
  | .condition, .operand x => some (Hole.left.fill x)
  | .operand h, .operand x => some (h.fill x)
  | .operand h, .size => some (.sizing h)
  | .sizing h, .opening => some (.measure h)
  | .measure h, .operand (.path steps) => some (.measured h steps)
  | .measured h steps, .closing => some (h.fill (.size steps))
  | .left x, .comparison op => some (.operand (.right op x))
  | .left x, .between => some (.operand (.low x))
  | .left x, .oneOf => some (.choices x)
  | .bounded x least, .and => some (.operand (.high x least))
  | .choices x, .opening => some (.operand (.choice x []))
  | .chosen x sofar, .comma => some (.operand (.choice x sofar))
  | .chosen x sofar, .closing => some (.complete (.test (.operator .oneOf) x sofar))
  | .calling t, .opening => some (.operand (.argument t []))
  | .given t sofar, .comma => some (.operand (.argument t sofar))
  | .given t sofar, .closing => (t.formulaOf? sofar).map .complete
  | _, _ => none

/-- A formula with what it completes.  The left side of `OR` is waited for unless `loose` says
that nothing closer follows. -/
def settle (loose : Bool) (f : Formula) : List Pending → Formula × List Pending
  | .negation :: rest => settle loose (.not f) rest
  | .both g :: rest => settle loose (.and g f) rest
  | .either g :: rest => if loose then settle loose (.or g f) rest else (f, .either g :: rest)
  | frames => (f, frames)

namespace Reader

/-- The reader at the begin of a text. -/
def start : Reader := ⟨[], .condition⟩

/-- **What a symbol does.** -/
def step (r : Reader) (s : Symbol) : Option Reader :=
  match r.place, s with
  | .condition, .not => some ⟨.negation :: r.frames, .condition⟩
  | .condition, .opening => some ⟨.group :: r.frames, .condition⟩
  | .complete f, .and =>
    let (f, frames) := settle false f r.frames
    some ⟨.both f :: frames, .condition⟩
  | .complete f, .or =>
    let (f, frames) := settle true f r.frames
    some ⟨.either f :: frames, .condition⟩
  | .complete f, .closing =>
    match settle true f r.frames with
    | (f, .group :: frames) => some ⟨frames, .complete f⟩
    | _ => none
  | place, s => (place.next? s).map fun place => ⟨r.frames, place⟩

/-- The reader behind some symbols. -/
def run (r : Reader) (ss : List Symbol) : Option Reader := ss.foldlM step r

/-- The formula that is read when the text ends. -/
def finish (r : Reader) : Option Formula :=
  match r.place with
  | .complete f =>
    match settle true f r.frames with
    | (f, []) => some f
    | _ => none
  | _ => none

theorem run_append (r : Reader) (xs ys : List Symbol) :
    r.run (xs ++ ys) = (r.run xs).bind fun r => r.run ys := by
  simp only [run, List.foldlM_append]
  rfl

end Reader

/-- **The formula of a text.** -/
def formula? (text : String) : Option Formula := do
  let ss ← symbols? text
  let r ← Reader.start.run ss
  r.finish

/-- The operands with commas between them. -/
def listed? : List Symbol → Option (List Operand)
  | [.operand x] => some [x]
  | .operand x :: .comma :: rest => (listed? rest).map (x :: ·)
  | _ => none

/-- **The operands of a list.** -/
def operands? (text : String) : Option (List Operand) := (symbols? text).bind listed?

/-- `NOT` binds closer than `AND`, which binds closer than `OR`; the `AND` of `BETWEEN` joins no
conditions. -/
example : formula? "NOT #a = :x OR size(b[0].c) BETWEEN :y AND :z and contains(d, :x)" =
    some (.or (.not (.test (.operator .eq) (.path [⟨"#a", ""⟩]) [.value ":x"]))
      (.and
        (.test (.operator .between) (.size [⟨"b", "[0]"⟩, ⟨"c", ""⟩]) [.value ":y", .value ":z"])
        (.test (.operator .contains) (.path [⟨"d", ""⟩]) [.value ":x"]))) := by
  decide

/-! ### Texts that are put together -/

/-- A text spells some symbols. -/
def Spells (text : String) (ss : List Symbol) : Prop := symbols? text = some ss

instance (text : String) (ss : List Symbol) : Decidable (Spells text ss) :=
  inferInstanceAs (Decidable (symbols? text = some ss))

/-- **The symbols of a text that is put together** around a piece with marks at its ends. -/
theorem Spells.around {piece s t : String} {ps ss ts : List Symbol} (hpiece : Spells piece ps)
    (hs : Spells s ss) (ht : Spells t ts) (hedged : isEdged piece = true) :
    Spells (s ++ piece ++ t) (ss ++ ps ++ ts) := SpellsBy.around hpiece hs ht hedged

/-- A piece with marks at its ends, and a text behind it. -/
theorem Spells.before {piece t : String} {ps ts : List Symbol} (hpiece : Spells piece ps)
    (ht : Spells t ts) (hedged : isEdged piece = true) : Spells (piece ++ t) (ps ++ ts) :=
  SpellsBy.before hpiece ht hedged

/-- A text, and a piece with marks at its ends behind it. -/
theorem Spells.behind {piece s : String} {ps ss : List Symbol} (hpiece : Spells piece ps)
    (hs : Spells s ss) (hedged : isEdged piece = true) : Spells (s ++ piece) (ss ++ ps) :=
  SpellsBy.behind hpiece hs hedged

/-- Texts with a piece between them. -/
theorem Spells.intercalate {piece : String} {ps : List Symbol} (hpiece : Spells piece ps)
    (hedged : isEdged piece = true) {texts : List String} {sss : List (List Symbol)}
    (h : List.Forall₂ Spells texts sss) :
    Spells (piece.intercalate texts) (ps.intercalate sss) := SpellsBy.intercalate hpiece hedged h

/-- The operands of a list are found between the commas. -/
theorem listed?_intercalate {xs : List Operand} (hne : xs ≠ []) :
    listed? ([Symbol.comma].intercalate (xs.map fun x => [.operand x])) = some xs := by
  induction xs with
  | nil => exact absurd rfl hne
  | cons x xs ih =>
      cases xs with
      | nil => rfl
      | cons y ys =>
          rw [List.map_cons, List.map_cons, List.intercalate_cons_cons,
            ← List.map_cons (f := fun x => [Symbol.operand x])]
          show (listed? ([Symbol.comma].intercalate _)).map (x :: ·) = _
          rw [ih (List.cons_ne_nil _ _), Option.map_some]

/-- **Operands with commas between them** make up a list. -/
theorem operands?_intercalate {texts : List String} {xs : List Operand}
    (h : List.Forall₂ (fun text x => Spells text [.operand x]) texts xs) (hne : texts ≠ []) :
    operands? (", ".intercalate texts) = some xs := by
  have hcomma : Spells ", " [.comma] := by decide
  have hspells := hcomma.intercalate (by decide) (List.forall₂_map_right_iff.2 h)
  have hxs : xs ≠ [] := by
    rintro rfl
    exact hne (List.forall₂_nil_right_iff.1 h)
  rw [operands?, hspells, Option.bind_some, listed?_intercalate hxs]

/-! ### Conditions that stand by themselves -/

/-- Some symbols make up a condition, whatever stands open around it. -/
def Reads (ss : List Symbol) (f : Formula) : Prop :=
  ∀ frames : List Pending, (⟨frames, .condition⟩ : Reader).run ss = some ⟨frames, .complete f⟩

/-- A text that makes up a condition, whatever stands open around it. -/
def IsPart (text : String) (f : Formula) : Prop := ∃ ss, Spells text ss ∧ Reads ss f

theorem settle_append_group (loose : Bool) (f : Formula) (frames rest : List Pending) :
    settle loose f (frames ++ .group :: rest) =
      ((settle loose f frames).1, (settle loose f frames).2 ++ .group :: rest) := by
  induction frames generalizing f with
  | nil => rfl
  | cons frame frames ih =>
      cases frame with
      | group => rfl
      | negation => exact ih (.not f)
      | both g => exact ih (.and g f)
      | either g =>
          cases loose with
          | true => exact ih (.or g f)
          | false => rfl

namespace Reader

/-- A reader inside an open parenthesis. -/
def inside (rest : List Pending) (r : Reader) : Reader := ⟨r.frames ++ .group :: rest, r.place⟩

/-- A reader that goes on does the same inside of a parenthesis. -/
theorem step_inside {r r' : Reader} {s : Symbol} (h : r.step s = some r') (rest : List Pending) :
    (r.inside rest).step s = some (r'.inside rest) := by
  obtain ⟨frames, place⟩ := r
  unfold step inside at *
  simp only at h ⊢
  -- only where a condition is complete it matters what stands open
  split at h
  · cases h
    rfl
  · cases h
    rfl
  · cases h
    rw [settle_append_group]
    rfl
  · cases h
    rw [settle_append_group]
    rfl
  · next f =>
      rw [settle_append_group]
      rcases hsettle : settle true f frames with ⟨g, more⟩
      rw [hsettle] at h
      cases more with
      | nil => cases h
      | cons frame more =>
          cases frame with
          | group => cases h; rfl
          | _ => cases h
  · obtain ⟨place', hplace, rfl⟩ := Option.map_eq_some_iff.1 h
    rw [hplace]
    rfl

theorem run_inside {r r' : Reader} {ss : List Symbol} (h : r.run ss = some r')
    (rest : List Pending) : (r.inside rest).run ss = some (r'.inside rest) := by
  induction ss generalizing r with
  | nil => cases h; rfl
  | cons s ss ih =>
      obtain ⟨r₁, hstep, hrun⟩ := Option.bind_eq_some_iff.1 h
      exact Option.bind_eq_some_iff.2 ⟨r₁.inside rest, step_inside hstep rest, ih hrun⟩

end Reader

/-- **Parentheses make a condition of a formula.** -/
theorem IsPart.group {text : String} {f : Formula} (h : formula? text = some f) :
    IsPart ("(" ++ text ++ ")") f := by
  obtain ⟨ss, hss, h⟩ := Option.bind_eq_some_iff.1 h
  obtain ⟨r, hrun, hfinish⟩ := Option.bind_eq_some_iff.1 h
  have hopening : Spells "(" [.opening] := by decide
  have hclosing : Spells ")" [.closing] := by decide
  refine ⟨[.opening] ++ ss ++ [.closing],
    hclosing.behind (hopening.before hss (by decide)) (by decide), fun frames => ?_⟩
  -- the text reads inside of the parenthesis as it does by itself, up to the formula `f`
  obtain ⟨g, hplace, hsettle⟩ : ∃ g, r.place = .complete g ∧ settle true g r.frames = (f, []) := by
    unfold Reader.finish at hfinish
    split at hfinish
    · next g hplace =>
        split at hfinish
        · next hsettle =>
            cases hfinish
            exact ⟨g, hplace, hsettle⟩
        · cases hfinish
    · cases hfinish
  have hopen : (⟨frames, .condition⟩ : Reader).run [.opening] =
      some (Reader.start.inside frames) := rfl
  have hclose : (r.inside frames).run [.closing] = some ⟨frames, .complete f⟩ := by
    simp only [Reader.run, List.foldlM_cons, List.foldlM_nil, Reader.step, Reader.inside, hplace,
      settle_append_group, hsettle]
    rfl
  rw [Reader.run_append, Reader.run_append, hopen]
  simp only [Option.bind_some]
  rw [Reader.run_inside hrun, Option.bind_some, hclose]

/-! ### Conjunctions -/

/-- What is left of an `AND`, with the conditions behind it. -/
theorem run_conjunction {sss : List (List Symbol)} {fs : List Formula}
    (h : List.Forall₂ Reads sss fs) (hne : sss ≠ []) (prior : Option Formula) :
    ∃ r f, (⟨prior.toList.map .both, .condition⟩ : Reader).run
        ([Symbol.and].intercalate sss) = some r ∧
      r.finish = some f ∧
      f.conjuncts = prior.toList.flatMap Formula.conjuncts ++ fs.flatMap Formula.conjuncts := by
  induction h generalizing prior with
  | nil => exact absurd rfl hne
  | @cons ss f sss fs hf hrest ih =>
      have hfirst := hf (prior.toList.map .both)
      -- what is left of the condition joins it before anything follows
      let left : Formula := match prior with
        | some g => .and g f
        | none => f
      have hleft : ∀ loose, settle loose f (prior.toList.map .both) = (left, []) := by
        intro loose
        cases prior <;> rfl
      have hconjuncts : left.conjuncts =
          prior.toList.flatMap Formula.conjuncts ++ f.conjuncts := by
        cases prior <;> simp [left, Formula.conjuncts]
      cases hrest with
      | nil =>
          refine ⟨_, left, by simpa using hfirst, ?_, ?_⟩
          · simp [Reader.finish, hleft]
          · simp [hconjuncts]
      | @cons us g sss fs hg hrest =>
          obtain ⟨r, h, hrun, hfinish, hall⟩ := ih (List.cons_ne_nil _ _) (some left)
          refine ⟨r, h, ?_, hfinish, ?_⟩
          · rw [List.intercalate_cons_cons, Reader.run_append, Reader.run_append, hfirst]
            simp only [Option.bind_some]
            rw [show (⟨prior.toList.map .both, .complete f⟩ : Reader).run [.and] =
              some ⟨[.both left], .condition⟩ by simp [Reader.run, Reader.step, hleft]]
            exact hrun
          · rw [hall]
            simp [hconjuncts]

/-- **Conditions that are joined by `AND`** make up a formula with them as its conjuncts. -/
theorem formula?_intercalate {texts : List String} {fs : List Formula}
    (h : List.Forall₂ IsPart texts fs) (hne : texts ≠ []) :
    ∃ f, formula? (" AND ".intercalate texts) = some f ∧
      f.conjuncts = fs.flatMap Formula.conjuncts := by
  obtain ⟨sss, hspells, hreads⟩ := exists_between_of_forall₂ h
  have hand : Spells " AND " [.and] := by decide
  have hsymbols := hand.intercalate (by decide) hspells
  have hsss : sss ≠ [] := by
    rintro rfl
    cases hspells
    exact hne rfl
  obtain ⟨r, f, hrun, hfinish, hconjuncts⟩ := run_conjunction hreads hsss none
  refine ⟨f, ?_, by simpa using hconjuncts⟩
  unfold formula?
  rw [hsymbols]
  show (Reader.start.run ([Symbol.and].intercalate sss)).bind Reader.finish = _
  rw [show Reader.start.run ([Symbol.and].intercalate sss) = some r from hrun, Option.bind_some,
    hfinish]

/-- What several texts say together: one stands as it is, several stand in parentheses with `AND`
between them. -/
def conjoined? : List String → Option String
  | [] => none
  | [text] => some text
  | texts => some (" AND ".intercalate (texts.map fun text => "(" ++ text ++ ")"))

/-- **Formulas that are conjoined** make up a formula with all their conjuncts. -/
theorem formula?_of_conjoined? {texts : List String} {fs : List Formula} {text : String}
    (h : List.Forall₂ (fun t f => formula? t = some f) texts fs)
    (htext : conjoined? texts = some text) :
    ∃ f, formula? text = some f ∧ f.conjuncts = fs.flatMap Formula.conjuncts := by
  have hparts : List.Forall₂ IsPart (texts.map fun t => "(" ++ t ++ ")") fs :=
    List.forall₂_map_left_iff.2 (h.imp fun _ _ => IsPart.group)
  cases h with
  | nil => cases htext
  | cons hfirst hrest =>
      cases hrest with
      | nil =>
          cases htext
          exact ⟨_, hfirst, (List.append_nil _).symm⟩
      | cons hnext hmore =>
          cases htext
          exact formula?_intercalate hparts (List.cons_ne_nil _ _)

end Keyspace.Grammar
