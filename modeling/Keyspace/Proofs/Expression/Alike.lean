import Keyspace.Proofs.Expression.Compiled
import Keyspace.Proofs.Plan.Positions
/-!
# Expressions of the same form

What is written of an operand is its placeholder.  So conditions and changes of the same form have
the same expressions, text by text and name by name, and only their values differ: an operand stands
for an operand.

Main definitions:

* `Keyspace.Dict.Alike` — dictionaries with the same names;
* `Keyspace.Expression.Alike`, `Keyspace.Expressions.Alike` — expressions that differ in values
  only;
* `Keyspace.Change.SameForm` — changes that differ in their operands only.

Main results:

* `Keyspace.Dict.Alike.union` — united dictionaries with the same names have the same names;
* `Keyspace.Compiler.conditions_alike`, `Keyspace.Compiler.update_alike` — **what is generated from
  the same form is alike**;
* `Keyspace.Compiler.merge_alike` — **and so it is with fragments**.
-/

set_option autoImplicit false

namespace Keyspace

/-! ### Dictionaries with the same names -/

namespace Dict

variable {α : Type} {S : String → α → α → Prop}

/-- **Dictionaries with the same names**, whose values are related name by name. -/
def Alike (S : String → α → α → Prop) (d d' : Dict α) : Prop :=
  List.Forall₂ (fun e e' => e.1 = e'.1 ∧ S e.1 e.2 e'.2) d d'

theorem Alike.refl {d : Dict α} (h : ∀ e ∈ d, S e.1 e.2 e.2) : d.Alike S d :=
  List.forall₂_same.2 fun e he => ⟨rfl, h e he⟩

theorem Alike.names_eq {d d' : Dict α} (h : d.Alike S d') : d.names = d'.names := by
  unfold Alike at h
  induction h with
  | nil => rfl
  | cons he _ ih =>
      unfold names at ih ⊢
      rw [List.map_cons, List.map_cons, he.1, ih]

theorem Alike.insert {d d' : Dict α} (h : d.Alike S d') (name : String) {v v' : α}
    (hv : S name v v') : Alike S (Dict.insert name v d) (Dict.insert name v' d') := by
  unfold Alike at h
  induction h with
  | nil => exact .cons ⟨rfl, hv⟩ .nil
  | @cons e e' rest rest' he hrest ih =>
      obtain ⟨n, w⟩ := e
      obtain ⟨n', w'⟩ := e'
      obtain ⟨rfl, hw⟩ := he
      -- where an entry is put is a matter of the names alone
      unfold Dict.insert
      split
      · exact .cons ⟨rfl, hv⟩ (.cons ⟨rfl, hw⟩ hrest)
      · split
        · exact .cons ⟨rfl, hv⟩ hrest
        · exact .cons ⟨rfl, hw⟩ ih

/-- **United dictionaries** with the same names have the same names. -/
theorem Alike.union {d d' more more' : Dict α} (h : d.Alike S d') (hmore : more.Alike S more') :
    (d.union more).Alike S (d'.union more') := by
  unfold Alike at hmore
  induction hmore generalizing d d' with
  | nil => exact h
  | @cons e e' rest rest' he _ ih =>
      rw [union_cons, union_cons, ← he.1]
      exact ih (h.insert e.1 he.2)

theorem Alike.ofList {entries entries' : Dict α} (h : entries.Alike S entries') :
    (Dict.ofList entries).Alike S (Dict.ofList entries') := Alike.union (d := []) .nil h

theorem Alike.get? {d d' : Dict α} (h : d.Alike S d') (name : String) :
    Option.Rel (S name) (d.get? name) (d'.get? name) := by
  unfold Alike at h
  induction h with
  | nil => exact .none
  | @cons e e' rest rest' he _ ih =>
      obtain ⟨n, w⟩ := e
      obtain ⟨n', w'⟩ := e'
      obtain ⟨rfl, hw⟩ := he
      rw [get?_cons, get?_cons]
      split
      · next hname => exact .some (hname ▸ hw)
      · exact ih

end Dict

/-! ### Expressions -/

/-- **Expressions that differ in their values only.** -/
structure Expression.Alike (S : String → Value → Value → Prop) (e e' : Expression) : Prop where
  text : e.text = e'.text
  names : e.names = e'.names
  values : e.values.Alike S e'.values

/-- **The expressions of two requests that differ in their values only.** -/
structure Expressions.Alike (S : String → Value → Value → Prop) (e e' : Expressions) : Prop where
  key : Option.Rel (Expression.Alike S) e.key e'.key
  filter : Option.Rel (Expression.Alike S) e.filter e'.filter
  projection : Option.Rel (Expression.Alike S) e.projection e'.projection
  update : Option.Rel (Expression.Alike S) e.update e'.update
  condition : Option.Rel (Expression.Alike S) e.condition e'.condition

variable {S : String → Value → Value → Prop}

theorem map_text_alike {x x' : Option Expression} (h : Option.Rel (Expression.Alike S) x x') :
    x.map Expression.text = x'.map Expression.text := by
  cases h with
  | none => rfl
  | some h => rw [Option.map_some, Option.map_some, h.text]

namespace Expressions.Alike

variable {e e' : Expressions}

theorem present (h : e.Alike S e') :
    List.Forall₂ (Expression.Alike S) e.present e'.present := by
  unfold Expressions.present
  refine List.rel_filterMap (R := Option.Rel (Expression.Alike S)) (fun _ _ hx => hx) ?_
  exact .cons h.key (.cons h.filter (.cons h.projection (.cons h.update (.cons h.condition .nil))))

end Expressions.Alike

/-- Expressions that are alike have the same names when they are united. -/
theorem unite_names_alike {xs xs' : List Expression} (h : List.Forall₂ (Expression.Alike S) xs xs')
    (d : Dict String) : xs.foldl (fun d x => d.union x.names) d =
      xs'.foldl (fun d x => d.union x.names) d := by
  induction h generalizing d with
  | nil => rfl
  | cons hx _ ih => rw [List.foldl_cons, List.foldl_cons, hx.names, ih]

theorem unite_values_alike {xs xs' : List Expression}
    (h : List.Forall₂ (Expression.Alike S) xs xs') {d d' : Dict Value} (hd : d.Alike S d') :
    Dict.Alike S (xs.foldl (fun d x => d.union x.values) d)
      (xs'.foldl (fun d x => d.union x.values) d') := by
  induction h generalizing d d' with
  | nil => exact hd
  | cons hx _ ih => exact ih (hd.union hx.values)

namespace Expressions.Alike

variable {e e' : Expressions}

/-- **The names of alike expressions are the same.** -/
theorem names_eq (h : e.Alike S e') : e.names = e'.names := unite_names_alike h.present _

theorem values_alike (h : e.Alike S e') : e.values.Alike S e'.values :=
  unite_values_alike h.present .nil

end Expressions.Alike

/-! ### Generated expressions -/

namespace Compiler

theorem map_fst_numbered (start : Nat) (vs : List Value) :
    (numbered start vs).map Prod.fst = (List.range' start vs.length).map Placeholder.ofValue := by
  rw [numbered, List.map_map, ← List.zipIdx_map_snd, List.map_map]
  rfl

/-- Operands with the same numbers. -/
theorem numbered_alike {start : Nat} {vs vs' : List Value} (hlength : vs.length = vs'.length)
    (hS : ∀ n v v', vs[n]? = some v → vs'[n]? = some v' →
      S (Placeholder.ofValue (start + n)) v v') :
    Dict.Alike S (numbered start vs) (numbered start vs') := by
  induction vs generalizing start vs' with
  | nil =>
      rw [List.length_eq_zero_iff.1 hlength.symm]
      exact .nil
  | cons v rest ih =>
      cases vs' with
      | nil => cases hlength
      | cons v' rest' =>
          rw [numbered_cons, numbered_cons]
          refine .cons ⟨rfl, hS 0 v v' rfl rfl⟩ (ih (Nat.succ.inj hlength) fun n w w' hw hw' => ?_)
          rw [Nat.add_assoc, Nat.add_comm 1 n]
          exact hS (n + 1) w w' hw hw'

end Compiler

/-- Clauses that differ in the values of their operands only. -/
structure Clause.Alike (y y' : Clause) : Prop where
  operator : y.operator = y'.operator
  path : y.path = y'.path
  placeholders : y.placeholders = y'.placeholders

theorem Clause.Alike.text {y y' : Clause} (h : y.Alike y') : y.text = y'.text := by
  unfold Clause.text operand
  rw [h.operator, h.path, h.placeholders]

namespace Compiler

theorem clause_alike {x x' : Condition} (h : x.SameForm x') (c : Compiler) :
    (c.clause x).2 = (c.clause x').2 ∧ (c.clause x).1.Alike (c.clause x').1 := by
  simp only [clause, h.field, operands_eq, h.count, h.operator]
  refine ⟨trivial, rfl, rfl, ?_⟩
  simp only [Clause.placeholders, map_fst_numbered, h.count]

theorem clauses_alike {xs xs' : List Condition} (h : List.Forall₂ Condition.SameForm xs xs')
    (c : Compiler) : (c.clauses xs).2 = (c.clauses xs').2 ∧
      List.Forall₂ Clause.Alike (c.clauses xs).1 (c.clauses xs').1 := by
  induction h generalizing c with
  | nil => exact ⟨rfl, .nil⟩
  | @cons x x' rest rest' hx _ ih =>
      obtain ⟨hfirst, halike⟩ := clause_alike hx c
      obtain ⟨hrest, hall⟩ := ih (c.clause x).2
      simp only [clauses, ← hfirst]
      exact ⟨hrest, .cons halike hall⟩

theorem map_text_clauses {ys ys' : List Clause} (h : List.Forall₂ Clause.Alike ys ys') :
    ys.map Clause.text = ys'.map Clause.text ∧
      ys.flatMap (fun y => y.path.names) = ys'.flatMap fun y => y.path.names := by
  induction h with
  | nil => exact ⟨rfl, rfl⟩
  | cons hy _ ih =>
      simp only [List.map_cons, List.flatMap_cons, hy.text, hy.path, ih.1, ih.2]
      exact ⟨trivial, trivial⟩

theorem length_operands_alike {xs xs' : List Condition}
    (h : List.Forall₂ Condition.SameForm xs xs') :
    (xs.flatMap Condition.values).length = (xs'.flatMap Condition.values).length := by
  induction h with
  | nil => rfl
  | cons hx _ ih => simp only [List.flatMap_cons, List.length_append, hx.count, ih]

/-- **Conditions of the same form** have alike expressions, and leave the compiler alike. -/
theorem conditions_alike {xs xs' : List Condition} (h : List.Forall₂ Condition.SameForm xs xs')
    (c : Compiler)
    (hS : ∀ n v v', (xs.flatMap Condition.values)[n]? = some v →
      (xs'.flatMap Condition.values)[n]? = some v' →
        S (Placeholder.ofValue (c.operandCount + n)) v v') :
    (c.conditions xs).2 = (c.conditions xs').2 ∧
      Option.Rel (Expression.Alike S) (c.conditions xs).1 (c.conditions xs').1 := by
  obtain ⟨hcompiler, hclauses⟩ := clauses_alike h c
  obtain ⟨htexts, hnames⟩ := map_text_clauses hclauses
  have hempty : xs.isEmpty = xs'.isEmpty := by cases h <;> rfl
  unfold conditions
  rw [hempty]
  split
  · exact ⟨rfl, .none⟩
  · refine ⟨hcompiler, .some ⟨?_, ?_, Dict.Alike.ofList ?_⟩⟩
    · simp only [htexts]
    · simp only [hnames]
    · rw [(c.clauses_spec _).2.2, (c.clauses_spec _).2.2]
      exact numbered_alike (length_operands_alike h) hS

/-- A projection has no values. -/
theorem projection_alike (c : Compiler) (paths : List String) :
    Option.Rel (Expression.Alike S) (c.projection paths).1 (c.projection paths).1 := by
  unfold projection
  split
  · exact .none
  · exact .some ⟨rfl, rfl, .nil⟩

end Compiler

/-! ### Changes -/

/-- **Changes of the same form**: they differ in their operands only. -/
inductive Change.SameForm : Change → Change → Prop where
  | apply (form : ChangeForm) (path : String) (operand operand' : Value) :
      SameForm (.apply form path operand) (.apply form path operand')
  | remove (path : String) : SameForm (.remove path) (.remove path)

/-- Placed changes that differ in the values of their operands only. -/
structure PlacedChange.Alike (y y' : PlacedChange) : Prop where
  path : y.path = y'.path
  home : y.home = y'.home
  text : y.text = y'.text

theorem UpdateSection.text?_alike {ys ys' : List PlacedChange}
    (h : List.Forall₂ PlacedChange.Alike ys ys') (s : UpdateSection) :
    s.text? ys = s.text? ys' := by
  have hown : List.Forall₂ PlacedChange.Alike (ys.filter fun y => y.home = s)
      (ys'.filter fun y => y.home = s) :=
    List.rel_filter (fun y y' hy => by simp only [hy.home]) h
  have htexts : ∀ {zs zs'}, List.Forall₂ PlacedChange.Alike zs zs' →
      zs.map PlacedChange.text = zs'.map PlacedChange.text := by
    intro zs zs' hzs
    induction hzs with
    | nil => rfl
    | cons hz _ ih => rw [List.map_cons, List.map_cons, hz.text, ih]
  unfold text?
  revert hown
  generalize ys.filter (fun y => y.home = s) = zs
  generalize ys'.filter (fun y => y.home = s) = zs'
  intro hown
  cases hown with
  | nil => rfl
  | cons hz hrest =>
      have hsame := htexts (.cons hz hrest)
      show some _ = some _
      rw [hsame]

namespace Compiler

theorem change_alike {x x' : Change} (h : x.SameForm x') (c : Compiler) :
    (c.change x).2 = (c.change x').2 ∧ (c.change x).1.Alike (c.change x').1 := by
  cases h with
  | apply form path operand operand' => exact ⟨rfl, rfl, rfl, rfl⟩
  | remove path => exact ⟨rfl, rfl, rfl, rfl⟩

theorem changes_alike {xs xs' : List Change} (h : List.Forall₂ Change.SameForm xs xs')
    (c : Compiler) : (c.changes xs).2 = (c.changes xs').2 ∧
      List.Forall₂ PlacedChange.Alike (c.changes xs).1 (c.changes xs').1 := by
  induction h generalizing c with
  | nil => exact ⟨rfl, .nil⟩
  | @cons x x' rest rest' hx _ ih =>
      obtain ⟨hfirst, halike⟩ := change_alike hx c
      obtain ⟨hrest, hall⟩ := ih (c.change x).2
      simp only [changes, ← hfirst]
      exact ⟨hrest, .cons halike hall⟩

theorem length_changeOperands_alike {xs xs' : List Change}
    (h : List.Forall₂ Change.SameForm xs xs') :
    (xs.filterMap Change.operand?).length = (xs'.filterMap Change.operand?).length := by
  induction h with
  | nil => rfl
  | cons hx _ ih =>
      cases hx with
      | apply form path operand operand' => exact congrArg (· + 1) ih
      | remove path => exact ih

/-- **Changes of the same form** have alike expressions, and leave the compiler alike. -/
theorem update_alike {xs xs' : List Change} (h : List.Forall₂ Change.SameForm xs xs')
    (c : Compiler)
    (hS : ∀ n v v', (xs.filterMap Change.operand?)[n]? = some v →
      (xs'.filterMap Change.operand?)[n]? = some v' →
        S (Placeholder.ofValue (c.operandCount + n)) v v') :
    (c.update xs).2 = (c.update xs').2 ∧
      Expression.Alike S (c.update xs).1 (c.update xs').1 := by
  obtain ⟨hcompiler, hchanges⟩ := changes_alike h c
  have hnames : ∀ {zs zs'}, List.Forall₂ PlacedChange.Alike zs zs' →
      zs.flatMap (fun y => y.path.names) = zs'.flatMap fun y => y.path.names := by
    intro zs zs' hzs
    induction hzs with
    | nil => rfl
    | cons hz _ ih => rw [List.flatMap_cons, List.flatMap_cons, hz.path, ih]
  refine ⟨hcompiler, ?_, ?_, Dict.Alike.ofList ?_⟩
  · simp only [update, UpdateSection.text?_alike hchanges]
  · simp only [update, hnames hchanges]
  · rw [(c.changes_spec _).2.2, (c.changes_spec _).2.2]
    exact numbered_alike (length_changeOperands_alike h) hS

/-! ### Fragments -/

theorem map_text_of_alike {xs xs' : List Expression}
    (h : List.Forall₂ (Expression.Alike S) xs xs') :
    xs.map Expression.text = xs'.map Expression.text := by
  induction h with
  | nil => rfl
  | cons hx _ ih => rw [List.map_cons, List.map_cons, hx.text, ih]

/-- **What is joined of fragments and alike expressions is alike.** -/
theorem join_alike {fs : List Fragment} {generated generated' : Option Expression}
    (h : Option.Rel (Expression.Alike S) generated generated')
    (hfragments : ∀ f ∈ fs, ∀ e ∈ f.values, S e.1 e.2 e.2) :
    Expression.Alike S (join fs generated) (join fs generated') := by
  have hown : List.Forall₂ (Expression.Alike S)
      (fs.map fun f => (⟨f.expression, f.names, f.values⟩ : Expression))
      (fs.map fun f => (⟨f.expression, f.names, f.values⟩ : Expression)) := by
    rw [List.forall₂_map_left_iff, List.forall₂_map_right_iff, List.forall₂_same]
    exact fun f hf => ⟨rfl, rfl, .refl (hfragments f hf)⟩
  have hparts : List.Forall₂ (Expression.Alike S) (joinParts fs generated)
      (joinParts fs generated') := by
    refine List.rel_append hown ?_
    cases h with
    | none => exact .nil
    | some h => exact .cons h .nil
  refine ⟨?_, unite_names_alike hparts _, unite_values_alike hparts .nil⟩
  have htexts := map_text_of_alike hparts
  unfold joinParts at htexts
  simp only [join, htexts]

/-- **Fragments and alike expressions** become alike expressions, or have the same error. -/
theorem merge_alike (c : Compiler) (fs : List Fragment) {generated generated' : Option Expression}
    (h : Option.Rel (Expression.Alike S) generated generated')
    (hS : ∀ d, c.TakenIn d fs → ∀ f ∈ fs, ∀ e ∈ f.values, S e.1 e.2 e.2) :
    AlikeOutcomes (Option.Rel (Expression.Alike S)) (c.merge generated fs).1
      (c.merge generated' fs).1 := by
  unfold merge
  split
  · exact .ok h
  · rcases hbring : c.bringAll fs with ⟨outcome, d⟩
    cases outcome with
    | error cause => exact .error cause
    | ok u => exact .ok (.some (join_alike h (hS d (bringAll_spec hbring))))

end Compiler

end Keyspace
