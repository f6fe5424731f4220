import Keyspace.Proofs.Expression.Path
import Keyspace.Update.Change
import Mathlib.Data.List.Forall2
/-!
# What a compiler issues

A compiler that goes on issuing placeholders keeps those it has issued: the attributes stay where
they are, and the operands are numbered one after the other.  This is said once for each of the
compiler's functions; nothing after this module looks into them again.

Main definitions:

* `Keyspace.Compiler.Names` — the attribute that an issued name stands for;
* `Keyspace.Compiler.Grows` — what a compiler has become by issuing more;
* `Keyspace.Compiler.Placed` — the placeholders of a path are issued ones;
* `Keyspace.Compiler.numbered` — operands with the placeholders from some number on;
* `Keyspace.Clause.Renders`, `Keyspace.PlacedChange.Renders` — the clause of a condition, the placed
  change of a change.

Main results:

* `Keyspace.Compiler.place_spec`, `Keyspace.Compiler.operands_eq`, `Keyspace.Compiler.clauses_spec`,
  `Keyspace.Compiler.placeAll_spec`, `Keyspace.Compiler.changes_spec` — **what each function
  issues**.
-/

set_option autoImplicit false

namespace Keyspace

/-- Each element on the right of related lists is related to one on the left. -/
theorem exists_left_of_forall₂ {α β : Type} {R : α → β → Prop} {xs : List α} {ys : List β}
    (h : List.Forall₂ R xs ys) {y : β} (hy : y ∈ ys) : ∃ x ∈ xs, R x y := by
  induction h with
  | nil => cases hy
  | @cons x z xs ys hxz _ ih =>
      rcases List.mem_cons.1 hy with rfl | hy
      · exact ⟨x, List.mem_cons_self, hxz⟩
      · obtain ⟨w, hw, hwy⟩ := ih hy
        exact ⟨w, List.mem_cons_of_mem x hw, hwy⟩

namespace Compiler

/-! ### Growing -/

/-- The attribute that an issued name stands for. -/
def Names (c : Compiler) (p attr : String) : Prop :=
  ∃ n, p = Placeholder.ofName n ∧ c.attributes[n]? = some attr

/-- No issued name stands for two attributes. -/
theorem Names.unique {c : Compiler} {p a b : String} (ha : c.Names p a) (hb : c.Names p b) :
    a = b := by
  obtain ⟨m, rfl, hm⟩ := ha
  obtain ⟨n, hmn, hn⟩ := hb
  rw [← Placeholder.ofName_inj hmn, hm] at hn
  exact Option.some.inj hn

/-- The compiler `d` is `c` after it has issued `n` operands, and names for some attributes. -/
structure Grows (c d : Compiler) (n : Nat) : Prop where
  attributes : c.attributes <+: d.attributes
  operandCount : d.operandCount = c.operandCount + n
  brought : d.brought = c.brought

theorem Grows.refl (c : Compiler) : c.Grows c 0 := ⟨List.prefix_refl _, rfl, rfl⟩

theorem Grows.trans {c d e : Compiler} {m n : Nat} (hcd : c.Grows d m) (hde : d.Grows e n) :
    c.Grows e (m + n) where
  attributes := hcd.attributes.trans hde.attributes
  operandCount := by rw [hde.operandCount, hcd.operandCount, Nat.add_assoc]
  brought := hde.brought.trans hcd.brought

/-- An issued name keeps its attribute. -/
theorem Names.mono {c d : Compiler} {p a : String} (h : c.Names p a)
    (hcd : c.attributes <+: d.attributes) : d.Names p a := by
  obtain ⟨n, hp, hn⟩ := h
  obtain ⟨more, hmore⟩ := hcd
  refine ⟨n, hp, ?_⟩
  obtain ⟨hlt, hget⟩ := List.getElem?_eq_some_iff.1 hn
  rw [← hmore, List.getElem?_append_left hlt, hn]

/-! ### Names -/

theorem name_spec (c : Compiler) (attr : String) :
    c.Grows (c.name attr).2 0 ∧ (c.name attr).2.Names (c.name attr).1 attr := by
  unfold name
  split
  · next n hn =>
      obtain ⟨hlt, hget, _⟩ := List.idxOf?_eq_some_iff.1 hn
      refine ⟨Grows.refl c, n, rfl, ?_⟩
      rw [List.getElem?_eq_getElem hlt, hget]
  · refine ⟨⟨List.prefix_append _ _, rfl, rfl⟩, c.attributes.length, rfl, ?_⟩
    simp

/-- The placeholders of `p` are issued ones, and it is the path `path` otherwise. -/
structure Placed (c : Compiler) (path : String) (p : PlacedPath) : Prop where
  steps : p.map (fun s => (⟨s.name, s.indexes⟩ : PathStep)) = pathSteps path
  names : ∀ s ∈ p, c.Names s.placeholder s.name

theorem Placed.mono {c d : Compiler} {path : String} {p : PlacedPath} (h : c.Placed path p)
    (hcd : c.attributes <+: d.attributes) : d.Placed path p :=
  ⟨h.steps, fun s hs => (h.names s hs).mono hcd⟩

theorem placeSteps_spec (c : Compiler) (steps : List PathStep) :
    c.Grows (c.placeSteps steps).2 0 ∧
      (c.placeSteps steps).1.map (fun s => (⟨s.name, s.indexes⟩ : PathStep)) = steps ∧
      ∀ s ∈ (c.placeSteps steps).1, (c.placeSteps steps).2.Names s.placeholder s.name := by
  induction steps generalizing c with
  | nil => exact ⟨Grows.refl c, rfl, fun s hs => by cases hs⟩
  | cons step rest ih =>
      obtain ⟨hname, hnames⟩ := c.name_spec step.name
      obtain ⟨hrest, hsteps, hall⟩ := ih (c.name step.name).2
      simp only [placeSteps]
      refine ⟨hname.trans hrest, ?_, ?_⟩
      · rw [List.map_cons, hsteps]
      · intro s hs
        rcases List.mem_cons.1 hs with rfl | hs
        · exact hnames.mono hrest.attributes
        · exact hall s hs

/-- **Placing a path** issues no operands. -/
theorem place_spec (c : Compiler) (path : String) :
    c.Grows (c.place path).2 0 ∧ (c.place path).2.Placed path (c.place path).1 := by
  obtain ⟨hgrows, hsteps, hnames⟩ := c.placeSteps_spec (pathSteps path)
  exact ⟨hgrows, hsteps, hnames⟩

/-- **Placing several paths.** -/
theorem placeAll_spec (c : Compiler) (paths : List String) :
    c.Grows (c.placeAll paths).2 0 ∧
      List.Forall₂ ((c.placeAll paths).2.Placed) paths (c.placeAll paths).1 := by
  induction paths generalizing c with
  | nil => exact ⟨Grows.refl c, List.Forall₂.nil⟩
  | cons path rest ih =>
      obtain ⟨hplace, hplaced⟩ := c.place_spec path
      obtain ⟨hrest, hall⟩ := ih (c.place path).2
      simp only [placeAll]
      exact ⟨hplace.trans hrest, List.Forall₂.cons (hplaced.mono hrest.attributes) hall⟩

/-! ### Operands -/

/-- Operands with the placeholders from the number `start` on. -/
def numbered (start : Nat) (vs : List Value) : List (String × Value) :=
  (vs.zipIdx start).map fun x => (Placeholder.ofValue x.2, x.1)

theorem numbered_append (start : Nat) (vs ws : List Value) :
    numbered start (vs ++ ws) = numbered start vs ++ numbered (start + vs.length) ws := by
  simp only [numbered, List.zipIdx_append, List.map_append]

theorem numbered_cons (start : Nat) (v : Value) (vs : List Value) :
    numbered start (v :: vs) = (Placeholder.ofValue start, v) :: numbered (start + 1) vs := rfl

theorem map_snd_numbered (start : Nat) (vs : List Value) :
    (numbered start vs).map Prod.snd = vs := by
  simp [numbered, Function.comp_def]

/-- No two operands have one placeholder. -/
theorem nodup_map_fst_numbered (start : Nat) (vs : List Value) :
    ((numbered start vs).map Prod.fst).Nodup := by
  have hfst : (numbered start vs).map Prod.fst =
      (List.range' start vs.length).map Placeholder.ofValue := by
    rw [← List.zipIdx_map_snd start vs, List.map_map, numbered, List.map_map]
    rfl
  rw [hfst]
  have hnumbers : (List.range' start vs.length).Nodup := List.nodup_range'
  exact List.pairwise_map.2 (hnumbers.imp fun hne h => hne (Placeholder.ofValue_inj h))

/-- An operand is found by the number of its placeholder. -/
theorem mem_numbered {start : Nat} {vs : List Value} {p : String} {v : Value} :
    (p, v) ∈ numbered start vs ↔
      ∃ n, p = Placeholder.ofValue (start + n) ∧ vs[n]? = some v := by
  simp only [numbered, List.mem_map, Prod.mk.injEq, Prod.exists,
    List.mem_zipIdx_iff_le_and_getElem?_sub]
  constructor
  · rintro ⟨w, n, ⟨hle, hget⟩, rfl, rfl⟩
    exact ⟨n - start, by rw [Nat.add_sub_cancel' hle], hget⟩
  · rintro ⟨n, rfl, hget⟩
    exact ⟨v, start + n, ⟨by omega, by rwa [Nat.add_sub_cancel_left]⟩, rfl, rfl⟩

/-- **Operands are numbered one after the other.** -/
theorem operands_eq (c : Compiler) (vs : List Value) :
    c.operands vs =
      (numbered c.operandCount vs, { c with operandCount := c.operandCount + vs.length }) := by
  induction vs generalizing c with
  | nil => rfl
  | cons v rest ih =>
      simp only [operands, ih, numbered_cons, List.length_cons]
      congr 2
      omega

theorem grows_operands (c : Compiler) (vs : List Value) :
    c.Grows (c.operands vs).2 vs.length := by
  rw [operands_eq]
  exact ⟨List.prefix_refl _, rfl, rfl⟩

end Compiler

/-! ### Clauses -/

/-- The clause `y` is the condition `x` with placeholders that `c` has issued. -/
structure Clause.Renders (c : Compiler) (x : Condition) (y : Clause) : Prop where
  operator : y.operator = x.operator
  path : c.Placed x.field y.path
  values : y.operands.map Prod.snd = x.values
  issued : ∀ o ∈ y.operands, ∃ n, o.1 = Placeholder.ofValue n

theorem Clause.Renders.mono {c d : Compiler} {x : Condition} {y : Clause}
    (h : Clause.Renders c x y) (hcd : c.attributes <+: d.attributes) : Clause.Renders d x y :=
  ⟨h.operator, h.path.mono hcd, h.values, h.issued⟩

namespace Compiler

theorem clause_spec (c : Compiler) (x : Condition) :
    c.Grows (c.clause x).2 x.values.length ∧ Clause.Renders (c.clause x).2 x (c.clause x).1 ∧
      (c.clause x).1.operands = numbered c.operandCount x.values := by
  obtain ⟨hplace, hplaced⟩ := c.place_spec x.field
  have hops : (c.place x.field).2.operands x.values =
      (numbered c.operandCount x.values,
        { (c.place x.field).2 with operandCount := c.operandCount + x.values.length }) := by
    rw [operands_eq, hplace.operandCount, Nat.add_zero]
  have hgrows : (c.place x.field).2.Grows ((c.place x.field).2.operands x.values).2
      x.values.length := grows_operands _ _
  have hall := hplace.trans hgrows
  rw [Nat.zero_add] at hall
  simp only [clause]
  refine ⟨hall, ⟨rfl, hplaced.mono hgrows.attributes, ?_, ?_⟩, ?_⟩
  · rw [hops, map_snd_numbered]
  · intro o ho
    rw [hops] at ho
    obtain ⟨n, hn, _⟩ := mem_numbered.1 ho
    exact ⟨_, hn⟩
  · rw [hops]

/-- **Clauses**: the operands of all of them are numbered one after the other. -/
theorem clauses_spec (c : Compiler) (xs : List Condition) :
    c.Grows (c.clauses xs).2 (xs.flatMap Condition.values).length ∧
      List.Forall₂ (Clause.Renders (c.clauses xs).2) xs (c.clauses xs).1 ∧
      (c.clauses xs).1.flatMap Clause.operands =
        numbered c.operandCount (xs.flatMap Condition.values) := by
  induction xs generalizing c with
  | nil => exact ⟨Grows.refl c, List.Forall₂.nil, rfl⟩
  | cons x rest ih =>
      obtain ⟨hx, hrenders, hoperands⟩ := c.clause_spec x
      obtain ⟨hrest, hall, hmore⟩ := ih (c.clause x).2
      simp only [clauses]
      refine ⟨?_, List.Forall₂.cons (hrenders.mono hrest.attributes) hall, ?_⟩
      · rw [List.flatMap_cons, List.length_append]
        exact hx.trans hrest
      · rw [List.flatMap_cons, List.flatMap_cons, hoperands, hmore, hx.operandCount,
          numbered_append]

/-- The placeholders in the clauses stand for what the compiler says. -/
theorem clauses_names (c : Compiler) (xs : List Condition) :
    ∀ p ∈ (c.clauses xs).1.map Clause.path,
      ∀ s ∈ p, (c.clauses xs).2.Names s.placeholder s.name := by
  intro p hp
  obtain ⟨y, hy, rfl⟩ := List.mem_map.1 hp
  obtain ⟨x, -, hxy⟩ := exists_left_of_forall₂ (c.clauses_spec xs).2.1 hy
  exact hxy.path.names

end Compiler

/-! ### Changes -/

/-- The operand of a change, if it has one. -/
def Change.operand? : Change → Option Value
  | .apply _ _ operand => some operand
  | .remove _ => none

/-- The placed change `y` is the change `x` with placeholders that `c` has issued. -/
inductive PlacedChange.Renders (c : Compiler) : Change → PlacedChange → Prop where
  | apply {form : ChangeForm} {path : String} {p : PlacedPath} {operand : Value} (n : Nat) :
      c.Placed path p →
        Renders c (.apply form path operand) (.apply form p (Placeholder.ofValue n, operand))
  | remove {path : String} {p : PlacedPath} : c.Placed path p → Renders c (.remove path) (.remove p)

theorem PlacedChange.Renders.mono {c d : Compiler} {x : Change} {y : PlacedChange}
    (h : PlacedChange.Renders c x y) (hcd : c.attributes <+: d.attributes) :
    PlacedChange.Renders d x y := by
  cases h with
  | apply n hp => exact .apply n (hp.mono hcd)
  | remove hp => exact .remove (hp.mono hcd)

theorem PlacedChange.Renders.path {c : Compiler} {x : Change} {y : PlacedChange}
    (h : PlacedChange.Renders c x y) : c.Placed x.path y.path := by
  cases h with
  | apply n hp => exact hp
  | remove hp => exact hp

namespace Compiler

theorem change_spec (c : Compiler) (x : Change) :
    c.Grows (c.change x).2 x.operand?.toList.length ∧
      PlacedChange.Renders (c.change x).2 x (c.change x).1 ∧
      (c.change x).1.operand?.toList = numbered c.operandCount x.operand?.toList := by
  cases x with
  | remove path =>
      obtain ⟨hplace, hplaced⟩ := c.place_spec path
      exact ⟨hplace, .remove hplaced, rfl⟩
  | apply form path operand =>
      obtain ⟨hplace, hplaced⟩ := c.place_spec path
      have hcount : (c.place path).2.operandCount = c.operandCount := hplace.operandCount
      refine ⟨⟨hplace.attributes, ?_, hplace.brought⟩, .apply _ ?_, ?_⟩
      · simp [change, hcount, Change.operand?]
      · exact ⟨hplaced.steps, hplaced.names⟩
      · simp [change, hcount, PlacedChange.operand?, Change.operand?, numbered]

/-- **Changes**: the operands of all of them are numbered one after the other. -/
theorem changes_spec (c : Compiler) (xs : List Change) :
    c.Grows (c.changes xs).2 (xs.filterMap Change.operand?).length ∧
      List.Forall₂ (PlacedChange.Renders (c.changes xs).2) xs (c.changes xs).1 ∧
      (c.changes xs).1.filterMap PlacedChange.operand? =
        numbered c.operandCount (xs.filterMap Change.operand?) := by
  induction xs generalizing c with
  | nil => exact ⟨Grows.refl c, List.Forall₂.nil, rfl⟩
  | cons x rest ih =>
      obtain ⟨hx, hrenders, hoperand⟩ := c.change_spec x
      obtain ⟨hrest, hall, hmore⟩ := ih (c.change x).2
      have hsplit : (x :: rest).filterMap Change.operand? =
          x.operand?.toList ++ rest.filterMap Change.operand? := by
        cases hop : x.operand? with
        | none => simp [hop]
        | some v => simp [hop]
      have hplaced : ((c.change x).1 :: ((c.change x).2.changes rest).1).filterMap
          PlacedChange.operand? = (c.change x).1.operand?.toList ++
            ((c.change x).2.changes rest).1.filterMap PlacedChange.operand? := by
        cases hop : (c.change x).1.operand? with
        | none => simp [hop]
        | some v => simp [hop]
      simp only [changes]
      refine ⟨?_, List.Forall₂.cons (hrenders.mono hrest.attributes) hall, ?_⟩
      · rw [hsplit, List.length_append]
        exact hx.trans hrest
      · rw [hplaced, hsplit, hoperand, hmore, hx.operandCount, numbered_append]

/-- The placeholders in the changes stand for what the compiler says. -/
theorem changes_names (c : Compiler) (xs : List Change) :
    ∀ p ∈ (c.changes xs).1.map PlacedChange.path,
      ∀ s ∈ p, (c.changes xs).2.Names s.placeholder s.name := by
  intro p hp
  obtain ⟨y, hy, rfl⟩ := List.mem_map.1 hp
  obtain ⟨x, -, hxy⟩ := exists_left_of_forall₂ (c.changes_spec xs).2.1 hy
  exact hxy.path.names

end Compiler

end Keyspace
