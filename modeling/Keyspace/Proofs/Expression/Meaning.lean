import Keyspace.Proofs.Dict.Union
import Keyspace.Proofs.Expression.Issue
import Mathlib.Data.List.Pairwise
/-!
# What placeholders stand for

A placeholder of a request stands for one attribute or one operand: an issued name stands for the
attribute it was issued for, an issued value for the operand with its number, and what a fragment
brings stands for what the fragment says.  Fragments are taken in only if nothing they bring has a
meaning already, so no placeholder has two.

Main definitions:

* `Keyspace.Compiler.Binds` — what the dictionaries of a generated expression show;
* `Keyspace.Compiler.NameMeaning`, `Keyspace.Compiler.ValueMeaning` — what a placeholder may stand
  for in a request with fragments.

Main results:

* `Keyspace.Compiler.conditions_binds`, `Keyspace.Compiler.projection_binds`,
  `Keyspace.Compiler.update_binds` — the generated expressions;
* `Keyspace.Compiler.bringAll_spec` — **fragments that are taken in bring nothing twice**;
* `Keyspace.Compiler.NameMeaning.unique`, `Keyspace.Compiler.ValueMeaning.unique` — **no
  placeholder has two meanings**;
* `Keyspace.Compiler.under_joinParts_names`, `Keyspace.Compiler.under_joinParts_values` — what
  fragments and a generated expression say about placeholders.
-/

set_option autoImplicit false

namespace Keyspace.Compiler

/-! ### Generated expressions -/

/-- An expression that was generated while `c` became `d`: its names stand for what `d` says, and
its values are the operands `vs` with the next numbers. -/
structure Binds (c d : Compiler) (vs : List Value) (e : Expression) : Prop where
  names : e.names.Under d.Names
  namesSorted : e.names.Sorted
  values : e.values = Dict.ofList (numbered c.operandCount vs)

section Placed

variable {c : Compiler} {ps : List PlacedPath}

theorem names_of_mem (h : ∀ p ∈ ps, ∀ s ∈ p, c.Names s.placeholder s.name) {n a : String}
    (hmem : (n, a) ∈ ps.flatMap PlacedPath.names) : c.Names n a := by
  obtain ⟨p, hp, hmem⟩ := List.mem_flatMap.1 hmem
  obtain ⟨s, hs, heq⟩ := List.mem_map.1 hmem
  obtain ⟨rfl, rfl⟩ := Prod.mk.inj heq
  exact h p hp s hs

/-- The names of placed paths stand for what the compiler says. -/
theorem under_names_of_placed (h : ∀ p ∈ ps, ∀ s ∈ p, c.Names s.placeholder s.name) :
    (Dict.ofList (ps.flatMap PlacedPath.names)).Under c.Names :=
  fun _ _ hget => names_of_mem h (Dict.mem_of_get?_ofList hget)

/-- The dictionary of placed paths shows each of their steps. -/
theorem get?_names_of_placed (h : ∀ p ∈ ps, ∀ s ∈ p, c.Names s.placeholder s.name) :
    ∀ p ∈ ps, ∀ s ∈ p,
      (Dict.ofList (ps.flatMap PlacedPath.names)).get? s.placeholder = some s.name := by
  intro p hp s hs
  refine Dict.get?_ofList_of_mem
    (fun n a b ha hb => (names_of_mem h ha).unique (names_of_mem h hb)) ?_
  exact List.mem_flatMap.2 ⟨p, hp, List.mem_map.2 ⟨s, hs, rfl⟩⟩

end Placed

/-- The dictionary of numbered operands shows each of them. -/
theorem get?_numbered {start : Nat} {vs : List Value} {p : String} {v : Value}
    (h : (p, v) ∈ numbered start vs) : (Dict.ofList (numbered start vs)).get? p = some v := by
  refine Dict.get?_ofList_of_mem (fun q w w' hw hw' => ?_) h
  obtain ⟨m, rfl, hm⟩ := mem_numbered.1 hw
  obtain ⟨n, hmn, hn⟩ := mem_numbered.1 hw'
  rw [← Nat.add_left_cancel (Placeholder.ofValue_inj hmn), hm] at hn
  exact Option.some.inj hn

theorem conditions_grows (c : Compiler) (xs : List Condition) :
    c.Grows (c.conditions xs).2 (xs.flatMap Condition.values).length := by
  unfold conditions
  split
  · next hempty =>
      rw [List.isEmpty_iff.1 hempty]
      exact Grows.refl c
  · exact (c.clauses_spec xs).1

theorem conditions_binds {c : Compiler} {xs : List Condition} {e : Expression}
    (h : (c.conditions xs).1 = some e) :
    c.Binds (c.conditions xs).2 (xs.flatMap Condition.values) e := by
  obtain ⟨_, _, hoperands⟩ := c.clauses_spec xs
  unfold conditions at h ⊢
  split at h
  · cases h
  · next hne =>
      rw [if_neg hne]
      cases h
      refine ⟨?_, Dict.sorted_ofList _, by rw [hoperands]⟩
      have hflat : (c.clauses xs).1.flatMap (fun y => y.path.names) =
          ((c.clauses xs).1.map Clause.path).flatMap PlacedPath.names := by
        rw [List.flatMap_map]
      simp only [hflat]
      exact under_names_of_placed (c.clauses_names xs)

theorem projection_grows (c : Compiler) (paths : List String) :
    c.Grows (c.projection paths).2 0 := by
  unfold projection
  split
  · exact Grows.refl c
  · exact (c.placeAll_spec paths).1

theorem projection_binds {c : Compiler} {paths : List String} {e : Expression}
    (h : (c.projection paths).1 = some e) : c.Binds (c.projection paths).2 [] e := by
  obtain ⟨_, hplaced⟩ := c.placeAll_spec paths
  unfold projection at h ⊢
  split at h
  · cases h
  · next hne =>
      rw [if_neg hne]
      cases h
      refine ⟨under_names_of_placed fun p hp => ?_, Dict.sorted_ofList _, rfl⟩
      obtain ⟨path, _, hpath⟩ := exists_left_of_forall₂ hplaced hp
      exact hpath.names

theorem update_grows (c : Compiler) (xs : List Change) :
    c.Grows (c.update xs).2 (xs.filterMap Change.operand?).length := (c.changes_spec xs).1

theorem update_binds (c : Compiler) (xs : List Change) :
    c.Binds (c.update xs).2 (xs.filterMap Change.operand?) (c.update xs).1 := by
  obtain ⟨_, _, hoperands⟩ := c.changes_spec xs
  refine ⟨?_, Dict.sorted_ofList _, by simp only [update, hoperands]⟩
  have hflat : (c.changes xs).1.flatMap (fun y => y.path.names) =
      ((c.changes xs).1.map PlacedChange.path).flatMap PlacedPath.names := by
    rw [List.flatMap_map]
  simp only [update, hflat]
  exact under_names_of_placed (c.changes_names xs)

/-! ### Fragments that are taken in -/

theorem hasIssued_iff {c : Compiler} {p : String} :
    c.hasIssued p = true ↔ (∃ n < c.attributes.length, p = Placeholder.ofName n) ∨
      (∃ n < c.operandCount, p = Placeholder.ofValue n) ∨ p ∈ c.brought := by
  simp only [hasIssued, Bool.or_eq_true, List.contains_iff_mem, List.mem_map, List.mem_range,
    or_assoc]
  constructor
  · rintro (⟨n, hn, rfl⟩ | ⟨n, hn, rfl⟩ | h)
    · exact Or.inl ⟨n, hn, rfl⟩
    · exact Or.inr (Or.inl ⟨n, hn, rfl⟩)
    · exact Or.inr (Or.inr h)
  · rintro (⟨n, hn, rfl⟩ | ⟨n, hn, rfl⟩ | h)
    · exact Or.inl ⟨n, hn, rfl⟩
    · exact Or.inr (Or.inl ⟨n, hn, rfl⟩)
    · exact Or.inr (Or.inr h)

/-- What a compiler that takes a fragment in has found, and what it becomes. -/
theorem bring_spec {c d : Compiler} {f : Fragment} (h : c.bring f = .ok d) :
    f.validate = .ok () ∧ (∀ p ∈ f.declared, c.hasIssued p = false) ∧ f.unused? = none ∧
      d = { c with brought := c.brought ++ f.declared } := by
  unfold bring at h
  cases hv : f.validate with
  | error e => rw [hv] at h; cases h
  | ok u =>
      rw [hv] at h
      simp only [bind, Except.bind] at h
      split at h
      · cases h
      · next hfind =>
          split at h
          · cases h
          · next hunused =>
              refine ⟨rfl, fun p hp => ?_, hunused, (Except.ok.inj h).symm⟩
              simpa using List.find?_eq_none.1 hfind p hp

/-- Fragments that were taken in one after the other: what holds of each of them, and of any two. -/
structure TakenIn (c d : Compiler) (fs : List Fragment) : Prop where
  attributes : d.attributes = c.attributes
  operandCount : d.operandCount = c.operandCount
  brought : d.brought = c.brought ++ fs.flatMap Fragment.declared
  valid : ∀ f ∈ fs, f.validate = .ok ()
  used : ∀ f ∈ fs, f.unused? = none
  fresh : ∀ f ∈ fs, ∀ p ∈ f.declared, c.hasIssued p = false
  apart : fs.Pairwise fun f g => ∀ p ∈ f.declared, p ∉ g.declared

/-- **Fragments that are taken in bring nothing that was there, and nothing twice.** -/
theorem bringAll_spec {c d : Compiler} {fs : List Fragment} (h : c.bringAll fs = (.ok (), d)) :
    c.TakenIn d fs := by
  induction fs generalizing c with
  | nil =>
      cases h
      exact ⟨rfl, rfl, by simp, by simp, by simp, by simp, List.Pairwise.nil⟩
  | cons f rest ih =>
      cases hb : c.bring f with
      | error e => simp [bringAll, hb] at h
      | ok b =>
          obtain ⟨hvalid, hfresh, hused, rfl⟩ := bring_spec hb
          have hrest := ih (by simpa [bringAll, hb] using h)
          -- what the rest brings was not there after `f`, so it is neither old nor one of `f`'s
          have hnew : ∀ g ∈ rest, ∀ p ∈ g.declared, c.hasIssued p = false ∧ p ∉ f.declared := by
            intro g hg p hp
            have hno := hrest.fresh g hg p hp
            rw [Bool.eq_false_iff, Ne, hasIssued_iff] at hno
            constructor
            · rw [Bool.eq_false_iff, Ne, hasIssued_iff]
              rintro (hname | hvalue | hold)
              · exact hno (Or.inl hname)
              · exact hno (Or.inr (Or.inl hvalue))
              · exact hno (Or.inr (Or.inr (List.mem_append_left _ hold)))
            · intro hpf
              exact hno (Or.inr (Or.inr (List.mem_append_right _ hpf)))
          refine ⟨hrest.attributes, hrest.operandCount, ?_, ?_, ?_, ?_, ?_⟩
          · rw [hrest.brought, List.flatMap_cons, List.append_assoc]
          · exact List.forall_mem_cons.2 ⟨hvalid, hrest.valid⟩
          · exact List.forall_mem_cons.2 ⟨hused, hrest.used⟩
          · exact List.forall_mem_cons.2 ⟨hfresh, fun g hg p hp => (hnew g hg p hp).1⟩
          · refine List.pairwise_cons.2 ⟨fun g hg p hpf hpg => ?_, hrest.apart⟩
            exact (hnew g hg p hpg).2 hpf

/-! ### No placeholder has two meanings -/

/-- The attribute that a placeholder may stand for: the one it was issued for, or the one that a
fragment says. -/
def NameMeaning (c : Compiler) (fs : List Fragment) (p attr : String) : Prop :=
  c.Names p attr ∨ ∃ f ∈ fs, (Dict.ofList f.names).get? p = some attr

/-- The value that a placeholder may stand for: the operand with its number, or the value that a
fragment says. -/
def ValueMeaning (vs : List Value) (fs : List Fragment) (p : String) (v : Value) : Prop :=
  (∃ n, p = Placeholder.ofValue n ∧ vs[n]? = some v) ∨
    ∃ f ∈ fs, (Dict.ofList f.values).get? p = some v

theorem mem_declared_of_names {f : Fragment} {p a : String}
    (h : (Dict.ofList f.names).get? p = some a) : p ∈ f.declared := by
  refine List.mem_append_left _ ?_
  exact Dict.mem_names_ofList.1 (Dict.mem_names_iff.2 ⟨a, h⟩)

theorem mem_declared_of_values {f : Fragment} {p : String} {v : Value}
    (h : (Dict.ofList f.values).get? p = some v) : p ∈ f.declared := by
  refine List.mem_append_right _ ?_
  exact Dict.mem_names_ofList.1 (Dict.mem_names_iff.2 ⟨v, h⟩)

/-- Two fragments that both declare a placeholder are one. -/
theorem TakenIn.eq_of_declared {c d : Compiler} {fs : List Fragment} (h : c.TakenIn d fs)
    {f g : Fragment} (hf : f ∈ fs) (hg : g ∈ fs) {p : String} (hpf : p ∈ f.declared)
    (hpg : p ∈ g.declared) : f = g := by
  by_contra hne
  have hsymm : Std.Symm fun f g : Fragment => ∀ p ∈ f.declared, p ∉ g.declared :=
    ⟨fun f g hfg p hpg hpf => hfg p hpf hpg⟩
  exact h.apart.forall hf hg hne p hpf hpg

/-- **No placeholder stands for two attributes.** -/
theorem NameMeaning.unique {c d : Compiler} {fs : List Fragment} (h : c.TakenIn d fs)
    (p a b : String) (ha : c.NameMeaning fs p a) (hb : c.NameMeaning fs p b) : a = b := by
  have hissued : ∀ {a}, c.Names p a → c.hasIssued p = true := by
    rintro a ⟨n, rfl, hn⟩
    exact hasIssued_iff.2 (Or.inl ⟨n, (List.getElem?_eq_some_iff.1 hn).1, rfl⟩)
  rcases ha with ha | ⟨f, hf, ha⟩
  · rcases hb with hb | ⟨g, hg, hb⟩
    · exact ha.unique hb
    · have hno := h.fresh g hg p (mem_declared_of_names hb)
      rw [hissued ha] at hno
      cases hno
  · rcases hb with hb | ⟨g, hg, hb⟩
    · have hno := h.fresh f hf p (mem_declared_of_names ha)
      rw [hissued hb] at hno
      cases hno
    · have hfg := h.eq_of_declared hf hg (mem_declared_of_names ha) (mem_declared_of_names hb)
      rw [hfg, hb] at ha
      exact (Option.some.inj ha).symm

/-- **No placeholder stands for two values.** -/
theorem ValueMeaning.unique {c d : Compiler} {fs : List Fragment} (h : c.TakenIn d fs)
    {vs : List Value} (hvs : vs.length ≤ c.operandCount) (p : String) (v w : Value)
    (hv : ValueMeaning vs fs p v) (hw : ValueMeaning vs fs p w) : v = w := by
  have hissued : ∀ {v}, (∃ n, p = Placeholder.ofValue n ∧ vs[n]? = some v) →
      c.hasIssued p = true := by
    rintro v ⟨n, rfl, hn⟩
    have hlt : n < vs.length := (List.getElem?_eq_some_iff.1 hn).1
    exact hasIssued_iff.2 (Or.inr (Or.inl ⟨n, by omega, rfl⟩))
  rcases hv with hv | ⟨f, hf, hv⟩
  · rcases hw with hw | ⟨g, hg, hw⟩
    · obtain ⟨m, rfl, hm⟩ := hv
      obtain ⟨n, hmn, hn⟩ := hw
      rw [← Placeholder.ofValue_inj hmn, hm] at hn
      exact Option.some.inj hn
    · have hno := h.fresh g hg p (mem_declared_of_values hw)
      rw [hissued hv] at hno
      cases hno
  · rcases hw with hw | ⟨g, hg, hw⟩
    · have hno := h.fresh f hf p (mem_declared_of_values hv)
      rw [hissued hw] at hno
      cases hno
    · have hfg := h.eq_of_declared hf hg (mem_declared_of_values hv) (mem_declared_of_values hw)
      rw [hfg, hw] at hv
      exact (Option.some.inj hv).symm

/-! ### Joined expressions -/

/-- The fragments and the generated expression that an expression is joined of. -/
def joinParts (fs : List Fragment) (generated : Option Expression) : List Expression :=
  fs.map (fun f => (⟨f.expression, f.names, f.values⟩ : Expression)) ++ generated.toList

theorem join_names (fs : List Fragment) (generated : Option Expression) :
    (join fs generated).names = Dict.unite Expression.names (joinParts fs generated) := rfl

theorem join_values (fs : List Fragment) (generated : Option Expression) :
    (join fs generated).values = Dict.unite Expression.values (joinParts fs generated) := rfl

theorem mem_joinParts {fs : List Fragment} {generated : Option Expression} {x : Expression} :
    x ∈ joinParts fs generated ↔
      (∃ f ∈ fs, x = ⟨f.expression, f.names, f.values⟩) ∨ generated = some x := by
  simp [joinParts, eq_comm]

theorem under_joinParts_names {c : Compiler} {fs gs : List Fragment}
    {generated : Option Expression} (hfs : fs ⊆ gs)
    (h : ∀ e, generated = some e → e.names.Sorted ∧ e.names.Under (c.NameMeaning gs)) :
    ∀ x ∈ joinParts fs generated, (Dict.ofList x.names).Under (c.NameMeaning gs) := by
  intro x hx p a ha
  rcases mem_joinParts.1 hx with ⟨f, hf, rfl⟩ | hx
  · exact Or.inr ⟨f, hfs hf, ha⟩
  · obtain ⟨hsorted, hunder⟩ := h x hx
    rw [Dict.get?_ofList_of_sorted hsorted] at ha
    exact hunder p a ha

theorem under_joinParts_values {vs : List Value} {fs gs : List Fragment}
    {generated : Option Expression} (hfs : fs ⊆ gs)
    (h : ∀ e, generated = some e → e.values.Sorted ∧ e.values.Under (ValueMeaning vs gs)) :
    ∀ x ∈ joinParts fs generated, (Dict.ofList x.values).Under (ValueMeaning vs gs) := by
  intro x hx p v hv
  rcases mem_joinParts.1 hx with ⟨f, hf, rfl⟩ | hx
  · exact Or.inr ⟨f, hfs hf, hv⟩
  · obtain ⟨hsorted, hunder⟩ := h x hx
    rw [Dict.get?_ofList_of_sorted hsorted] at hv
    exact hunder p v hv

end Keyspace.Compiler
