import Keyspace.Proofs.Expression.Fragments
import Mathlib.Data.List.Perm.Subperm
/-!
# Attributes that have been named

A compiler has a placeholder for every attribute that was named, and one only.  So it does not
matter for the number of them in which order some conditions come: however they are divided, as many
attributes are named and as many operands issued, and the same fragments can be taken in.  With
fewer placeholders no fewer fragments can.

Main definitions:

* `Keyspace.Condition.attributes` — the attributes that a condition names;
* `Keyspace.Compiler.Collects` — the attributes that were named between two compilers.

Main results:

* `Keyspace.Compiler.conditions_collects` — **the attributes that conditions name**;
* `Keyspace.Compiler.Admits.of_fewer` — what can be taken in if less has been issued;
* `Keyspace.Compiler.collision_of_bringAll` — what can be wrong if more has been issued.
-/

set_option autoImplicit false

namespace Keyspace

namespace Compiler

/-! ### Attributes -/

/-- **The attributes named between two compilers.** -/
structure Collects (c d : Compiler) (names : List String) : Prop where
  nodup : c.attributes.Nodup → d.attributes.Nodup
  mem : ∀ a, a ∈ d.attributes ↔ a ∈ c.attributes ∨ a ∈ names

theorem Collects.refl (c : Compiler) : c.Collects c [] := ⟨id, by simp⟩

theorem Collects.trans {c d e : Compiler} {names more : List String} (h : c.Collects d names)
    (h' : d.Collects e more) : c.Collects e (names ++ more) where
  nodup hnodup := h'.nodup (h.nodup hnodup)
  mem a := by rw [h'.mem, h.mem, List.mem_append, or_assoc]

/-- An attribute has one placeholder, however often it is named. -/
theorem name_collects (c : Compiler) (attr : String) : c.Collects (c.name attr).2 [attr] := by
  unfold name
  split
  · next n hn =>
      obtain ⟨hlt, hget, -⟩ := List.idxOf?_eq_some_iff.1 hn
      have hmem : attr ∈ c.attributes := hget ▸ List.getElem_mem hlt
      refine ⟨id, fun a => ⟨.inl, ?_⟩⟩
      rintro (ha | ha)
      · exact ha
      · rwa [List.mem_singleton.1 ha]
  · next hn =>
      have hnew : attr ∉ c.attributes := List.idxOf?_eq_none_iff.1 hn
      refine ⟨fun hnodup => ?_, fun a => List.mem_append⟩
      exact List.nodup_append.2 ⟨hnodup, List.nodup_singleton _, by
        rintro a ha b hb rfl
        exact hnew (List.mem_singleton.1 hb ▸ ha)⟩

theorem placeSteps_collects (c : Compiler) (steps : List PathStep) :
    c.Collects (c.placeSteps steps).2 (steps.map PathStep.name) := by
  induction steps generalizing c with
  | nil => exact .refl c
  | cons s rest ih => exact (c.name_collects s.name).trans (ih (c.name s.name).2)

end Compiler

/-- The attributes that the path of a condition names. -/
def Condition.attributes (x : Condition) : List String := (pathSteps x.field).map PathStep.name

namespace Compiler

/-- Operands are no attributes. -/
theorem clause_collects (c : Compiler) (x : Condition) :
    c.Collects (c.clause x).2 x.attributes := by
  have hplace := c.placeSteps_collects (pathSteps x.field)
  have hattributes :
      (c.clause x).2.attributes = (c.placeSteps (pathSteps x.field)).2.attributes := by
    simp only [clause, operands_eq]
    rfl
  exact ⟨hattributes ▸ hplace.nodup, hattributes ▸ hplace.mem⟩

theorem clauses_collects (c : Compiler) (xs : List Condition) :
    c.Collects (c.clauses xs).2 (xs.flatMap Condition.attributes) := by
  induction xs generalizing c with
  | nil => exact .refl c
  | cons x rest ih => exact (c.clause_collects x).trans (ih (c.clause x).2)

/-- **The attributes that conditions name.** -/
theorem conditions_collects (c : Compiler) (xs : List Condition) :
    c.Collects (c.conditions xs).2 (xs.flatMap Condition.attributes) := by
  unfold conditions
  split
  · next hempty =>
      rw [List.isEmpty_iff.1 hempty]
      exact .refl c
  · exact c.clauses_collects xs

/-- If no other attributes are named, no more are. -/
theorem Collects.length_le {c d d' : Compiler} {names names' : List String}
    (h : c.Collects d names) (h' : c.Collects d' names') (hc : c.attributes.Nodup)
    (hnames : names ⊆ names') : d.attributes.length ≤ d'.attributes.length := by
  refine (List.subperm_of_subset (h.nodup hc) fun a ha => ?_).length_le
  exact (h'.mem a).2 (((h.mem a).1 ha).imp_right fun ha => hnames ha)

/-! ### Fragments -/

/-- **With fewer placeholders no fewer fragments can be taken in.** -/
theorem Admits.of_fewer {c d : Compiler} {fs : List Fragment} (h : d.Admits fs)
    (hissued : ∀ p, c.hasIssued p = true → d.hasIssued p = true) : c.Admits fs where
  exact := h.exact
  new f hf p hp := by
    rw [Bool.eq_false_iff]
    intro hknown
    exact Bool.false_ne_true ((h.new f hf p hp).symm.trans (hissued p hknown))
  apart := h.apart

/-- **With more placeholders nothing else can be wrong** with fragments than that one of theirs is
among them. -/
theorem collision_of_bringAll {c d d' : Compiler} {fs : List Fragment} {e : Error}
    (h : d.Admits fs) (he : c.bringAll fs = (.error e, d')) :
    ∃ p, e = .placeholderCollision p ∧ (∃ f ∈ fs, p ∈ f.declared) ∧ c.hasIssued p = true := by
  obtain ⟨earlier, f, later, rfl, hadmits, hrefused⟩ := refused_of_bringAll he
  have hf : f ∈ earlier ++ f :: later := List.mem_append_right _ List.mem_cons_self
  have hexact := h.exact f hf
  cases hrefused with
  | faulty hfaulty => exact absurd hfaulty (Fragment.validate_eq_ok_iff.1 hexact.validate _)
  | @collision p _ hp hknown =>
      refine ⟨p, rfl, ⟨f, hf, hp⟩, hknown.resolve_right ?_⟩
      rintro ⟨g, hg, hpg⟩
      exact (List.pairwise_append.1 h.apart).2.2 g hg f List.mem_cons_self p hpg hp
  | unused _ _ hp hno =>
      exact absurd (by simpa using List.find?_eq_none.1 hexact.used _ hp) hno

end Compiler

end Keyspace
