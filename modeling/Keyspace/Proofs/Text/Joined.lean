import Keyspace.Proofs.Placeholder.Tokens
import Mathlib.Data.List.Basic
/-!
# Joined texts

Texts can be joined with a separator between them.  They are read back from the joined text if
they do not hold the separator.

Main results:

* `Keyspace.append_cons_inj_of_not_mem` — both sides of the last separator;
* `Keyspace.intercalate_inj`, `Keyspace.intercalate_inj_of_ne_empty` — **joined texts are read
  back**;
* `Keyspace.not_mem_intercalate` — the characters of a joined text;
* `Keyspace.toString_int_inj`, `Keyspace.mem_toString_int` — the texts of whole numbers.
-/

set_option autoImplicit false

namespace Keyspace

/-! ### Separators -/

/-- Both sides of the last separator. -/
theorem append_cons_inj_of_not_mem {α : Type} {sep : α} {xs ys us vs : List α} (hu : sep ∉ us)
    (hv : sep ∉ vs) (h : xs ++ sep :: us = ys ++ sep :: vs) : xs = ys ∧ us = vs := by
  rcases List.append_eq_append_iff.1 h with ⟨mid, rfl, hmid⟩ | ⟨mid, rfl, hmid⟩
  · cases mid with
    | nil => simpa using hmid
    | cons c cs =>
        obtain ⟨-, rfl⟩ := List.cons.inj hmid
        exact absurd (by simp) hu
  · cases mid with
    | nil => simpa using hmid.symm
    | cons c cs =>
        obtain ⟨-, rfl⟩ := List.cons.inj hmid
        exact absurd (by simp) hv

/-- **Parts without the separator are read back from their joined text.** -/
theorem intercalate_inj {sep : Char} {xs ys : List String} (hx : ∀ x ∈ xs, sep ∉ x.toList)
    (hy : ∀ y ∈ ys, sep ∉ y.toList) (hxne : xs ≠ []) (hyne : ys ≠ [])
    (h : (String.singleton sep).intercalate xs = (String.singleton sep).intercalate ys) :
    xs = ys := by
  have hsplit : ∀ zs : List String, (∀ z ∈ zs, sep ∉ z.toList) → zs ≠ [] →
      ((String.singleton sep).intercalate zs).toList.splitOn sep = zs.map String.toList := by
    intro zs hzs hne
    rw [String.toList_intercalate, String.toList_singleton]
    exact List.splitOn_intercalate sep (by simpa using hzs) (by simpa using hne)
  have hlists : xs.map String.toList = ys.map String.toList := by
    rw [← hsplit xs hx hxne, ← hsplit ys hy hyne, h]
  exact List.map_injective_iff.2 (fun _ _ => String.toList_inj.1) hlists

/-- The same for parts that are not empty, of which there may be none. -/
theorem intercalate_inj_of_ne_empty {sep : Char} {xs ys : List String}
    (hx : ∀ x ∈ xs, x ≠ "" ∧ sep ∉ x.toList) (hy : ∀ y ∈ ys, y ≠ "" ∧ sep ∉ y.toList)
    (h : (String.singleton sep).intercalate xs = (String.singleton sep).intercalate ys) :
    xs = ys := by
  have hempty : ∀ zs : List String, (∀ z ∈ zs, z ≠ "" ∧ sep ∉ z.toList) →
      (String.singleton sep).intercalate zs = "" → zs = [] := by
    intro zs hzs htext
    match zs with
    | [] => rfl
    | [z] =>
        rw [String.intercalate_singleton] at htext
        exact absurd htext (hzs z List.mem_cons_self).1
    | z :: y :: rest =>
        rw [String.intercalate_cons_cons] at htext
        have hlist := congrArg String.toList htext
        simp at hlist
  by_cases hxne : xs = []
  · rw [hxne] at h ⊢
    exact (hempty ys hy h.symm).symm
  · by_cases hyne : ys = []
    · rw [hyne] at h
      exact absurd (hempty xs hx h) hxne
    · exact intercalate_inj (fun x hm => (hx x hm).2) (fun y hm => (hy y hm).2) hxne hyne h

/-- A joined text begins with its first part. -/
theorem intercalate_cons (sep x : String) (xs : List String) :
    sep.intercalate (x :: xs) = x ++ String.join (xs.map (sep ++ ·)) := by
  induction xs generalizing x with
  | nil => simp
  | cons y ys ih =>
      rw [String.intercalate_cons_cons, ih, List.map_cons, String.join_cons]
      simp only [String.append_assoc]

/-- A joined text holds nothing but what its parts and the text between them hold. -/
theorem not_mem_intercalate {c : Char} {sep : String} {xs : List String} (hsep : c ∉ sep.toList)
    (hxs : ∀ x ∈ xs, c ∉ x.toList) : c ∉ (sep.intercalate xs).toList := by
  cases xs with
  | nil => simp
  | cons x rest =>
      rw [intercalate_cons, String.toList_append, String.toList_join, List.mem_append,
        List.mem_flatMap, not_or]
      refine ⟨hxs x List.mem_cons_self, ?_⟩
      rintro ⟨part, hpart, hc⟩
      obtain ⟨y, hy, rfl⟩ := List.mem_map.1 hpart
      rw [String.toList_append, List.mem_append] at hc
      exact hc.elim hsep (hxs y (List.mem_cons_of_mem x hy))

/-! ### Whole numbers -/

/-- Whole numbers with the same text are the same. -/
theorem toString_int_inj {m n : Int} (h : toString m = toString n) : m = n := by
  have hminus : ∀ k l : Nat, toString k ≠ "-" ++ toString l := by
    intro k l hkl
    have hmem : '-' ∈ (toString k).toList := by
      rw [hkl, String.toList_append]
      exact List.mem_cons_self
    exact absurd (Placeholder.isWordChar_of_mem_toString hmem) (by decide)
  have hnat : ∀ {k l : Nat}, toString k = toString l → k = l := fun hkl =>
    Placeholder.toString_nat_inj (congrArg String.toList hkl)
  match m, n with
  | .ofNat k, .ofNat l => exact congrArg Int.ofNat (hnat h)
  | .ofNat k, .negSucc l => exact absurd h (hminus k (l + 1))
  | .negSucc k, .ofNat l => exact absurd h.symm (hminus l (k + 1))
  | .negSucc k, .negSucc l =>
      have htail : toString (k + 1) = toString (l + 1) := (String.append_right_inj "-").1 h
      exact congrArg Int.negSucc (Nat.succ.inj (hnat htail))

/-- The text of a whole number holds nothing but digits and the sign. -/
theorem mem_toString_int {n : Int} {c : Char} (h : c ∈ (toString n).toList) :
    c = '-' ∨ Placeholder.isWordChar c = true := by
  match n with
  | .ofNat k => exact .inr (Placeholder.isWordChar_of_mem_toString h)
  | .negSucc k =>
      rw [show toString (Int.negSucc k) = "-" ++ toString (k + 1) from rfl,
        String.toList_append] at h
      exact (List.mem_append.1 h).imp List.mem_singleton.1 Placeholder.isWordChar_of_mem_toString

end Keyspace
