import Keyspace.Proofs.World.Tries
/-!
# Pauses that start over

A pause doubles with each try up to its cap, but the tries are counted modulo `2 ^ 32`.  So there
is one number of tries at which the pause falls back to the first one, and grows anew.  The pause is
said exactly for every number of tries: it is the doubled one of the count that is left, it never
passes its cap, and it differs from the doubled one of the number itself in one case only.

Main definitions:

* `Keyspace.RetryPolicy.FallsShort` — the tries after which a pause is too short.

Main results:

* `Keyspace.RetryPolicy.pause_eq_mod` — the pause is that of the tries modulo `2 ^ 32`;
* `Keyspace.RetryPolicy.pause_le_cap`, `Keyspace.RetryPolicy.factor_le` — the bounds of a pause and
  of its factor;
* `Keyspace.RetryPolicy.pause_mono`, `Keyspace.RetryPolicy.Tries.wait_mono` — the pause does not
  decrease below `2 ^ 32` tries, and neither does what passes between the tries of a run;
* `Keyspace.RetryPolicy.pause_ne_iff` — where the pause is not the doubled one;
* `Keyspace.RetryPolicy.pause_doubles_and_starts_over` — **what a policy pauses**.
-/

set_option autoImplicit false

namespace Keyspace.RetryPolicy

variable {p : RetryPolicy}

/-! ### Bounds -/

/-- **The factor is a number of 64 bits.** -/
theorem factor_le (k : Nat) : factor k ≤ Number.maxUInt64 := by
  simp only [factor]
  split
  case isTrue hsmall =>
    have hpower : 2 ^ (k % UInt32.size) ≤ 2 ^ 63 :=
      Nat.pow_le_pow_right (Nat.succ_pos 1) (Nat.le_of_lt_succ hsmall)
    exact Nat.le_trans hpower (by decide)
  case isFalse => exact Nat.le_refl _

/-- **The pause never passes its cap.** -/
theorem pause_le_cap (k : Nat) : p.pause k ≤ p.cap := Nat.min_le_right _ _

/-! ### The count modulo `2 ^ 32` -/

theorem pause_mod (k : Nat) : p.pause (k % 2 ^ 32) = p.pause k := by
  have hmod : k % 2 ^ 32 % UInt32.size = k % UInt32.size := Nat.mod_mod k (2 ^ 32)
  simp only [pause, factor, hmod]

/-- **The pause is the doubled one of the tries modulo `2 ^ 32`**, cut at its cap. -/
theorem pause_eq_mod (hcap : p.cap ≤ Number.maxUInt64) (k : Nat) :
    p.pause k = min (p.initial * 2 ^ (k % 2 ^ 32)) p.cap := by
  rw [← pause_mod, pause_eq hcap (Nat.mod_lt k (Nat.two_pow_pos 32))]

/-- **The pause does not decrease** below `2 ^ 32` tries. -/
theorem pause_mono (hcap : p.cap ≤ Number.maxUInt64) {j k : Nat} (hjk : j ≤ k)
    (hk : k < 2 ^ 32) : p.pause j ≤ p.pause k := by
  rw [pause_eq hcap (Nat.lt_of_le_of_lt hjk hk), pause_eq hcap hk]
  have hdoubled : p.initial * 2 ^ j ≤ p.initial * 2 ^ k :=
    Nat.mul_le_mul_left _ (Nat.pow_le_pow_right (Nat.succ_pos 1) hjk)
  exact Nat.le_min.2
    ⟨Nat.le_trans (Nat.min_le_left _ _) hdoubled, Nat.min_le_right _ _⟩

/-- **The waits of a run do not decrease**: what passes between a try and the next one is no less
than what passed between earlier ones, up to the try at which the count starts over. -/
theorem Tries.wait_mono {α : Type} {deadline : Option Nat} {operation : Operation}
    {isEmpty : α → Bool} {now : Nat} {ts : List (Try α)} {outcome : Except Error α}
    (hcap : p.cap ≤ Number.maxUInt64) (h : p.Tries deadline operation isEmpty 0 now ts outcome)
    {j k : Nat} (hjk : j ≤ k) (hk : k < 2 ^ 32) {s s' t t' : Try α} (hs : ts[j]? = some s)
    (hs' : ts[j + 1]? = some s') (ht : ts[k]? = some t) (ht' : ts[k + 1]? = some t') :
    s'.start - s.finish ≤ t'.start - t.finish := by
  have hearlier : s'.start = s.finish + p.pause j := by simpa using h.start_next hs hs'
  have hlater : t'.start = t.finish + p.pause k := by simpa using h.start_next ht ht'
  rw [hearlier, hlater, Nat.add_sub_cancel_left, Nat.add_sub_cancel_left]
  exact pause_mono hcap hjk hk

/-! ### Pauses that are too short -/

/-- **The tries after which a pause is too short**: the count has started over, there is something
to double, and what is left of the count is not enough to reach the cap. -/
def FallsShort (p : RetryPolicy) (k : Nat) : Prop :=
  2 ^ 32 ≤ k ∧ 0 < p.initial ∧ p.initial * 2 ^ (k % 2 ^ 32) < p.cap

instance (p : RetryPolicy) (k : Nat) : Decidable (p.FallsShort k) :=
  inferInstanceAs (Decidable (_ ∧ _ ∧ _))

/-- A number of 64 bits is reached by doubling as often as the count has started over. -/
theorem cap_le_doubled (hcap : p.cap ≤ Number.maxUInt64) (hinitial : 0 < p.initial) {k : Nat}
    (hk : 2 ^ 32 ≤ k) : p.cap ≤ p.initial * 2 ^ k := by
  have hpower : 2 ^ 64 ≤ 2 ^ k :=
    Nat.pow_le_pow_right (Nat.succ_pos 1) (Nat.le_trans (by decide) hk)
  calc p.cap ≤ Number.maxUInt64 := hcap
    _ ≤ 2 ^ 64 := Nat.sub_le _ 1
    _ ≤ 2 ^ k := hpower
    _ ≤ p.initial * 2 ^ k := Nat.le_mul_of_pos_left _ hinitial

theorem pause_lt_of_fallsShort (hcap : p.cap ≤ Number.maxUInt64) {k : Nat}
    (h : p.FallsShort k) : p.pause k < min (p.initial * 2 ^ k) p.cap := by
  obtain ⟨hk, hinitial, hshort⟩ := h
  rw [pause_eq_mod hcap, Nat.min_eq_right (cap_le_doubled hcap hinitial hk)]
  exact Nat.lt_of_le_of_lt (Nat.min_le_left _ _) hshort

theorem pause_eq_of_not_fallsShort (hcap : p.cap ≤ Number.maxUInt64) {k : Nat}
    (h : ¬p.FallsShort k) : p.pause k = min (p.initial * 2 ^ k) p.cap := by
  rcases Nat.lt_or_ge k (2 ^ 32) with hk | hk
  · exact pause_eq hcap hk
  rcases Nat.eq_zero_or_pos p.initial with hzero | hinitial
  · rw [pause_eq_mod hcap, hzero, Nat.zero_mul, Nat.zero_mul]
  · -- what is left of the count reaches the cap, so the whole number does
    have hreached : p.cap ≤ p.initial * 2 ^ (k % 2 ^ 32) :=
      Nat.le_of_not_lt fun hshort => h ⟨hk, hinitial, hshort⟩
    rw [pause_eq_mod hcap, Nat.min_eq_right hreached,
      Nat.min_eq_right (cap_le_doubled hcap hinitial hk)]

/-- **Where the pause is not the doubled one**: just where it falls short of it. -/
theorem pause_ne_iff (hcap : p.cap ≤ Number.maxUInt64) (k : Nat) :
    p.pause k ≠ min (p.initial * 2 ^ k) p.cap ↔ p.FallsShort k := by
  constructor
  · intro hne
    exact Decidable.byContradiction fun hlong => hne (pause_eq_of_not_fallsShort hcap hlong)
  · intro hshort
    exact Nat.ne_of_lt (pause_lt_of_fallsShort hcap hshort)

/-! ### What a policy pauses -/

/-- **What a policy pauses.**  Below `2 ^ 32` tries the pause is the first one doubled for each try
and cut at the cap, so it does not decrease.  From there on the count starts over, and the pause is
the doubled one unless it falls short.  It never passes the cap, and the factor is always a number
of 64 bits. -/
theorem pause_doubles_and_starts_over (p : RetryPolicy) (hcap : p.cap ≤ Number.maxUInt64) :
    (∀ k < 2 ^ 32, p.pause k = min (p.initial * 2 ^ k) p.cap) ∧
      (∀ j k, j ≤ k → k < 2 ^ 32 → p.pause j ≤ p.pause k) ∧
      (∀ k, p.pause k = min (p.initial * 2 ^ (k % 2 ^ 32)) p.cap) ∧
      (∀ k, p.pause k ≠ min (p.initial * 2 ^ k) p.cap ↔ p.FallsShort k) ∧
      (∀ k, p.pause k ≤ p.cap ∧ factor k ≤ Number.maxUInt64) :=
  ⟨fun _ hk => pause_eq hcap hk, fun _ _ hjk hk => pause_mono hcap hjk hk, pause_eq_mod hcap,
    pause_ne_iff hcap, fun k => ⟨pause_le_cap k, factor_le k⟩⟩

/-- A policy that pauses for one millisecond, then for two. -/
def briefPatience : RetryPolicy := { max := 2 ^ 32, initial := 1, cap := 2 }

theorem brief_patience_pauses_briefly :
    briefPatience.cap ≤ Number.maxUInt64 ∧ briefPatience.pause (2 ^ 32 - 1) = 2 ∧
      briefPatience.pause 0 ≤ briefPatience.pause 1 ∧ briefPatience.FallsShort (2 ^ 32) := by
  have hcap : briefPatience.cap ≤ Number.maxUInt64 := by decide
  have hshort : briefPatience.FallsShort (2 ^ 32) := by decide +kernel
  obtain ⟨-, hmono, -⟩ := pause_doubles_and_starts_over briefPatience hcap
  refine ⟨hcap, ?_, hmono 0 1 (Nat.zero_le 1) (by decide), hshort⟩
  decide +kernel

/-- After `2 ^ 32` tries the pause is shorter than the one before it and than the doubled one. -/
theorem brief_patience_starts_over :
    briefPatience.pause (2 ^ 32) < briefPatience.pause (2 ^ 32 - 1) ∧
      briefPatience.pause (2 ^ 32) ≠
        min (briefPatience.initial * 2 ^ (2 ^ 32)) briefPatience.cap :=
  ⟨by decide +kernel,
    Nat.ne_of_lt (pause_lt_of_fallsShort (by decide) (by decide +kernel))⟩

end Keyspace.RetryPolicy
