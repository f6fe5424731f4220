import Keyspace.Proofs.World.Deadline
import Mathlib.Algebra.Group.Nat.Defs
/-!
# The tries of an action

An action that is tried again leaves a history: each try began at some time, had an outcome, and
was done at some time.  The history is made visible by an action that records its tries; the record
changes nothing else.  Which histories a policy allows is said by a relation that follows the steps
of a run, and what the policy promises of a history follows from the relation.

Main definitions:

* `Keyspace.Try`, `Keyspace.Action.recorded` — a try, and an action that records its tries;
* `Keyspace.RetryPolicy.IsReason` — the outcomes that are a reason to try again;
* `Keyspace.RetryPolicy.Tries` — the histories of a policy, step by step;
* `Keyspace.RetryPolicy.Allows` — **what a policy promises of a history**.

Main results:

* `Keyspace.RetryPolicy.pause_eq` — the pause doubles up to its cap;
* `Keyspace.RetryPolicy.run_tries` — a run has a history of its policy;
* `Keyspace.RetryPolicy.Tries.add_length_le`, `Keyspace.RetryPolicy.Tries.more_iff`,
  `Keyspace.RetryPolicy.Tries.start_next`, `Keyspace.RetryPolicy.Tries.ends` — what there is in it;
* `Keyspace.RetryPolicy.run_keeps_policy` — **what a run does**.
-/

set_option autoImplicit false

namespace Keyspace

variable {σ α : Type}

/-! ### Records -/

/-- A try of an action: when it began, what came out, and when it was done. -/
structure Try (α : Type) where
  start : Nat
  outcome : Except Error α
  finish : Nat

/-- A world with a record of tries beside its store. -/
def World.recording (w : World σ) (tries : List (Try α)) : World (σ × List (Try α)) :=
  { store := (w.store, tries), now := w.now, sent := w.sent }

/-- **An action that records its tries.** -/
def Action.recorded (a : Action σ α) : Action (σ × List (Try α)) α := fun w =>
  let (outcome, v) := a { store := w.store.1, now := w.now, sent := w.sent }
  (outcome, v.recording (w.store.2 ++ [⟨w.now, outcome, v.now⟩]))

theorem Action.recorded_recording (a : Action σ α) (w : World σ) (tries : List (Try α)) :
    a.recorded (w.recording tries) =
      ((a w).1, (a w).2.recording (tries ++ [⟨w.now, (a w).1, (a w).2.now⟩])) := rfl

theorem World.recording_sleep (w : World σ) (tries : List (Try α)) (duration : Nat) :
    (w.recording tries).sleep duration = (w.sleep duration).recording tries := rfl

theorem World.recording_elapsed (w : World σ) (tries : List (Try α)) (deadline : Option Nat) :
    (w.recording tries).elapsed deadline = w.elapsed deadline := World.elapsed_congr rfl deadline

theorem World.not_isBefore_now {w : World σ} {deadline : Option Nat}
    (h : w.elapsed deadline = true) : ¬IsBefore deadline w.now := by
  cases deadline with
  | none => cases h
  | some limit =>
      intro hbefore
      have hlate : limit ≤ w.now := by simpa [World.elapsed] using h
      exact absurd (hbefore limit rfl) (Nat.not_lt.2 hlate)

namespace RetryPolicy

/-! ### Pauses -/

theorem factor_of_lt {k : Nat} (hk : k < 64) : factor k = 2 ^ k := by
  have hmod : k % UInt32.size = k := Nat.mod_eq_of_lt (Nat.lt_trans hk (by decide))
  simp only [factor, hmod, if_pos hk]
  rfl

theorem factor_of_le {k : Nat} (hlarge : 64 ≤ k) (hk : k < 2 ^ 32) :
    factor k = Number.maxUInt64 := by
  have hmod : k % UInt32.size = k := Nat.mod_eq_of_lt hk
  simp only [factor, hmod, if_neg (Nat.not_lt.2 hlarge)]

/-- **The pause doubles up to its cap**, as long as there are fewer than `2 ^ 32` tries. -/
theorem pause_eq {p : RetryPolicy} (hcap : p.cap ≤ Number.maxUInt64) {k : Nat}
    (hk : k < 2 ^ 32) : p.pause k = min (p.initial * 2 ^ k) p.cap := by
  unfold pause
  rcases Nat.lt_or_ge k 64 with hsmall | hlarge
  · rw [factor_of_lt hsmall, Nat.min_assoc, Nat.min_eq_right hcap]
  · -- both products are above the cap, or both are zero
    have hpower : Number.maxUInt64 ≤ 2 ^ k :=
      Nat.le_trans (Nat.sub_le _ 1) (Nat.pow_le_pow_right (Nat.le_succ 1) hlarge)
    rw [factor_of_le hlarge hk]
    rcases Nat.eq_zero_or_pos p.initial with hzero | hpos
    · simp [hzero]
    · have hleft : Number.maxUInt64 ≤ p.initial * Number.maxUInt64 := Nat.le_mul_of_pos_left _ hpos
      have hright : 2 ^ k ≤ p.initial * 2 ^ k := Nat.le_mul_of_pos_left _ hpos
      rw [Nat.min_eq_right hleft, Nat.min_eq_right hcap,
        Nat.min_eq_right (Nat.le_trans hcap (Nat.le_trans hpower hright))]

/-! ### Histories -/

/-- **A reason to try again**: a fault of the store, or under some policies an empty result. -/
def IsReason (p : RetryPolicy) (isEmpty : α → Bool) (outcome : Except Error α) : Prop :=
  (∃ fault, outcome = .error (.store fault)) ∨
    (p.onEmpty = true ∧ ∃ a, outcome = .ok a ∧ isEmpty a = true)

theorem wantsMore_iff {p : RetryPolicy} {isEmpty : α → Bool} {outcome : Except Error α} :
    p.wantsMore isEmpty outcome = true ↔ p.IsReason isEmpty outcome := by
  cases outcome with
  | ok a => simp [wantsMore, IsReason]
  | error e => cases e <;> simp [wantsMore, IsReason, Error.isStore]

/-- **The histories of a policy** from a time on, when there were `k` tries before, with the outcome
of them all. -/
inductive Tries (p : RetryPolicy) (deadline : Option Nat) (operation : Operation)
    (isEmpty : α → Bool) : Nat → Nat → List (Try α) → Except Error α → Prop where
  /-- The deadline has come. -/
  | late {k now : Nat} (hlate : ¬IsBefore deadline now) :
    Tries p deadline operation isEmpty k now [] (.error (.timeout operation k))
  /-- One try, and no reason for another one or no more of them. -/
  | last {k : Nat} {t : Try α} (hearly : IsBefore deadline t.start)
    (hfinal : ¬(p.IsReason isEmpty t.outcome ∧ k < p.max)) :
    Tries p deadline operation isEmpty k t.start [t] t.outcome
  /-- One try, and others after a pause. -/
  | again {k : Nat} {t : Try α} {ts : List (Try α)} {outcome : Except Error α}
    (hearly : IsBefore deadline t.start) (hreason : p.IsReason isEmpty t.outcome)
    (hleft : k < p.max)
    (hrest : Tries p deadline operation isEmpty (k + 1) (t.finish + p.pause k) ts outcome) :
    Tries p deadline operation isEmpty k t.start (t :: ts) outcome

section

variable {p : RetryPolicy} {deadline : Option Nat} {operation : Operation} {isEmpty : α → Bool}

/-- After the deadline nothing is recorded. -/
theorem before_recorded_late (a : Action σ α) (attempts : Nat) {w : World σ}
    (h : w.elapsed deadline = true) (ts : List (Try α)) :
    before deadline operation attempts a.recorded (w.recording ts) =
      (.error (.timeout operation attempts), w.recording ts) :=
  before_late operation _ _ ((w.recording_elapsed ts deadline).trans h)

/-- Before the deadline the try is recorded. -/
theorem before_recorded_early (a : Action σ α) (attempts : Nat) {w : World σ}
    (h : w.elapsed deadline = false) (ts : List (Try α)) :
    before deadline operation attempts a.recorded (w.recording ts) =
      ((a w).1, (a w).2.recording (ts ++ [⟨w.now, (a w).1, (a w).2.now⟩])) :=
  (before_early operation _ _ ((w.recording_elapsed ts deadline).trans h)).trans
    (a.recorded_recording w ts)

/-- **Tries that are left have a history**, and recording it changes nothing else. -/
theorem runFrom_tries (a : Action σ α) (left : Nat) (hleft : left ≤ p.max) (w : World σ)
    (earlier : List (Try α)) :
    ∃ ts outcome v,
      p.runFrom deadline operation isEmpty a.recorded left (w.recording earlier) =
        (outcome, v.recording (earlier ++ ts)) ∧
      p.runFrom deadline operation isEmpty a left w = (outcome, v) ∧
      p.Tries deadline operation isEmpty (p.max - left) w.now ts outcome := by
  -- the record of the tries before may be any: after a pause it has one try more
  induction left generalizing w earlier with
  | zero =>
      unfold runFrom
      cases hlate : w.elapsed deadline with
      | true =>
          rw [before_recorded_late a p.max hlate, before_late operation p.max a hlate]
          exact ⟨[], _, w, by rw [List.append_nil], rfl, .late (World.not_isBefore_now hlate)⟩
      | false =>
          rw [before_recorded_early a p.max hlate, before_early operation p.max a hlate]
          let t : Try α := ⟨w.now, (a w).1, (a w).2.now⟩
          have hlast : p.Tries deadline operation isEmpty p.max t.start [t] t.outcome :=
            .last (World.isBefore_now hlate) fun h => Nat.lt_irrefl _ h.2
          exact ⟨[t], _, (a w).2, rfl, rfl, hlast⟩
  | succ left ih =>
      unfold runFrom
      cases hlate : w.elapsed deadline with
      | true =>
          simp only [before_recorded_late a _ hlate, before_late operation _ a hlate, wantsMore,
            Error.isStore]
          exact ⟨[], _, w, by rw [List.append_nil]; rfl, rfl, .late (World.not_isBefore_now hlate)⟩
      | false =>
          simp only [before_recorded_early a _ hlate, before_early operation _ a hlate]
          let t : Try α := ⟨w.now, (a w).1, (a w).2.now⟩
          have hearly : IsBefore deadline t.start := World.isBefore_now hlate
          by_cases hmore : p.wantsMore isEmpty (a w).1 = true
          · -- the world after the pause has its own history, and this try comes before it
            obtain ⟨ts, outcome, v, hrecorded, hran, hrest⟩ := ih (by omega)
              ((a w).2.sleep (p.pause (p.max - (left + 1)))) (earlier ++ [t])
            have hcount : p.max - left = p.max - (left + 1) + 1 := by omega
            rw [hcount] at hrest
            have hagain : p.Tries deadline operation isEmpty (p.max - (left + 1)) t.start (t :: ts)
                outcome := .again hearly (wantsMore_iff.1 hmore) (by omega) hrest
            refine ⟨t :: ts, outcome, v, ?_, ?_, hagain⟩
            · rw [if_pos hmore, World.recording_sleep, List.append_cons earlier t ts]
              exact hrecorded
            · rw [if_pos hmore]
              exact hran
          · have hlast : p.Tries deadline operation isEmpty (p.max - (left + 1)) t.start [t]
                t.outcome := .last hearly fun h => hmore (wantsMore_iff.2 h.1)
            refine ⟨[t], _, (a w).2, ?_, ?_, hlast⟩
            · rw [if_neg hmore]
            · rw [if_neg hmore]

/-- **A run has a history of its policy**, and recording it changes nothing else. -/
theorem run_tries (a : Action σ α) (w : World σ) :
    ∃ ts outcome v,
      p.run deadline operation isEmpty a.recorded (w.recording []) =
        (outcome, v.recording ts) ∧
      p.run deadline operation isEmpty a w = (outcome, v) ∧
      p.Tries deadline operation isEmpty 0 w.now ts outcome := by
  have hrun := @runFrom_tries σ α p deadline operation isEmpty a p.max (Nat.le_refl _) w []
  rwa [Nat.sub_self] at hrun

namespace Tries

variable {k now : Nat} {ts : List (Try α)} {outcome : Except Error α}

/-- There are at most as many tries as the policy allows after the first. -/
theorem add_length_le (h : p.Tries deadline operation isEmpty k now ts outcome)
    (hk : k ≤ p.max) : k + ts.length ≤ p.max + 1 := by
  induction h with
  | late _ => exact Nat.le_succ_of_le hk
  | last _ _ => exact Nat.succ_le_succ hk
  | again _ _ hleft _ ih =>
      rw [List.length_cons]
      have hrest := ih hleft
      omega

/-- The first try is made if the deadline has not come, and at once. -/
theorem first_iff (h : p.Tries deadline operation isEmpty k now ts outcome) :
    (ts ≠ [] ↔ IsBefore deadline now) ∧ ∀ t, ts[0]? = some t → t.start = now := by
  cases h with
  | late hlate => exact ⟨⟨fun hne => absurd rfl hne, fun hearly => absurd hearly hlate⟩, by simp⟩
  | last hearly _ => exact ⟨by simpa using hearly, by simp⟩
  | again hearly _ _ _ => exact ⟨by simpa using hearly, by simp⟩

/-- **One more try** is made if there is a reason, the policy allows it, and the deadline has not
come after the pause. -/
theorem more_iff (h : p.Tries deadline operation isEmpty k now ts outcome) {j : Nat} {t : Try α}
    (ht : ts[j]? = some t) :
    j + 1 < ts.length ↔ p.IsReason isEmpty t.outcome ∧ k + j < p.max ∧
      IsBefore deadline (t.finish + p.pause (k + j)) := by
  induction h generalizing j with
  | late _ => cases ht
  | last _ hfinal =>
      obtain ⟨rfl, rfl⟩ : j = 0 ∧ _ = t := by simpa [List.getElem?_cons] using ht
      refine ⟨fun hmore => ?_, fun hreason => absurd ⟨hreason.1, hreason.2.1⟩ hfinal⟩
      exact absurd hmore (Nat.lt_irrefl 1)
  | again _ hreason hleft hrest ih =>
      cases j with
      | zero =>
          obtain rfl := Option.some.inj ht
          -- the next try is the first one of the rest
          have hfirst := hrest.first_iff.1
          rw [List.length_cons, Nat.add_lt_add_iff_right, List.length_pos_iff, hfirst]
          exact ⟨fun hearly => ⟨hreason, hleft, hearly⟩, fun hmore => hmore.2.2⟩
      | succ j =>
          rw [List.length_cons, Nat.add_lt_add_iff_right, ← Nat.add_assoc, Nat.add_right_comm]
          exact ih ht

/-- The next try begins after the pause. -/
theorem start_next (h : p.Tries deadline operation isEmpty k now ts outcome) {j : Nat}
    {t t' : Try α} (ht : ts[j]? = some t) (ht' : ts[j + 1]? = some t') :
    t'.start = t.finish + p.pause (k + j) := by
  induction h generalizing j with
  | late _ => cases ht
  | last _ _ => cases ht'
  | again _ _ _ hrest ih =>
      cases j with
      | zero =>
          obtain rfl := Option.some.inj ht
          exact hrest.first_iff.2 t' ht'
      | succ j =>
          rw [← Nat.add_assoc, Nat.add_right_comm]
          exact ih ht ht'

/-- Without a try the deadline has come. -/
theorem nil_ends (h : p.Tries deadline operation isEmpty k now [] outcome) :
    outcome = .error (.timeout operation k) := by
  cases h with
  | late _ => rfl

/-- **What comes out** is what the last try ended with if it was final, and otherwise a timeout
that counts the tries. -/
theorem ends (h : p.Tries deadline operation isEmpty k now ts outcome) {t : Try α}
    (ht : ts.getLast? = some t) :
    (p.IsReason isEmpty t.outcome ∧ k + ts.length ≤ p.max →
      outcome = .error (.timeout operation (k + ts.length))) ∧
    (¬(p.IsReason isEmpty t.outcome ∧ k + ts.length ≤ p.max) → outcome = t.outcome) := by
  induction h with
  | late _ => cases ht
  | last _ hfinal =>
      obtain rfl := Option.some.inj ht
      exact ⟨fun hagain => absurd hagain hfinal, fun _ => rfl⟩
  | @again k first rest outcome _ hreason hleft hrest ih =>
      cases rest with
      | nil =>
          obtain rfl := Option.some.inj ht
          exact ⟨fun _ => hrest.nil_ends, fun hfinal => absurd ⟨hreason, hleft⟩ hfinal⟩
      | cons second rest =>
          -- the last try is the last one of the rest
          rw [List.length_cons, ← Nat.add_assoc, Nat.add_right_comm]
          exact ih ht

end Tries

end

/-! ### What a policy allows -/

/-- **A policy allows a history** that begins at a time and comes to an outcome. -/
structure Allows (p : RetryPolicy) (deadline : Option Nat) (operation : Operation)
    (isEmpty : α → Bool) (now : Nat) (ts : List (Try α)) (outcome : Except Error α) : Prop where
  length_le : ts.length ≤ p.max + 1
  /-- There is a first try if the deadline has not come, and it is made at once. -/
  first : ts ≠ [] ↔ IsBefore deadline now
  start_first : ∀ t, ts[0]? = some t → t.start = now
  /-- There is one more try if there is a reason, the policy has some left, and the deadline has not
  come after the pause. -/
  more : ∀ k t, ts[k]? = some t →
    (k + 1 < ts.length ↔ p.IsReason isEmpty t.outcome ∧ k < p.max ∧
      IsBefore deadline (t.finish + min (p.initial * 2 ^ k) p.cap))
  start_next : ∀ k t t', ts[k]? = some t → ts[k + 1]? = some t' →
    t'.start = t.finish + min (p.initial * 2 ^ k) p.cap
  untried : ts = [] → outcome = .error (.timeout operation 0)
  /-- Another try was wanted and there were some left. -/
  stopped : ∀ t, ts.getLast? = some t → p.IsReason isEmpty t.outcome → ts.length ≤ p.max →
    outcome = .error (.timeout operation ts.length)
  final : ∀ t, ts.getLast? = some t → ¬(p.IsReason isEmpty t.outcome ∧ ts.length ≤ p.max) →
    outcome = t.outcome

/-- What a policy allows is said by its histories. -/
theorem Tries.allowed {p : RetryPolicy} {deadline : Option Nat} {operation : Operation}
    {isEmpty : α → Bool} {now : Nat} {ts : List (Try α)} {outcome : Except Error α}
    (hmax : p.max < 2 ^ 32) (hcap : p.cap ≤ Number.maxUInt64)
    (h : p.Tries deadline operation isEmpty 0 now ts outcome) :
    p.Allows deadline operation isEmpty now ts outcome := by
  have hlength : ts.length ≤ p.max + 1 := by simpa using h.add_length_le (Nat.zero_le _)
  have hpause : ∀ k, k ≤ p.max → p.pause (0 + k) = min (p.initial * 2 ^ k) p.cap := fun k hk => by
    rw [Nat.zero_add, pause_eq hcap (Nat.lt_of_le_of_lt hk hmax)]
  have hbound : ∀ {k : Nat} {t : Try α}, ts[k]? = some t → k ≤ p.max := fun ht =>
    Nat.le_of_lt_succ (Nat.lt_of_lt_of_le (List.getElem?_eq_some_iff.1 ht).1 hlength)
  have hends := fun (t : Try α) (ht : ts.getLast? = some t) => h.ends ht
  simp only [Nat.zero_add] at hends
  exact
    { length_le := hlength
      first := h.first_iff.1
      start_first := h.first_iff.2
      more := fun k t ht => by rw [h.more_iff ht, hpause k (hbound ht), Nat.zero_add]
      start_next := fun k t t' ht ht' => by rw [h.start_next ht ht', hpause k (hbound ht)]
      untried := by
        rintro rfl
        exact h.nil_ends
      stopped := fun t ht hreason hleft => (hends t ht).1 ⟨hreason, hleft⟩
      final := fun t ht hfinal => (hends t ht).2 hfinal }

/-- **The history of a run.** -/
def history (p : RetryPolicy) (deadline : Option Nat) (operation : Operation)
    (isEmpty : α → Bool) (a : Action σ α) (w : World σ) : List (Try α) :=
  (p.run deadline operation isEmpty a.recorded (w.recording [])).2.store.2

/-- **What a run does.**  Its policy allows its history, and recording the history changes nothing
else. -/
theorem run_keeps_policy (p : RetryPolicy) (hmax : p.max < 2 ^ 32)
    (hcap : p.cap ≤ Number.maxUInt64) (deadline : Option Nat) (operation : Operation)
    (isEmpty : α → Bool) (a : Action σ α) (w : World σ) :
    let ran := p.run deadline operation isEmpty a w
    let history := p.history deadline operation isEmpty a w
    p.run deadline operation isEmpty a.recorded (w.recording []) =
        (ran.1, ran.2.recording history) ∧
      p.Allows deadline operation isEmpty w.now history ran.1 := by
  obtain ⟨ts, outcome, v, hrecorded, hran, htries⟩ :=
    @run_tries σ α p deadline operation isEmpty a w
  have hhistory : p.history deadline operation isEmpty a w = ts := by
    rw [history, hrecorded]
    rfl
  intro ran history
  rw [show ran = (outcome, v) from hran, show history = ts from hhistory]
  exact ⟨hrecorded, htries.allowed hmax hcap⟩

end RetryPolicy

/-! ### A library -/

namespace Library

/-- Three calls of five milliseconds each: a fault, nothing, and a book. -/
def ask : Action Nat (List String) := fun w =>
  let outcome : Except Error (List String) :=
    match w.store with
    | 0 => .error (.store ⟨.query, "offline"⟩)
    | 1 => .ok []
    | _ => .ok ["Emma"]
  (outcome, { w with store := w.store + 1, now := w.now + 5 })

def patience : RetryPolicy := { max := 3, initial := 10, cap := 15, onEmpty := true }

/-- The tries begin after pauses of ten and fifteen milliseconds. -/
def asked : List (Try (List String)) :=
  [⟨0, .error (.store ⟨.query, "offline"⟩), 5⟩, ⟨15, .ok [], 20⟩, ⟨35, .ok ["Emma"], 40⟩]

end Library

open Library

theorem library_is_asked_again :
    patience.max < 2 ^ 32 ∧ patience.cap ≤ Number.maxUInt64 ∧
      (patience.run (some 100) .query List.isEmpty ask { store := 0 }).1 = .ok ["Emma"] ∧
      patience.run (some 100) .query List.isEmpty ask.recorded { store := (0, []) } =
        (.ok ["Emma"], { store := (3, asked), now := 40 }) ∧
      patience.Allows (some 100) .query List.isEmpty 0 asked (.ok ["Emma"]) :=
  ⟨by decide, by decide, rfl,
    RetryPolicy.run_keeps_policy patience (by decide) (by decide) (some 100) .query List.isEmpty ask
      { store := 0 }⟩

end Keyspace
