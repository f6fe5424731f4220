import Keyspace.Proofs.Batch.Deadline
import Keyspace.Proofs.World.Tries
/-!
# The rounds of a batch

A batch leaves a history of rounds.  Each round divides what is pending among its calls, begins at
some time, and is over when its last call has been answered.  Which histories a policy allows is
said by a relation that follows the steps of a batch; what the policy promises of the rounds, and
what comes out of them, follows from the relation.

Main definitions:

* `Keyspace.Batch.RoundRecord` — a round, with its calls and their answers;
* `Keyspace.Batch.Rounds` — the histories of a policy, step by step;
* `Keyspace.Batch.Follows`, `Keyspace.Batch.Ends` — **what a policy promises of the rounds of a
  batch**, and what comes out of them.

Main results:

* `Keyspace.Batch.run_history` — a batch has a history of its policy;
* `Keyspace.Batch.Rounds.follows`, `Keyspace.Batch.Rounds.ends` — what there is in it;
* `Keyspace.Batch.rounds_follow_the_policy` — **batches of writes and of reads**.
-/

set_option autoImplicit false

namespace Keyspace.Batch

variable {σ κ β : Type}

/-! ### Chunks -/

/-- There are as many chunks as are needed. -/
theorem length_chunksOf {size : Nat} (hsize : 0 < size) (xs : List κ) :
    (chunksOf size xs).length = (xs.length + size - 1) / size := by
  refine eq_of_forall_ge_iff fun n => ?_
  rw [length_chunksOf_le_iff hsize, Nat.div_le_iff_le_mul_add_pred hsize]
  omega

/-- No chunk is empty or too large. -/
theorem chunksOf_bounds {size : Nat} (hsize : 0 < size) (xs : List κ) :
    ∀ chunk ∈ chunksOf size xs, chunk ≠ [] ∧ chunk.length ≤ size := by
  fun_induction chunksOf size xs with
  | case1 => simp
  | case2 x rest ih =>
      refine List.forall_mem_cons.2 ⟨⟨List.cons_ne_nil _ _, ?_⟩, ih⟩
      rw [List.length_cons, List.length_take]
      omega

/-! ### Records -/

/-- **A round**: what was pending before it, when it began, its calls, and when it was over. -/
structure RoundRecord (κ : Type) where
  pending : List κ
  start : Nat
  calls : List (Exchange κ (Answer κ))
  finish : Nat

namespace RoundRecord

/-- What a round leaves: what its answers leave out, and all of the calls that met a fault. -/
def left (r : RoundRecord κ) : List κ := r.calls.flatMap fun x => Settlement.left x.outcome

/-- One call is made for each chunk, the first of them at once, and the round is over when all have
been answered. -/
structure IsRound (r : RoundRecord κ) (size : Nat) : Prop where
  works : r.calls.map Exchange.work = chunksOf size r.pending
  start : ∀ x, r.calls.head? = some x → x.time = r.start
  within : ∀ x ∈ r.calls, r.start ≤ x.time
  finish : r.finish = latest r.start (r.calls.map Exchange.due)

/-- **A round divides what is pending** among its calls, in its order; it begins with the first
call and ends with the last answer. -/
structure Divides (r : RoundRecord κ) (size : Nat) : Prop where
  whole : (r.calls.map Exchange.work).flatten = r.pending
  count : r.calls.length = (r.pending.length + size - 1) / size
  bounds : ∀ x ∈ r.calls, x.work ≠ [] ∧ x.work.length ≤ size
  start : ∀ x, r.calls.head? = some x → x.time = r.start
  within : ∀ x ∈ r.calls, r.start ≤ x.time ∧ x.due ≤ r.finish
  finish : ∃ x ∈ r.calls, x.due = r.finish

end RoundRecord

/-- Nothing is later than the latest. -/
theorem le_latest (now : Nat) (times : List Nat) :
    now ≤ latest now times ∧ ∀ t ∈ times, t ≤ latest now times := by
  induction times with
  | nil => exact ⟨Nat.le_refl _, by simp⟩
  | cons t rest ih =>
      show now ≤ max t (latest now rest) ∧ _
      refine ⟨ih.1.trans (Nat.le_max_right _ _), List.forall_mem_cons.2 ⟨Nat.le_max_left _ _, ?_⟩⟩
      exact fun u hu => (ih.2 u hu).trans (Nat.le_max_right _ _)

/-- The latest is now, or one of the times. -/
theorem latest_eq_or_mem (now : Nat) (times : List Nat) :
    latest now times = now ∨ latest now times ∈ times := by
  induction times with
  | nil => exact .inl rfl
  | cons t rest ih =>
      have hlatest : latest now (t :: rest) = max t (latest now rest) := rfl
      rw [hlatest]
      rcases Nat.le_total t (latest now rest) with hle | hle
      · rw [Nat.max_eq_right hle]
        exact ih.imp_right (List.mem_cons_of_mem t)
      · rw [Nat.max_eq_left hle]
        exact .inr List.mem_cons_self

/-- The latest of some times that are not before now is one of them. -/
theorem latest_mem {now : Nat} {times : List Nat} (hne : times ≠ []) (h : ∀ t ∈ times, now ≤ t) :
    latest now times ∈ times := by
  rcases latest_eq_or_mem now times with heq | hmem
  · obtain ⟨t, ht⟩ := List.exists_mem_of_ne_nil times hne
    rw [heq, Nat.le_antisymm (h t ht) (heq ▸ (le_latest now times).2 t ht)]
    exact ht
  · exact hmem

/-- **A round divides what is pending.** -/
theorem RoundRecord.IsRound.divides {r : RoundRecord κ} {size : Nat} (h : r.IsRound size)
    (hsize : 0 < size) (hpending : r.pending ≠ []) : r.Divides size := by
  have hlength : r.calls.length = (chunksOf size r.pending).length := by
    rw [← h.works, List.length_map]
  have hcalls : r.calls ≠ [] := by
    rintro hnil
    have hflatten := flatten_chunksOf size r.pending
    rw [← h.works, hnil] at hflatten
    exact hpending hflatten.symm
  have hlatest := (le_latest r.start (r.calls.map Exchange.due)).2
  rw [← h.finish] at hlatest
  have hmem : r.finish ∈ r.calls.map Exchange.due := by
    rw [h.finish]
    refine latest_mem (by simpa using hcalls) ?_
    rw [List.forall_mem_map]
    exact fun x hx => (h.within x hx).trans (Nat.le_add_right _ _)
  exact
    { whole := by rw [h.works, flatten_chunksOf]
      count := by rw [hlength, length_chunksOf hsize]
      bounds := fun x hx =>
        chunksOf_bounds hsize r.pending x.work (h.works ▸ List.mem_map_of_mem hx)
      start := h.start
      within := fun x hx => ⟨h.within x hx, hlatest x.due (List.mem_map_of_mem hx)⟩
      finish := List.mem_map.1 hmem }

/-- **The record of a round.** -/
theorem Job.round_record (j : Job σ κ) (pending : List κ) (w : World σ) :
    ∃ r : RoundRecord κ, r.pending = pending ∧ r.start = w.now ∧
      r.finish = (j.round pending w).2.now ∧ r.IsRound j.chunkSize ∧
      j.courier.Exchanged r.calls w (j.round pending w).2 ∧
      (j.round pending w).1.pending.Perm r.left := by
  have hwidth : 0 < j.width (chunksOf j.chunkSize pending).length := by
    unfold Job.width
    omega
  obtain ⟨xs, hworks, hmade, htimes, hanswers, hend⟩ :=
    flow_exchanges j.courier hwidth (chunksOf j.chunkSize pending) w
  obtain ⟨calls, hsent, -, htogether⟩ :=
    flow_together j.courier hwidth (chunksOf j.chunkSize pending) w
  have hcalls : xs.map (Exchange.sent j.courier) = calls :=
    List.append_cancel_left (hmade.sent.symm.trans hsent)
  have hstart : ∀ x, xs.head? = some x → x.time = w.now := by
    intro x hx
    refine htogether (x.sent j.courier) ?_
    obtain ⟨rest, rfl⟩ := List.head?_eq_some_iff.1 hx
    obtain ⟨n, hn⟩ := Nat.exists_eq_succ_of_ne_zero hwidth.ne'
    rw [← hcalls, hn]
    exact List.mem_cons_self
  refine ⟨⟨pending, w.now, xs, (j.round pending w).2.now⟩, rfl, rfl, rfl,
    ⟨hworks, hstart, htimes, hend⟩, hmade, ?_⟩
  obtain ⟨hpending, -⟩ := Round.foldl_add_spec j.operation
    (flow j.courier (j.width (chunksOf j.chunkSize pending).length)
      (chunksOf j.chunkSize pending) w).1 {}
  have hleft := hanswers.flatMap_right Settlement.left
  rw [List.flatMap_map] at hleft
  exact (List.Perm.of_eq hpending).trans hleft

/-! ### Histories -/

/-- **The histories of a policy** from a time on, when `k` rounds were made before, with the outcome
of them all. -/
inductive Rounds (size : Nat) (retry : RetryPolicy) (deadline : Option Nat) :
    Nat → List κ → Nat → List (RoundRecord κ) → Outcome κ → Prop where
  /-- The deadline has come. -/
  | late {k now : Nat} {pending : List κ} {p : Progress} (hlate : ¬IsBefore deadline now) :
    Rounds size retry deadline k pending now [] (stopped k pending p)
  /-- One round, and nothing is left. -/
  | done {k : Nat} {r : RoundRecord κ} {p : Progress} (hround : r.IsRound size)
    (hearly : IsBefore deadline r.start) (hdone : r.left = []) :
    Rounds size retry deadline k r.pending r.start [r] (.done k p)
  /-- One round, and there may be no more of them. -/
  | last {k : Nat} {r : RoundRecord κ} {p : Progress} {next : List κ} (hround : r.IsRound size)
    (hearly : IsBefore deadline r.start) (hleft : r.left ≠ []) (hnext : next.Perm r.left)
    (hmax : k = retry.max) :
    Rounds size retry deadline k r.pending r.start [r] (.incomplete next (k + 1) false p)
  /-- One round, and others after a pause. -/
  | again {k : Nat} {r : RoundRecord κ} {rs : List (RoundRecord κ)} {next : List κ}
    {outcome : Outcome κ} (hround : r.IsRound size) (hearly : IsBefore deadline r.start)
    (hleft : r.left ≠ []) (hnext : next.Perm r.left) (hmore : k < retry.max)
    (hrest : Rounds size retry deadline (k + 1) next (r.finish + retry.pause k) rs outcome) :
    Rounds size retry deadline k r.pending r.start (r :: rs) outcome

/-- Whether anything is pending after a round is a matter of what it leaves. -/
theorem RoundRecord.isEmpty_iff {r : RoundRecord κ} {next : List κ} (h : next.Perm r.left) :
    next.isEmpty = true ↔ r.left = [] := by
  rw [List.isEmpty_iff, ← List.perm_nil, ← List.perm_nil]
  exact ⟨h.symm.trans, h.trans⟩

/-- **Rounds that are left have a history**, and their calls are all that is sent. -/
theorem roundsFrom_history (j : Job σ κ) (retry : RetryPolicy) (deadline : Option Nat) {left : Nat}
    (hmax : left ≤ retry.max) (pending : List κ) (p : Progress) (w : World σ) :
    ∃ rs, Rounds j.chunkSize retry deadline (retry.max - left) pending w.now rs
        (roundsFrom j retry deadline left pending p w).1 ∧
      j.courier.Exchanged (rs.flatMap RoundRecord.calls) w
        (roundsFrom j retry deadline left pending p w).2 := by
  -- the rounds that were made are counted by those that are left
  induction left generalizing pending p w with
  | zero =>
      unfold roundsFrom
      cases hlate : w.elapsed deadline with
      | true => exact ⟨[], .late (World.not_isBefore_now hlate), .nothing _ rfl rfl⟩
      | false =>
          obtain ⟨r, rfl, hstart, -, hround, hmade, hnext⟩ := j.round_record pending w
          have hearly : IsBefore deadline r.start := hstart ▸ World.isBefore_now hlate
          have hone : j.courier.Exchanged ([r].flatMap RoundRecord.calls) w
              (j.round r.pending w).2 := by
            simpa using hmade
          simp only [Bool.false_eq_true, if_false, ← hstart]
          split
          · next hempty =>
              exact ⟨[r], .done hround hearly ((r.isEmpty_iff hnext).1 hempty), hone⟩
          · next hsome =>
              exact ⟨[r], .last hround hearly (hsome ∘ (r.isEmpty_iff hnext).2) hnext rfl, hone⟩
  | succ left ih =>
      unfold roundsFrom
      cases hlate : w.elapsed deadline with
      | true => exact ⟨[], .late (World.not_isBefore_now hlate), .nothing _ rfl rfl⟩
      | false =>
          obtain ⟨r, rfl, hstart, hfinish, hround, hmade, hnext⟩ := j.round_record pending w
          have hearly : IsBefore deadline r.start := hstart ▸ World.isBefore_now hlate
          simp only [Bool.false_eq_true, if_false, ← hstart]
          split
          · next hempty =>
              refine ⟨[r], .done hround hearly ((r.isEmpty_iff hnext).1 hempty), ?_⟩
              simpa using hmade
          · next hsome =>
              -- the pause sends nothing, and the next round begins when it is over
              let count := retry.max - (left + 1)
              obtain ⟨rs, hrest, hsent⟩ := ih (by omega) (j.round r.pending w).1.pending
                (p.add (j.round r.pending w).1) ((j.round r.pending w).2.sleep (retry.pause count))
              have hcount : retry.max - left = count + 1 := by omega
              have hbegin : ((j.round r.pending w).2.sleep (retry.pause count)).now =
                  r.finish + retry.pause count := by
                rw [hfinish]
                rfl
              rw [hcount, hbegin] at hrest
              have hslept : j.courier.Exchanged [] (j.round r.pending w).2
                  ((j.round r.pending w).2.sleep (retry.pause count)) := .nothing _ rfl rfl
              exact ⟨r :: rs,
                .again hround hearly (hsome ∘ (r.isEmpty_iff hnext).2) hnext (by omega) hrest,
                hmade.append (hslept.append hsent)⟩

/-- **A batch has a history of its policy**, unless it is empty. -/
theorem run_history (j : Job σ κ) (retry : RetryPolicy) (deadline : Option Nat) {work : List κ}
    (hwork : work ≠ []) (w : World σ) :
    ∃ rs, Rounds j.chunkSize retry deadline 0 work w.now rs (run j retry deadline work w).1 ∧
      j.courier.Exchanged (rs.flatMap RoundRecord.calls) w (run j retry deadline work w).2 := by
  have hhistory := roundsFrom_history j retry deadline (Nat.le_refl retry.max) work {} w
  rw [Nat.sub_self] at hhistory
  rwa [run, if_neg (by simpa using hwork)]

namespace Rounds

variable {size : Nat} {retry : RetryPolicy} {deadline : Option Nat} {k now : Nat}
  {pending : List κ} {rs : List (RoundRecord κ)} {outcome : Outcome κ}

/-- Each round is one over what was pending, and something was. -/
theorem forall_isRound (h : Rounds size retry deadline k pending now rs outcome)
    (hpending : pending ≠ []) : ∀ r ∈ rs, r.IsRound size ∧ r.pending ≠ [] := by
  induction h with
  | late _ => simp
  | done hround _ _ => simpa using ⟨hround, hpending⟩
  | last hround _ _ _ _ => simpa using ⟨hround, hpending⟩
  | again hround _ hleft hnext _ _ ih =>
      refine List.forall_mem_cons.2 ⟨⟨hround, hpending⟩, ih ?_⟩
      rintro rfl
      exact hleft (List.nil_perm.1 hnext)

/-- There are at most as many rounds as the policy allows after the first. -/
theorem add_length_le (h : Rounds size retry deadline k pending now rs outcome)
    (hk : k ≤ retry.max) : k + rs.length ≤ retry.max + 1 := by
  induction h with
  | late _ => exact Nat.le_succ_of_le hk
  | done _ _ _ => exact Nat.succ_le_succ hk
  | last _ _ _ _ _ => exact Nat.succ_le_succ hk
  | again _ _ _ _ hmore _ ih =>
      rw [List.length_cons]
      have hrest := ih hmore
      omega

/-- The first round is made if the deadline has not come, at once, over all that is pending. -/
theorem first_iff (h : Rounds size retry deadline k pending now rs outcome) :
    (rs ≠ [] ↔ IsBefore deadline now) ∧
      ∀ r, rs[0]? = some r → r.pending = pending ∧ r.start = now := by
  cases h with
  | late hlate => exact ⟨⟨fun hne => absurd rfl hne, fun hearly => absurd hearly hlate⟩, by simp⟩
  | done _ hearly _ => exact ⟨by simpa using hearly, by simp⟩
  | last _ hearly _ _ _ => exact ⟨by simpa using hearly, by simp⟩
  | again _ hearly _ _ _ _ => exact ⟨by simpa using hearly, by simp⟩

/-- **One more round** is made if something is left, the policy allows it, and the deadline has not
come after the pause. -/
theorem more_iff (h : Rounds size retry deadline k pending now rs outcome) {i : Nat}
    {r : RoundRecord κ} (hr : rs[i]? = some r) :
    i + 1 < rs.length ↔ r.left ≠ [] ∧ k + i < retry.max ∧
      IsBefore deadline (r.finish + retry.pause (k + i)) := by
  induction h generalizing i with
  | late _ => cases hr
  | done _ _ hdone =>
      obtain ⟨rfl, rfl⟩ : i = 0 ∧ _ = r := by simpa [List.getElem?_cons] using hr
      exact ⟨fun hmore => absurd hmore (Nat.lt_irrefl 1), fun hleft => absurd hdone hleft.1⟩
  | last _ _ _ _ hmax =>
      obtain ⟨rfl, rfl⟩ : i = 0 ∧ _ = r := by simpa [List.getElem?_cons] using hr
      exact ⟨fun hmore => absurd hmore (Nat.lt_irrefl 1), fun hleft => absurd hleft.2.1 (by omega)⟩
  | again _ _ hleft _ hmore hrest ih =>
      cases i with
      | zero =>
          obtain rfl := Option.some.inj hr
          -- the next round is the first one of the rest
          rw [List.length_cons, Nat.add_lt_add_iff_right, List.length_pos_iff, hrest.first_iff.1]
          exact ⟨fun hearly => ⟨hleft, hmore, hearly⟩, fun hmore => hmore.2.2⟩
      | succ i =>
          rw [List.length_cons, Nat.add_lt_add_iff_right, ← Nat.add_assoc, Nat.add_right_comm]
          exact ih hr

/-- The next round is over what is left, and begins after the pause. -/
theorem next (h : Rounds size retry deadline k pending now rs outcome) {i : Nat}
    {r r' : RoundRecord κ} (hr : rs[i]? = some r) (hr' : rs[i + 1]? = some r') :
    r'.pending.Perm r.left ∧ r'.start = r.finish + retry.pause (k + i) := by
  induction h generalizing i with
  | late _ => cases hr
  | done _ _ _ => cases hr'
  | last _ _ _ _ _ => cases hr'
  | again _ _ _ hnext _ hrest ih =>
      cases i with
      | zero =>
          obtain rfl := Option.some.inj hr
          obtain ⟨hpending, hstart⟩ := hrest.first_iff.2 r' hr'
          exact ⟨hpending ▸ hnext, hstart⟩
      | succ i =>
          rw [← Nat.add_assoc, Nat.add_right_comm]
          exact ih hr hr'

/-- Without a round the deadline has come. -/
theorem nil_ends (h : Rounds size retry deadline k pending now [] outcome) :
    ∃ p, outcome = stopped k pending p := by
  cases h with
  | late _ => exact ⟨_, rfl⟩

/-- **What comes out** after the last round: all is done if it leaves nothing, and otherwise what
it leaves is reported. -/
theorem ends (h : Rounds size retry deadline k pending now rs outcome) {r : RoundRecord κ}
    (hr : rs.getLast? = some r) :
    (r.left = [] → ∃ p, outcome = .done (k + rs.length - 1) p) ∧
    (r.left ≠ [] → ∃ rest p, outcome =
      .incomplete rest (k + rs.length) (decide (k + rs.length ≤ retry.max)) p) := by
  induction h with
  | late _ => cases hr
  | done _ _ hdone =>
      obtain rfl := Option.some.inj hr
      exact ⟨fun _ => ⟨_, rfl⟩, fun hleft => absurd hdone hleft⟩
  | @last k r p next _ _ hleft _ hmax =>
      obtain rfl := Option.some.inj hr
      have hlast : ¬k + [r].length ≤ retry.max := by
        rw [List.length_singleton]
        omega
      refine ⟨fun hdone => absurd hdone hleft, fun _ => ⟨next, p, ?_⟩⟩
      rw [decide_eq_false hlast]
      rfl
  | @again k first rest next outcome _ _ hleft _ hmore hrest ih =>
      cases rest with
      | nil =>
          obtain rfl := Option.some.inj hr
          obtain ⟨p, rfl⟩ := hrest.nil_ends
          refine ⟨fun hdone => absurd hdone hleft, fun _ => ⟨next, p, ?_⟩⟩
          rw [decide_eq_true (show k + [first].length ≤ retry.max from hmore)]
          rfl
      | cons second rest =>
          -- the last round is the last one of the rest
          rw [List.length_cons, ← Nat.add_assoc, Nat.add_right_comm]
          exact ih hr

end Rounds

/-! ### What a policy promises -/

/-- **What a policy promises of the rounds of a batch** that begins at a time, with calls for at
most `size` pieces of work. -/
structure Follows (size : Nat) (retry : RetryPolicy) (deadline : Option Nat) (work : List κ)
    (now : Nat) (rs : List (RoundRecord κ)) : Prop where
  divides : ∀ r ∈ rs, r.Divides size
  length_le : rs.length ≤ retry.max + 1
  /-- There is a first round if there is work and the deadline has not come. -/
  first : rs ≠ [] ↔ work ≠ [] ∧ IsBefore deadline now
  start_first : ∀ r, rs[0]? = some r → r.pending = work ∧ r.start = now
  /-- There is one more round if something is left, the policy has some left, and the deadline has
  not come after the pause. -/
  more : ∀ k r, rs[k]? = some r →
    (k + 1 < rs.length ↔ r.left ≠ [] ∧ k < retry.max ∧
      IsBefore deadline (r.finish + min (retry.initial * 2 ^ k) retry.cap))
  next : ∀ k r r', rs[k]? = some r → rs[k + 1]? = some r' →
    r'.pending.Perm r.left ∧ r'.start = r.finish + min (retry.initial * 2 ^ k) retry.cap

/-- **What comes out of the rounds of a batch.** -/
structure Ends (operation : Operation) (retry : RetryPolicy) (deadline : Option Nat)
    (work : List κ) (now : Nat) (rs : List (RoundRecord κ))
    (outcome : Except Error (Summary β)) : Prop where
  done : (∃ s, outcome = .ok s) ↔ work = [] ∨ ∃ r, rs.getLast? = some r ∧ r.left = []
  retries : ∀ s, outcome = .ok s → s.retries = rs.length - 1
  late : (∃ operation attempts, outcome = .error (.timeout operation attempts)) ↔
    work ≠ [] ∧ ¬IsBefore deadline now
  untried : ∀ o attempts, outcome = .error (.timeout o attempts) → o = operation ∧ attempts = 0
  incomplete : (∃ rest, outcome = .error (.partialBatch rest)) ↔
    ∃ r, rs.getLast? = some r ∧ r.left ≠ []
  attempts : ∀ rest, outcome = .error (.partialBatch rest) → rest.attempts = rs.length
  /-- The deadline stopped the rounds if the policy had some left, and it has come after the
  pause. -/
  elapsed : ∀ rest, outcome = .error (.partialBatch rest) →
    (rest.deadlineElapsed = true ↔ rs.length ≤ retry.max ∧ ∃ r, rs.getLast? = some r ∧
      ¬IsBefore deadline (r.finish + min (retry.initial * 2 ^ (rs.length - 1)) retry.cap))

/-- What a policy promises is said by its histories. -/
theorem Rounds.follows {size : Nat} (hsize : 0 < size) {retry : RetryPolicy}
    (hmax : retry.max < 2 ^ 32) (hcap : retry.cap ≤ Number.maxUInt64) {deadline : Option Nat}
    {work : List κ} (hwork : work ≠ []) {now : Nat} {rs : List (RoundRecord κ)}
    {outcome : Outcome κ} (h : Rounds size retry deadline 0 work now rs outcome) :
    Follows size retry deadline work now rs := by
  have hlength : rs.length ≤ retry.max + 1 := by simpa using h.add_length_le (Nat.zero_le _)
  have hpause : ∀ {k : Nat} {r : RoundRecord κ}, rs[k]? = some r →
      retry.pause (0 + k) = min (retry.initial * 2 ^ k) retry.cap := by
    intro k r hr
    have hk := (List.getElem?_eq_some_iff.1 hr).1
    rw [Nat.zero_add, RetryPolicy.pause_eq hcap (by omega)]
  exact
    { divides := fun r hr =>
        have hround := h.forall_isRound hwork r hr
        hround.1.divides hsize hround.2
      length_le := hlength
      first := by rw [h.first_iff.1, and_iff_right hwork]
      start_first := h.first_iff.2
      more := fun k r hr => by rw [h.more_iff hr, hpause hr, Nat.zero_add]
      next := fun k r r' hr hr' => by
        rw [← hpause hr]
        exact h.next hr hr' }

/-- Without work there is no round. -/
theorem Follows.nil (size : Nat) (retry : RetryPolicy) (deadline : Option Nat) (now : Nat) :
    Follows size retry deadline ([] : List κ) now [] where
  divides := by simp
  length_le := Nat.zero_le _
  first := by simp
  start_first := by simp
  more := by simp
  next := by simp

section

variable {operation : Operation} {retry : RetryPolicy} {deadline : Option Nat} {now : Nat}

/-- Without work all is done. -/
theorem Ends.of_nothing (s : Summary β) (hretries : s.retries = 0) :
    Ends operation retry deadline ([] : List κ) now [] (.ok s) where
  done := by simp
  retries := by
    rintro s ⟨rfl⟩
    exact hretries
  late := by simp
  untried := by simp
  incomplete := by simp
  attempts := by simp
  elapsed := by simp

/-- The deadline has come before the first round. -/
theorem Ends.of_late {work : List κ} (hwork : work ≠ []) (hlate : ¬IsBefore deadline now) :
    Ends operation retry deadline work now []
      (.error (.timeout operation 0) : Except Error (Summary β)) where
  done := by simp [hwork]
  retries := by simp
  late := by simp [hwork, hlate]
  untried := by
    rintro o attempts ⟨rfl⟩
    exact ⟨rfl, rfl⟩
  incomplete := by simp
  attempts := by simp
  elapsed := by simp

section

variable {size : Nat} {work : List κ} {rs : List (RoundRecord κ)} {r : RoundRecord κ}

/-- The last round leaves nothing. -/
theorem Ends.of_done (h : Follows size retry deadline work now rs) (hlast : rs.getLast? = some r)
    (hdone : r.left = []) {s : Summary β} (hretries : s.retries = rs.length - 1) :
    Ends operation retry deadline work now rs (.ok s) where
  done := by simp [hlast, hdone]
  retries := by
    rintro s ⟨rfl⟩
    exact hretries
  late := by
    have hfirst := h.first.1 (by rintro rfl; cases hlast)
    simp [hfirst.2]
  untried := by simp
  incomplete := by simp [hlast, hdone]
  attempts := by simp
  elapsed := by simp

/-- The last round leaves something. -/
theorem Ends.of_incomplete (h : Follows size retry deadline work now rs)
    (hlast : rs.getLast? = some r) (hleft : r.left ≠ []) {rest : Remainder}
    (hattempts : rest.attempts = rs.length)
    (helapsed : rest.deadlineElapsed = decide (rs.length ≤ retry.max)) :
    Ends operation retry deadline work now rs
      (.error (.partialBatch rest) : Except Error (Summary β)) := by
  have hne : rs ≠ [] := by
    rintro rfl
    cases hlast
  have hpos : 0 < rs.length := List.length_pos_iff.2 hne
  have hfirst := h.first.1 hne
  have hr : rs[rs.length - 1]? = some r := by rw [← List.getLast?_eq_getElem?, hlast]
  -- no round comes after the last one
  have hnone := (h.more (rs.length - 1) r hr).not.1 (by omega)
  exact
    { done := by simp [hlast, hleft, hfirst.1]
      retries := by simp
      late := by simp [hfirst.2]
      untried := by simp
      incomplete := by simp [hlast, hleft]
      attempts := by
        rintro rest ⟨rfl⟩
        exact hattempts
      elapsed := by
        rintro rest ⟨rfl⟩
        rw [helapsed, decide_eq_true_iff]
        refine ⟨fun hle => ⟨hle, r, hlast, fun hbefore => ?_⟩, And.left⟩
        exact hnone ⟨hleft, by omega, hbefore⟩ }

end

/-! ### Batches -/

/-- **A batch is made in rounds** that its policy allows, with calls for at most `size` pieces of
work. -/
def Job.IsMadeInRounds (j : Job σ κ) (size : Nat) (retry : RetryPolicy) (deadline : Option Nat)
    (work : List κ) (w : World σ) (ended : Except Error (Summary β) × World σ) : Prop :=
  ∃ rounds : List (RoundRecord κ), Follows size retry deadline work w.now rounds ∧
    Ends j.operation retry deadline work w.now rounds ended.1 ∧
    j.courier.Exchanged (rounds.flatMap RoundRecord.calls) w ended.2

/-- An outcome as it is reported, where `value` makes the result and `rest` says what is left. -/
def Outcome.report (operation : Operation) (value : Progress → β)
    (rest : List κ → Nat → Bool → Progress → Remainder) : Outcome κ → Except Error (Summary β)
  | .done retries p => .ok ⟨value p, retries, p.charged⟩
  | .incomplete pending attempts elapsed p =>
    .error (.partialBatch (rest pending attempts elapsed p))
  | .late => .error (.timeout operation 0)

/-- **A batch whose outcome is reported.** -/
theorem run_isMadeInRounds (j : Job σ κ) (hsize : 0 < j.chunkSize) (hmax : retry.max < 2 ^ 32)
    (hcap : retry.cap ≤ Number.maxUInt64) (deadline : Option Nat) (work : List κ) (w : World σ)
    (value : Progress → β) (rest : List κ → Nat → Bool → Progress → Remainder)
    (hattempts : ∀ pending n late p, (rest pending n late p).attempts = n)
    (helapsed : ∀ pending n late p, (rest pending n late p).deadlineElapsed = late) :
    j.IsMadeInRounds j.chunkSize retry deadline work w
      ((run j retry deadline work w).1.report j.operation value rest,
        (run j retry deadline work w).2) := by
  rcases eq_or_ne work [] with rfl | hwork
  · exact ⟨[], Follows.nil _ _ _ _, Ends.of_nothing _ rfl, .nothing _ rfl rfl⟩
  · obtain ⟨rounds, hrounds, hmade⟩ := run_history j retry deadline hwork w
    have hfollows := hrounds.follows hsize hmax hcap hwork
    refine ⟨rounds, hfollows, ?_, hmade⟩
    cases hlast : rounds.getLast? with
    | none =>
        obtain rfl := List.getLast?_eq_none_iff.1 hlast
        obtain ⟨p, houtcome⟩ := hrounds.nil_ends
        rw [houtcome]
        exact Ends.of_late hwork (hrounds.first_iff.1.not.1 (by simp))
    | some r =>
        obtain ⟨hdone, hmore⟩ := hrounds.ends hlast
        rw [Nat.zero_add] at hdone hmore
        by_cases hleft : r.left = []
        · obtain ⟨p, houtcome⟩ := hdone hleft
          rw [houtcome]
          exact Ends.of_done hfollows hlast hleft rfl
        · obtain ⟨pending, p, houtcome⟩ := hmore hleft
          rw [houtcome]
          exact Ends.of_incomplete hfollows hlast hleft (hattempts _ _ _ p) (helapsed _ _ _ p)

end

/-- What a report says of writes that are left. -/
def remainderOfWrites (pending : List Write) (attempts : Nat) (deadlineElapsed : Bool)
    (p : Progress) : Remainder :=
  { puts := puts pending, deletes := deletes pending, attempts, lastFault := p.lastFault
    deadlineElapsed }

/-- What a report says of keys that are left. -/
def remainderOfKeys (pending : List Item) (attempts : Nat) (deadlineElapsed : Bool)
    (p : Progress) : Remainder :=
  { keys := pending, retrieved := p.items, attempts, lastFault := p.lastFault, deadlineElapsed }

theorem write_eq_report (store : Store σ) (config : Config) (table : String)
    (writes : List Write) (deadline : Option Nat) (w : World σ) :
    let ran := run (writeJob store config table) config.batchRetry deadline writes w
    write store config table writes deadline w =
      (ran.1.report .batchWriteItem (fun _ => writes.length) remainderOfWrites, ran.2) := by
  unfold write
  rcases run (writeJob store config table) config.batchRetry deadline writes w with ⟨outcome, w'⟩
  cases outcome <;> rfl

theorem get_eq_report (store : Store σ) (config : Config) (t : GetTemplate) (keys : List Item)
    (deadline : Option Nat) (w : World σ) :
    let ran := run (getJob store config t) config.batchRetry deadline keys w
    get store config t keys deadline w =
      (ran.1.report .batchGetItem Progress.items remainderOfKeys, ran.2) := by
  unfold get
  rcases run (getJob store config t) config.batchRetry deadline keys w with ⟨outcome, w'⟩
  cases outcome <;> rfl

/-- **The rounds of a batch follow its policy**, for writes and for reads: each round divides what
is pending into calls, what they leave is pending for the next round, and there are no more rounds,
no earlier and no later than the policy and the deadline say. -/
theorem rounds_follow_the_policy (store : Store σ) (config : Config)
    (hmax : config.batchRetry.max < 2 ^ 32) (hcap : config.batchRetry.cap ≤ Number.maxUInt64)
    (table : String) (writes : List Write) (t : GetTemplate) (keys : List Item)
    (deadline : Option Nat) (w : World σ) :
    (writeJob store config table).IsMadeInRounds (max 1 (min config.writeChunk 25))
        config.batchRetry deadline writes w (write store config table writes deadline w) ∧
      (getJob store config t).IsMadeInRounds (max 1 (min config.readChunk 100))
        config.batchRetry deadline keys w (get store config t keys deadline w) := by
  rw [write_eq_report, get_eq_report]
  constructor
  · exact run_isMadeInRounds (writeJob store config table) (Config.clamp_bounds (by decide) _).1
      hmax hcap deadline writes w _ remainderOfWrites (fun _ _ _ _ => rfl) fun _ _ _ _ => rfl
  · exact run_isMadeInRounds (getJob store config t) (Config.clamp_bounds (by decide) _).1
      hmax hcap deadline keys w _ remainderOfKeys (fun _ _ _ _ => rfl) fun _ _ _ _ => rfl

namespace Library

/-- One write to a call, and one more round than the first, ten milliseconds later. -/
def unhurried : Config := { batchRetry := { max := 1, initial := 10 }, writeChunk := 1 }

/-- The first call is answered after fifty milliseconds, and its write is left out. -/
def crowded : Script := [.batchWrite { delay := 50, result := .ok { unprocessed := 1 } }]

end Library

/-- Two writes in two calls at once, and one of them again ten milliseconds after the answers. -/
theorem library_writes_once_more :
    Library.unhurried.batchRetry.max < 2 ^ 32 ∧
      Library.unhurried.batchRetry.cap ≤ Number.maxUInt64 ∧
      (writeJob Script.store Library.unhurried "library").IsMadeInRounds 1
        Library.unhurried.batchRetry (some 100) Library.writes { store := Library.crowded }
        (write Script.store Library.unhurried "library" Library.writes (some 100)
          { store := Library.crowded }) ∧
      ((write Script.store Library.unhurried "library" Library.writes (some 100)
        { store := Library.crowded }).2.sent.map Sent.time = [0, 0, 60]) := by
  obtain ⟨hwritten, -⟩ := rounds_follow_the_policy Script.store Library.unhurried (by decide)
    (by decide) "library" Library.writes ⟨"library", none, true⟩ [] (some 100)
    { store := Library.crowded }
  exact ⟨by decide, by decide, hwritten, by decide +kernel⟩

end Keyspace.Batch
