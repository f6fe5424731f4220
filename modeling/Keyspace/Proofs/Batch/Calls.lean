import Keyspace.Batch.Flow
import Mathlib.Data.List.Perm.Basic
/-!
# The calls of a round

The calls for some chunks are sent in the order of the chunks, but their answers arrive in any
order.  What a store answers depends only on what was sent to it before; so the answers, whenever
they arrive, are those that the store gives to the chunks one after the other.  When all of them
have arrived it is as late as the last one was due.

Main definitions:

* `Keyspace.Batch.Courier.replies`, `Keyspace.Batch.Courier.after` — what comes back for some
  chunks, and the store after that;
* `Keyspace.Batch.Courier.Sent` — exactly some chunks were sent between two worlds;
* `Keyspace.Batch.Exchange`, `Keyspace.Batch.Courier.Exchanged` — calls with their answers, and
  that exactly some of them were made between two worlds;
* `Keyspace.Batch.latest` — the time when all of some answers have arrived.

Main results:

* `Keyspace.Batch.flow_exchanges` — **the calls of a round**, and when it is over;
* `Keyspace.Batch.flow_spec` — every chunk is sent once and answered once.
-/

set_option autoImplicit false

namespace Keyspace.Batch

variable {σ κ ρ : Type}

namespace Courier

/-- What comes back for some chunks that are sent one after the other. -/
def replies (c : Courier σ κ ρ) : List (List κ) → σ → List (List κ × Except String ρ)
  | [], _ => []
  | work :: rest, s => (work, (c.answer work s).1.result) :: c.replies rest (c.answer work s).2

/-- The store after some chunks were sent one after the other. -/
def after (c : Courier σ κ ρ) : List (List κ) → σ → σ
  | [], s => s
  | work :: rest, s => c.after rest (c.answer work s).2

theorem replies_append (c : Courier σ κ ρ) (xs ys : List (List κ)) (s : σ) :
    c.replies (xs ++ ys) s = c.replies xs s ++ c.replies ys (c.after xs s) := by
  induction xs generalizing s with
  | nil => rfl
  | cons work rest ih => simp only [List.cons_append, replies, after, ih]

theorem after_append (c : Courier σ κ ρ) (xs ys : List (List κ)) (s : σ) :
    c.after (xs ++ ys) s = c.after ys (c.after xs s) := by
  induction xs generalizing s with
  | nil => rfl
  | cons work rest ih => simp only [List.cons_append, after, ih]

theorem map_fst_replies (c : Courier σ κ ρ) (works : List (List κ)) (s : σ) :
    (c.replies works s).map Prod.fst = works := by
  induction works generalizing s with
  | nil => rfl
  | cons work rest ih => rw [replies, List.map_cons, ih]

/-- Exactly some chunks were sent between two worlds, in their order. -/
structure Sent (c : Courier σ κ ρ) (works : List (List κ)) (w w' : World σ) : Prop where
  sent : ∃ more, w'.sent = w.sent ++ more ∧ more.map Sent.request = works.map c.request
  store : w'.store = c.after works w.store

/-- Time passes, and nothing is sent. -/
theorem Sent.nothing (c : Courier σ κ ρ) {w w' : World σ} (hsent : w'.sent = w.sent)
    (hstore : w'.store = w.store) : c.Sent [] w w' :=
  ⟨⟨[], by simpa using hsent, rfl⟩, hstore⟩

theorem Sent.append {c : Courier σ κ ρ} {xs ys : List (List κ)} {w₁ w₂ w₃ : World σ}
    (h₁ : c.Sent xs w₁ w₂) (h₂ : c.Sent ys w₂ w₃) : c.Sent (xs ++ ys) w₁ w₃ := by
  obtain ⟨⟨more₁, hsent₁, hmap₁⟩, hstore₁⟩ := h₁
  obtain ⟨⟨more₂, hsent₂, hmap₂⟩, hstore₂⟩ := h₂
  refine ⟨⟨more₁ ++ more₂, ?_, ?_⟩, ?_⟩
  · rw [hsent₂, hsent₁, List.append_assoc]
  · rw [List.map_append, List.map_append, hmap₁, hmap₂]
  · rw [hstore₂, hstore₁, after_append]

end Courier

/-! ### Exchanges -/

/-- **A call and its answer**: the work, when the call was sent, and what came back. -/
structure Exchange (κ ρ : Type) where
  work : List κ
  time : Nat
  reply : Reply String ρ

namespace Exchange

/-- When the answer arrives. -/
def due (x : Exchange κ ρ) : Nat := x.time + x.reply.delay

/-- The call while it is under way. -/
def call (x : Exchange κ ρ) : Call κ ρ := ⟨x.work, x.due, x.reply.result⟩

/-- The work, with what came back for it. -/
def outcome (x : Exchange κ ρ) : List κ × Except String ρ := (x.work, x.reply.result)

/-- The call as it was sent. -/
def sent (c : Courier σ κ ρ) (x : Exchange κ ρ) : Keyspace.Sent := ⟨x.time, c.request x.work⟩

end Exchange

namespace Courier

/-- The answers are those of a store that gets the calls one after the other. -/
def Answers (c : Courier σ κ ρ) : List (Exchange κ ρ) → σ → Prop
  | [], _ => True
  | x :: rest, s => x.reply = (c.answer x.work s).1 ∧ c.Answers rest (c.answer x.work s).2

theorem answers_append {c : Courier σ κ ρ} {xs ys : List (Exchange κ ρ)} {s : σ} :
    c.Answers (xs ++ ys) s ↔ c.Answers xs s ∧ c.Answers ys (c.after (xs.map Exchange.work) s) := by
  induction xs generalizing s with
  | nil => simp [Answers, after]
  | cons x rest ih => simp only [List.cons_append, Answers, ih, List.map_cons, after, and_assoc]

theorem Answers.replies {c : Courier σ κ ρ} {xs : List (Exchange κ ρ)} {s : σ}
    (h : c.Answers xs s) : c.replies (xs.map Exchange.work) s = xs.map Exchange.outcome := by
  induction xs generalizing s with
  | nil => rfl
  | cons x rest ih =>
      rw [List.map_cons, Courier.replies, ih h.2, ← h.1]
      rfl

/-- **Exactly some calls were made** between two worlds. -/
structure Exchanged (c : Courier σ κ ρ) (xs : List (Exchange κ ρ)) (w w' : World σ) : Prop where
  sent : w'.sent = w.sent ++ xs.map (Exchange.sent c)
  answered : c.Answers xs w.store
  store : w'.store = c.after (xs.map Exchange.work) w.store

namespace Exchanged

/-- Time passes, and no call is made. -/
theorem nothing (c : Courier σ κ ρ) {w w' : World σ} (hsent : w'.sent = w.sent)
    (hstore : w'.store = w.store) : c.Exchanged [] w w' :=
  ⟨by simpa using hsent, trivial, hstore⟩

theorem append {c : Courier σ κ ρ} {xs ys : List (Exchange κ ρ)} {w₁ w₂ w₃ : World σ}
    (h₁ : c.Exchanged xs w₁ w₂) (h₂ : c.Exchanged ys w₂ w₃) : c.Exchanged (xs ++ ys) w₁ w₃ where
  sent := by rw [h₂.sent, h₁.sent, List.append_assoc, List.map_append]
  answered := answers_append.2 ⟨h₁.answered, h₁.store ▸ h₂.answered⟩
  store := by rw [h₂.store, h₁.store, List.map_append, after_append]

/-- A chunk is sent now. -/
theorem send (c : Courier σ κ ρ) (work : List κ) (w : World σ) :
    c.Exchanged [⟨work, w.now, (c.answer work w.store).1⟩] w (c.send work w).2 :=
  ⟨rfl, ⟨rfl, trivial⟩, rfl⟩

/-- The chunks of the calls were sent. -/
theorem chunks {c : Courier σ κ ρ} {xs : List (Exchange κ ρ)} {w w' : World σ}
    (h : c.Exchanged xs w w') : c.Sent (xs.map Exchange.work) w w' where
  sent := ⟨xs.map (Exchange.sent c), h.sent, by rw [List.map_map, List.map_map]; rfl⟩
  store := h.store

end Exchanged

end Courier

/-! ### The time of the last answer -/

/-- The latest of some times, not before now. -/
def latest (now : Nat) (times : List Nat) : Nat := times.foldr max now

theorem latest_perm {now : Nat} {xs ys : List Nat} (h : xs.Perm ys) :
    latest now xs = latest now ys := h.foldr_eq now

/-- An earlier start makes no difference to what is late. -/
theorem latest_of_le {now time : Nat} (h : now ≤ time) (times : List Nat) :
    latest time times = latest now (time :: times) := by
  induction times with
  | nil => exact (Nat.max_eq_left h).symm
  | cons x rest ih =>
      have hrest : latest time rest = max time (latest now rest) := ih
      show max x (latest time rest) = max time (max x (latest now rest))
      rw [hrest]
      omega

/-! ### Flow -/

/-- The answer to a call, with the work it is for. -/
def Call.reply (call : Call κ ρ) : List κ × Except String ρ := (call.work, call.result)

/-- **Filling the room** makes calls for the first chunks that wait, now, and as many as there is
room for. -/
theorem fill_exchanges (c : Courier σ κ ρ) (room : Nat) (waiting : List (List κ)) (w : World σ) :
    ∃ begun, waiting = begun.map Exchange.work ++ (fill c room waiting w).1 ∧
      begun.length = min room waiting.length ∧
      c.Exchanged begun w (fill c room waiting w).2.2 ∧
      (fill c room waiting w).2.1 = begun.map Exchange.call ∧
      ∀ x ∈ begun, x.time = w.now := by
  induction room generalizing waiting w with
  | zero => exact ⟨[], rfl, by simp, .nothing c rfl rfl, rfl, by simp⟩
  | succ room ih =>
      cases waiting with
      | nil => exact ⟨[], rfl, by simp, .nothing c rfl rfl, rfl, by simp⟩
      | cons work waiting =>
          obtain ⟨begun, hwaiting, hlength, hmade, hcalls, htimes⟩ :=
            ih waiting (c.send work w).2
          let first : Exchange κ ρ := ⟨work, w.now, (c.answer work w.store).1⟩
          refine ⟨first :: begun, ?_, ?_, ?_, ?_, ?_⟩
          · exact congrArg (work :: ·) hwaiting
          · rw [List.length_cons, List.length_cons, hlength]
            omega
          · exact (Courier.Exchanged.send c work w).append hmade
          · exact congrArg (first.call :: ·) hcalls
          · exact List.forall_mem_cons.2 ⟨rfl, htimes⟩

/-- Taking the earliest call out loses none. -/
theorem earliest_perm (call : Call κ ρ) (calls : List (Call κ ρ)) :
    ((earliest call calls).1 :: (earliest call calls).2).Perm (call :: calls) := by
  induction calls generalizing call with
  | nil => exact List.Perm.refl _
  | cons next rest ih =>
      have hrest := ih next
      unfold earliest
      rcases hbest : earliest next rest with ⟨best, others⟩
      rw [hbest] at hrest
      simp only
      split
      · exact (List.Perm.swap call best others).trans (hrest.cons call)
      · exact List.Perm.refl _

/-- No call is due before the earliest. -/
theorem earliest_le (call : Call κ ρ) (calls : List (Call κ ρ)) :
    ∀ x ∈ call :: calls, (earliest call calls).1.due ≤ x.due := by
  induction calls generalizing call with
  | nil =>
      intro x hx
      rw [List.mem_singleton.1 hx]
      exact Nat.le_refl _
  | cons next rest ih =>
      have hrest := ih next
      unfold earliest
      rcases hbest : earliest next rest with ⟨best, others⟩
      rw [hbest] at hrest
      simp only at hrest ⊢
      split
      · next hlt => exact List.forall_mem_cons.2 ⟨Nat.le_of_lt hlt, hrest⟩
      · next hle =>
          refine List.forall_mem_cons.2 ⟨Nat.le_refl _, fun x hx => ?_⟩
          exact Nat.le_trans (Nat.not_lt.1 hle) (hrest x hx)

/-- **The answers** are those to the calls under way and to the chunks that wait.  None of these
is sent before now, and the last answer arrives when it is due. -/
theorem answers_exchanges (c : Courier σ κ ρ) {concurrency : Nat} (hroom : 0 < concurrency)
    (left : Nat) (waiting : List (List κ)) (underWay : List (Call κ ρ)) (w : World σ)
    (hleft : left = waiting.length + underWay.length)
    (hdue : ∀ call ∈ underWay, w.now ≤ call.due) :
    ∃ xs, xs.map Exchange.work = waiting ∧
      c.Exchanged xs w (answers c concurrency left waiting underWay w).2 ∧
      (∀ x ∈ xs, w.now ≤ x.time) ∧
      (answers c concurrency left waiting underWay w).1.Perm
        ((underWay ++ xs.map Exchange.call).map Call.reply) ∧
      (answers c concurrency left waiting underWay w).2.now =
        latest w.now ((underWay ++ xs.map Exchange.call).map Call.due) := by
  -- one answer fewer at each step; what a call under way will bring was fixed when it was sent
  induction left generalizing waiting underWay w with
  | zero =>
      obtain rfl : waiting = [] := List.eq_nil_of_length_eq_zero (by omega)
      obtain rfl : underWay = [] := List.eq_nil_of_length_eq_zero (by omega)
      exact ⟨[], rfl, .nothing c rfl rfl, by simp, List.Perm.refl _, rfl⟩
  | succ left ih =>
      obtain ⟨begun, hwaiting, hlength, hmade, hcalls, htimes⟩ :=
        fill_exchanges c (concurrency - underWay.length) waiting w
      unfold answers
      rcases hfilled : fill c (concurrency - underWay.length) waiting w with ⟨rest, more, w'⟩
      rw [hfilled] at hwaiting hmade hcalls
      simp only at hwaiting hmade hcalls ⊢
      subst hcalls
      split
      · next hnone =>
          -- there is room, so nothing can wait while no call is under way
          obtain ⟨rfl, hbegun⟩ := List.append_eq_nil_iff.1 hnone
          obtain rfl := List.map_eq_nil_iff.1 hbegun
          simp only [List.length_nil] at hlength hleft
          omega
      · next call calls hall =>
          have hperm := earliest_perm call calls
          have hearliest := earliest_le call calls
          rcases hbest : earliest call calls with ⟨best, others⟩
          rw [hbest] at hperm hearliest
          simp only at hperm hearliest ⊢
          have hcount : left = rest.length + others.length := by
            have hlengths := congrArg List.length hall
            have hothers := hperm.length_eq
            rw [hwaiting] at hleft
            simp only [List.length_append, List.length_cons, List.length_map]
              at hlengths hothers hleft
            omega
          -- calls are due after they were sent
          have hdues : ∀ x ∈ call :: calls, w.now ≤ x.due := by
            rw [← hall]
            refine List.forall_mem_append.2 ⟨hdue, fun x hx => ?_⟩
            obtain ⟨y, hy, rfl⟩ := List.mem_map.1 hx
            exact Nat.le_trans (Nat.le_of_eq (htimes y hy).symm) (Nat.le_add_right _ _)
          have hlater : w.now ≤ best.due := hdues best (hperm.mem_iff.1 List.mem_cons_self)
          obtain ⟨xs, hworks, hrest, hafter, hanswers, hend⟩ :=
            ih rest others { w' with now := best.due } hcount fun x hx =>
              hearliest x (hperm.mem_iff.1 (List.mem_cons_of_mem best hx))
          have hsplit : (best :: (others ++ xs.map Exchange.call)).Perm
              (underWay ++ (begun ++ xs).map Exchange.call) := by
            rw [List.map_append, ← List.append_assoc, hall]
            exact hperm.append_right (xs.map Exchange.call)
          refine ⟨begun ++ xs, ?_, ?_, ?_, ?_, ?_⟩
          · rw [List.map_append, hworks, ← hwaiting]
          · have htime : c.Exchanged [] w' { w' with now := best.due } := .nothing c rfl rfl
            exact hmade.append (htime.append hrest)
          · refine List.forall_mem_append.2 ⟨fun x hx => ?_, fun x hx => ?_⟩
            · exact Nat.le_of_eq (htimes x hx).symm
            · exact Nat.le_trans hlater (hafter x hx)
          · exact (hanswers.cons best.reply).trans (hsplit.map Call.reply)
          · rw [hend, latest_of_le hlater]
            exact latest_perm (hsplit.map Call.due)

/-- **The calls of a round**: one for each chunk, in their order, none before it begins, and it is
over when all have been answered. -/
theorem flow_exchanges (c : Courier σ κ ρ) {concurrency : Nat} (hroom : 0 < concurrency)
    (chunks : List (List κ)) (w : World σ) :
    ∃ xs, xs.map Exchange.work = chunks ∧ c.Exchanged xs w (flow c concurrency chunks w).2 ∧
      (∀ x ∈ xs, w.now ≤ x.time) ∧
      (flow c concurrency chunks w).1.Perm (xs.map Exchange.outcome) ∧
      (flow c concurrency chunks w).2.now = latest w.now (xs.map Exchange.due) := by
  obtain ⟨xs, hworks, hmade, htimes, hanswers, hend⟩ :=
    answers_exchanges c hroom chunks.length chunks [] w rfl (by simp)
  simp only [List.nil_append, List.map_map] at hanswers hend
  exact ⟨xs, hworks, hmade, htimes, hanswers, hend⟩

/-- **Every chunk is sent once and answered once**, in whatever order the answers arrive. -/
theorem flow_spec (c : Courier σ κ ρ) {concurrency : Nat} (hroom : 0 < concurrency)
    (chunks : List (List κ)) (w : World σ) :
    c.Sent chunks w (flow c concurrency chunks w).2 ∧
      (flow c concurrency chunks w).1.Perm (c.replies chunks w.store) := by
  obtain ⟨xs, rfl, hmade, -, hanswers, -⟩ := flow_exchanges c hroom chunks w
  exact ⟨hmade.chunks, hmade.answered.replies ▸ hanswers⟩

end Keyspace.Batch
