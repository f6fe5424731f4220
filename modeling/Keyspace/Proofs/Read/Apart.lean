import Keyspace.Proofs.Read.Stages
/-!
# Workers that are kept apart

A store may keep the segments of a scan apart: what it answers to a worker, and what it becomes
for that worker, does not depend on the requests of the others.  A worker then takes the same
steps, whatever the others do in between, and the others do not notice its steps.

Main definitions:

* `Keyspace.Store.KeepsApart` — a store keeps the segments apart;
* `Keyspace.World.SameTo`, `Keyspace.World.SameExceptNow` — two worlds are the same to a worker, or
  are so but for the time;
* `Keyspace.SplitScan.Alike` — two workers are equally far.

Main results:

* `Keyspace.SplitScan.step_alike` — **a worker takes the same steps in worlds that are the same to
  it**;
* `Keyspace.SplitScan.step_other` — **and the worlds stay the same to the others**;
* `Keyspace.SplitScan.work_same` — it does the same work in all.
-/

set_option autoImplicit false

namespace Keyspace

variable {σ τ : Type}

/-! ### Segments apart -/

/-- **A store keeps the segments of a scan apart**: it has a part for each, from which alone it
answers, and which it alone changes. -/
structure Store.KeepsApart (store : Store σ) (part : Nat → σ → τ) : Prop where
  own : ∀ (r : ScanRequest) (k : Nat) (s t : σ), r.segment = some (k : Int) →
    part k s = part k t →
      (store.scanSegment r s).1 = (store.scanSegment r t).1 ∧
        part k (store.scanSegment r s).2 = part k (store.scanSegment r t).2
  other : ∀ (r : ScanRequest) (k i : Nat) (s : σ), r.segment = some (k : Int) → i ≠ k →
    part i (store.scanSegment r s).2 = part i s

/-- Whether a request is for a segment. -/
def Sent.isFor (k : Nat) (s : Sent) : Bool :=
  match s.request with
  | .scan r => r.segment == some (k : Int)
  | _ => false

namespace World

/-- The requests for a segment that were sent. -/
def sentFor (w : World σ) (k : Nat) : List Sent := w.sent.filter (Sent.isFor k)

/-- Two worlds are the same to a worker, but for the time. -/
structure SameExceptNow (part : Nat → σ → τ) (k : Nat) (w v : World σ) : Prop where
  part : part k w.store = part k v.store
  sent : w.sentFor k = v.sentFor k

/-- **Two worlds are the same to a worker.** -/
structure SameTo (part : Nat → σ → τ) (k : Nat) (w v : World σ) : Prop
    extends SameExceptNow part k w v where
  now : w.now = v.now

variable {part : Nat → σ → τ} {k : Nat}

theorem SameExceptNow.of_eq {w v : World σ} (hstore : w.store = v.store) (hsent : w.sent = v.sent) :
    SameExceptNow part k w v where
  part := by rw [hstore]
  sent := by rw [sentFor, sentFor, hsent]

theorem SameExceptNow.refl (w : World σ) : SameExceptNow part k w w := of_eq rfl rfl

theorem SameExceptNow.trans {w v u : World σ} (h : SameExceptNow part k w v)
    (h' : SameExceptNow part k v u) : SameExceptNow part k w u :=
  ⟨h.part.trans h'.part, h.sent.trans h'.sent⟩

theorem SameTo.sleep {w v : World σ} (h : SameTo part k w v) (duration : Nat) :
    SameTo part k (w.sleep duration) (v.sleep duration) where
  part := h.part
  sent := h.sent
  now := by rw [World.sleep, World.sleep, h.now]

end World

/-! ### Steps -/

namespace SplitScan

variable {j : SplitScan σ} {part : Nat → σ → τ}

theorem isFor_ask (j : SplitScan σ) (k i time : Nat) (start : Option Item) :
    Sent.isFor i ⟨time, .scan (j.ask k start)⟩ = decide (k = i) := by
  have hsegment : (j.ask k start).segment = some (k : Int) := rfl
  simp only [Sent.isFor, hsegment, beq_eq_decide, Option.some.injEq, Int.natCast_inj]

theorem sentFor_call (j : SplitScan σ) (k i : Nat) (start : Option Item) (w : World σ) :
    (j.call k start w).2.sentFor i =
      w.sentFor i ++ if k = i then [⟨w.now, .scan (j.ask k start)⟩] else [] := by
  unfold World.sentFor
  rw [call, World.call_sent, List.filter_append, List.filter_cons, isFor_ask]
  simp

/-- A request in worlds that are the same to the worker. -/
theorem call_same (h : j.store.KeepsApart part) {k : Nat} {w v : World σ}
    (hsame : World.SameTo part k w v) (start : Option Item) :
    (j.call k start w).1 = (j.call k start v).1 ∧
      World.SameTo part k (j.call k start w).2 (j.call k start v).2 := by
  obtain ⟨hreply, hpart⟩ := h.own (j.ask k start) k w.store v.store rfl hsame.part
  refine ⟨by simp only [call, World.call_result, hreply], ⟨⟨hpart, ?_⟩, ?_⟩⟩
  · rw [sentFor_call, sentFor_call, hsame.sent, hsame.now]
  · change w.now + _ = v.now + _
    rw [hsame.now, hreply]

/-- Two workers of a segment are equally far, in worlds that are the same to them. -/
def Alike (part : Nat → σ → τ) (k : Nat) (x y : Stage × World σ) : Prop :=
  x.1 = y.1 ∧ World.SameTo part k x.2 y.2

theorem settle_alike {k : Nat} {w v : World σ} (hsame : World.SameTo part k w v) (left : Nat)
    (outcome : Except Error (List Item)) :
    Alike part k (j.settle k left outcome w) (j.settle k left outcome v) := by
  cases left with
  | zero => exact ⟨rfl, hsame⟩
  | succ left =>
      unfold settle
      cases j.retry.wantsMore List.isEmpty outcome with
      | true => exact ⟨rfl, hsame.sleep _⟩
      | false => exact ⟨rfl, hsame⟩

theorem receive_alike {k : Nat} {w v : World σ} (hsame : World.SameTo part k w v)
    (left calls : Nat) (sofar : List Item) (answer : Except WorkerFault Page) :
    Alike part k (j.receive k left calls sofar answer w)
      (j.receive k left calls sofar answer v) := by
  cases answer with
  | error fault => exact settle_alike hsame left _
  | ok page =>
      cases hnext : page.next? with
      | none =>
          rw [receive_last _ _ _ hnext, receive_last _ _ _ hnext]
          exact settle_alike hsame left _
      | some key =>
          rw [receive_page _ _ _ hnext, receive_page _ _ _ hnext]
          exact ⟨rfl, hsame⟩

/-- **A worker takes the same step in worlds that are the same to it.** -/
theorem step_alike (h : j.store.KeepsApart part) {k : Nat} {x y : Stage × World σ}
    (halike : Alike part k x y) : Alike part k (j.step k x) (j.step k y) := by
  obtain ⟨stage, w⟩ := x
  obtain ⟨stage', v⟩ := y
  obtain ⟨hstage, hsame⟩ := halike
  cases hstage
  cases stage with
  | done outcome => exact ⟨rfl, hsame⟩
  | reading left start calls sofar =>
      have helapsed : w.elapsed j.deadline = v.elapsed j.deadline :=
        World.elapsed_congr hsame.now j.deadline
      cases hlate : w.elapsed j.deadline with
      | true =>
          rw [step_late hlate, step_late (helapsed ▸ hlate)]
          exact settle_alike hsame left _
      | false =>
          obtain ⟨hanswer, hafter⟩ := call_same h hsame start
          rw [step_early hlate, step_early (helapsed ▸ hlate), hanswer]
          exact receive_alike hafter left calls sofar _

theorem iterate_alike (h : j.store.KeepsApart part) {k : Nat} {x y : Stage × World σ}
    (halike : Alike part k x y) (n : Nat) :
    Alike part k ((j.step k)^[n] x) ((j.step k)^[n] y) := by
  induction n with
  | zero => exact halike
  | succ n ih =>
      rw [Function.iterate_succ_apply', Function.iterate_succ_apply']
      exact step_alike h ih

/-! ### Steps of others -/

theorem call_other (h : j.store.KeepsApart part) {k i : Nat} (hi : i ≠ k) (start : Option Item)
    (w : World σ) : World.SameExceptNow part i (j.call k start w).2 w where
  part := h.other (j.ask k start) k i w.store rfl hi
  sent := by rw [sentFor_call, if_neg hi.symm, List.append_nil]

/-- **The worlds stay the same to the other workers.** -/
theorem step_other (h : j.store.KeepsApart part) {k i : Nat} (hi : i ≠ k)
    (x : Stage × World σ) : World.SameExceptNow part i (j.step k x).2 x.2 := by
  obtain ⟨stage, w⟩ := x
  cases stage with
  | done outcome => exact .refl w
  | reading left start calls sofar =>
      cases hlate : w.elapsed j.deadline with
      | true =>
          obtain ⟨hstore, hsent⟩ := settle_still (j := j) (k := k) left _ w
          rw [step_late hlate]
          exact .of_eq hstore hsent
      | false =>
          obtain ⟨hstore, hsent⟩ := receive_still (j := j) (k := k) left calls sofar
            (j.call k start w).1 (j.call k start w).2
          rw [step_early hlate]
          exact (World.SameExceptNow.of_eq hstore hsent).trans (call_other h hi start w)

/-! ### All the work -/

/-- **A worker does the same work in worlds that are the same to it.** -/
theorem work_same (h : j.store.KeepsApart part) {k : Nat} {w v : World σ}
    (hsame : World.SameTo part k w v) :
    (j.work k w).1 = (j.work k v).1 ∧ World.SameTo part k (j.work k w).2 (j.work k v).2 := by
  obtain ⟨m, hm⟩ := steps_work j k w
  obtain ⟨n, hn⟩ := steps_work j k v
  -- the steps that finish the work in one world finish it in the other
  have halike := iterate_alike h (x := (j.start, w)) (y := (j.start, v)) ⟨rfl, hsame⟩ m
  rw [hm] at halike
  generalize hy : (j.step k)^[m] (j.start, v) = y at halike
  obtain ⟨stage, v'⟩ := y
  obtain ⟨hstage, hafter⟩ := halike
  cases hstage
  obtain ⟨houtcome, rfl⟩ := iterate_unique hy hn
  exact ⟨houtcome, hafter⟩

end SplitScan

end Keyspace
