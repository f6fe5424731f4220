import Keyspace.Batch.Basic
import Keyspace.Proofs.Batch.Calls
import Mathlib.Algebra.BigOperators.Group.List.Basic
import Mathlib.Algebra.Order.Group.Multiset
/-!
# What the calls of a batch settle

A call settles the work that was sent in it, except what its answer leaves out; a call that meets
a fault settles nothing.  After each round, what is pending and what has been settled make up all
the work, each piece as often as it was there; what the calls brought has been kept; and a fault
is remembered if there was one.

Main definitions:

* `Keyspace.Batch.Settlement.IsHonest` — an answer leaves out nothing that was not sent;
* `Keyspace.Batch.Settlement.settled`, `Keyspace.Batch.settledBy` — the work that calls settle;
* `Keyspace.Batch.Tally` — what is known after some calls.

Main results:

* `Keyspace.Batch.Tally.round` — **a round keeps the tally**;
* `Keyspace.Batch.roundsFrom_spec`, `Keyspace.Batch.run_spec` — and so does a batch.
-/

set_option autoImplicit false

namespace Keyspace.Batch

variable {σ κ : Type}

/-! ### One call -/

/-- The work of a call with what came back for it. -/
abbrev Settlement (κ : Type) := List κ × Except String (Answer κ)

namespace Settlement

/-- The work that a call does not settle. -/
def left (x : Settlement κ) : List κ :=
  match x.2 with
  | .ok a => a.unprocessed
  | .error _ => x.1

/-- The items that a call brings. -/
def brought (x : Settlement κ) : List Item :=
  match x.2 with
  | .ok a => a.items
  | .error _ => []

/-- A call met a fault. -/
def IsFault (x : Settlement κ) : Prop := ∃ text, x.2 = .error text

/-- An answer leaves out nothing that was not sent. -/
def IsHonest (x : Settlement κ) : Prop :=
  ∀ a, x.2 = .ok a → (a.unprocessed : Multiset κ) ≤ x.1

open Classical in
/-- **The work that a call settles**: what was sent, without what the answer leaves out. -/
noncomputable def settled (x : Settlement κ) : Multiset κ :=
  match x.2 with
  | .ok a => (x.1 : Multiset κ) - a.unprocessed
  | .error _ => 0

theorem left_add_settled {x : Settlement κ} (h : x.IsHonest) :
    (x.left : Multiset κ) + x.settled = x.1 := by
  classical
  obtain ⟨work, outcome⟩ := x
  cases outcome with
  | ok a =>
      have hle : (a.unprocessed : Multiset κ) ≤ work := h a rfl
      rw [add_comm]
      exact Multiset.sub_add_cancel hle
  | error text => simp [left, settled]

end Settlement

/-! ### Several calls -/

/-- The work that some calls settle. -/
noncomputable def settledBy (calls : List (Settlement κ)) : Multiset κ :=
  (calls.map Settlement.settled).sum

@[simp] theorem settledBy_nil : settledBy ([] : List (Settlement κ)) = 0 := rfl

@[simp] theorem settledBy_cons (x : Settlement κ) (calls : List (Settlement κ)) :
    settledBy (x :: calls) = x.settled + settledBy calls := by
  simp [settledBy]

theorem settledBy_append (xs ys : List (Settlement κ)) :
    settledBy (xs ++ ys) = settledBy xs + settledBy ys := by
  simp [settledBy]

/-- What honest calls leave and what they settle is what was sent. -/
theorem left_add_settledBy {calls : List (Settlement κ)} (h : ∀ x ∈ calls, x.IsHonest) :
    (calls.flatMap Settlement.left : Multiset κ) + settledBy calls =
      (calls.map Prod.fst).flatten := by
  induction calls with
  | nil => simp
  | cons x rest ih =>
      have hx := Settlement.left_add_settled (h x List.mem_cons_self)
      have hrest := ih fun y hy => h y (List.mem_cons_of_mem x hy)
      rw [List.flatMap_cons, settledBy_cons, List.map_cons, List.flatten_cons,
        ← Multiset.coe_add, ← Multiset.coe_add, ← hx, ← hrest]
      exact add_add_add_comm _ _ _ _

theorem settledBy_le {calls : List (Settlement κ)} (h : ∀ x ∈ calls, x.IsHonest) :
    settledBy calls ≤ (calls.map Prod.fst).flatten := by
  rw [← left_add_settledBy h]
  exact Multiset.le_add_left _ _

/-! ### One round -/

namespace Round

@[simp] theorem add_pending (operation : Operation) (r : Round κ) (x : Settlement κ) :
    (r.add operation x).pending = r.pending ++ x.left := by
  obtain ⟨work, outcome⟩ := x
  cases outcome with
  | ok a => rfl
  | error text => rfl

@[simp] theorem add_items (operation : Operation) (r : Round κ) (x : Settlement κ) :
    (r.add operation x).items = r.items ++ x.brought := by
  obtain ⟨work, outcome⟩ := x
  cases outcome with
  | ok a => rfl
  | error text => exact (List.append_nil r.items).symm

theorem add_noFault (operation : Operation) (r : Round κ) (x : Settlement κ) :
    (r.add operation x).lastFault = none ↔ r.lastFault = none ∧ ¬ x.IsFault := by
  obtain ⟨work, outcome⟩ := x
  cases outcome with
  | ok a => simp [add, Settlement.IsFault]
  | error text => simp [add, Settlement.IsFault]

theorem add_fault {operation : Operation} {r : Round κ} {x : Settlement κ} {f : StoreFault}
    (h : (r.add operation x).lastFault = some f) :
    r.lastFault = some f ∨ f.operation = operation ∧ x.2 = .error f.text := by
  obtain ⟨work, outcome⟩ := x
  cases outcome with
  | ok a => exact Or.inl h
  | error text =>
      cases h
      exact Or.inr ⟨rfl, rfl⟩

/-- What a round has from answers that are added to it one after the other. -/
theorem foldl_add_spec (operation : Operation) (results : List (Settlement κ)) (r : Round κ) :
    (results.foldl (add operation) r).pending = r.pending ++ results.flatMap Settlement.left ∧
      (results.foldl (add operation) r).items =
        r.items ++ results.flatMap Settlement.brought ∧
      ((results.foldl (add operation) r).lastFault = none ↔
        r.lastFault = none ∧ ∀ x ∈ results, ¬ x.IsFault) ∧
      ∀ f, (results.foldl (add operation) r).lastFault = some f →
        r.lastFault = some f ∨ f.operation = operation ∧ ∃ x ∈ results, x.2 = .error f.text := by
  induction results generalizing r with
  | nil => simp
  | cons x rest ih =>
      rw [List.foldl_cons]
      obtain ⟨hpending, hitems, hnone, hsome⟩ := ih (r.add operation x)
      refine ⟨?_, ?_, ?_, ?_⟩
      · rw [hpending, add_pending, List.flatMap_cons, List.append_assoc]
      · rw [hitems, add_items, List.flatMap_cons, List.append_assoc]
      · rw [hnone, add_noFault, List.forall_mem_cons, and_assoc]
      · intro f hf
        rcases hsome f hf with hf | ⟨hoperation, y, hy, hfault⟩
        · rcases add_fault hf with hf | ⟨hoperation, hfault⟩
          · exact Or.inl hf
          · exact Or.inr ⟨hoperation, x, List.mem_cons_self, hfault⟩
        · exact Or.inr ⟨hoperation, y, List.mem_cons_of_mem x hy, hfault⟩

end Round

/-- What is known about a round: it leaves, brings and remembers what its calls do. -/
structure Round.Tells (operation : Operation) (calls : List (Settlement κ)) (r : Round κ) :
    Prop where
  pending : r.pending.Perm (calls.flatMap Settlement.left)
  items : r.items.Perm (calls.flatMap Settlement.brought)
  noFault : r.lastFault = none ↔ ∀ x ∈ calls, ¬ x.IsFault
  fault : ∀ f, r.lastFault = some f →
    f.operation = operation ∧ ∃ x ∈ calls, x.2 = .error f.text

/-- **One round** sends what is pending in chunks and tells what their answers say. -/
theorem Job.round_spec (j : Job σ κ) (pending : List κ) (w : World σ) :
    j.courier.Sent (chunksOf j.chunkSize pending) w (j.round pending w).2 ∧
      (j.round pending w).1.Tells j.operation
        (j.courier.replies (chunksOf j.chunkSize pending) w.store) := by
  have hwidth : 0 < j.width (chunksOf j.chunkSize pending).length := by
    unfold Job.width
    omega
  obtain ⟨hsent, hperm⟩ := flow_spec j.courier hwidth (chunksOf j.chunkSize pending) w
  unfold Job.round
  rcases hflow : flow j.courier (j.width (chunksOf j.chunkSize pending).length)
    (chunksOf j.chunkSize pending) w with ⟨results, w'⟩
  rw [hflow] at hsent hperm
  simp only [hflow]
  obtain ⟨hpending, hitems, hnone, hsome⟩ := Round.foldl_add_spec j.operation results {}
  refine ⟨hsent, ?_, ?_, ?_, ?_⟩
  · rw [hpending]
    exact hperm.flatMap_right Settlement.left
  · rw [hitems]
    exact hperm.flatMap_right Settlement.brought
  · rw [hnone]
    constructor
    · exact fun h x hx => h.2 x (hperm.mem_iff.2 hx)
    · exact fun h => ⟨rfl, fun x hx => h x (hperm.mem_iff.1 hx)⟩
  · intro f hf
    rcases hsome f hf with hf | ⟨hoperation, x, hx, hfault⟩
    · cases hf
    · exact ⟨hoperation, x, hperm.mem_iff.1 hx, hfault⟩

/-! ### All rounds -/

/-- **What is known after some calls** of a batch, when `pending` is left of all its work. -/
structure Tally (operation : Operation) (work : List κ) (calls : List (Settlement κ))
    (pending : List κ) (p : Progress) : Prop where
  /-- What is pending and what is settled make up the work. -/
  pending : (∀ x ∈ calls, x.IsHonest) → (pending : Multiset κ) + settledBy calls = work
  /-- What a call takes on is not among what the calls before it settled. -/
  fresh : (∀ x ∈ calls, x.IsHonest) → ∀ before x after, calls = before ++ x :: after →
    settledBy before + (x.1 : Multiset κ) ≤ (work : Multiset κ)
  items : p.items.Perm (calls.flatMap Settlement.brought)
  noFault : p.lastFault = none ↔ ∀ x ∈ calls, ¬ x.IsFault
  fault : ∀ f, p.lastFault = some f →
    f.operation = operation ∧ ∃ x ∈ calls, x.2 = .error f.text

namespace Tally

variable {operation : Operation} {work pending : List κ} {calls more : List (Settlement κ)}
  {p : Progress} {r : Round κ}

theorem start (operation : Operation) (work : List κ) : Tally operation work [] work {} where
  pending _ := by simp
  fresh _ before x after h := by simp at h
  items := List.Perm.refl _
  noFault := by simp
  fault f hf := by cases hf

/-- **A round keeps the tally**, if its calls take on what is pending. -/
theorem round (h : Tally operation work calls pending p) (hr : r.Tells operation more)
    (hmore : (more.map Prod.fst).flatten = pending) :
    Tally operation work (calls ++ more) r.pending (p.add r) where
  pending hhonest := by
    have hold := h.pending fun x hx => hhonest x (List.mem_append_left more hx)
    have hnew := left_add_settledBy fun x hx => hhonest x (List.mem_append_right calls hx)
    rw [hmore, ← Multiset.coe_eq_coe.2 hr.pending] at hnew
    rw [settledBy_append, add_comm (settledBy calls), ← add_assoc, hnew, hold]
  fresh hhonest before x after hsplit := by
    have hcalls : ∀ y ∈ calls, y.IsHonest := fun y hy => hhonest y (List.mem_append_left more hy)
    -- a call of this round, behind the calls `begun` of the same round
    have hround : ∀ begun, more = begun ++ x :: after →
        settledBy (calls ++ begun) + (x.1 : Multiset κ) ≤ (work : Multiset κ) := by
      intro begun hbegun
      have hle := settledBy_le fun y hy => hhonest y
        (List.mem_append_right calls (hbegun ▸ List.mem_append_left _ hy))
      have hpending : ((begun.map Prod.fst).flatten : Multiset κ) + x.1 ≤ pending := by
        rw [← hmore, hbegun, Multiset.coe_add, Multiset.coe_le]
        simp only [List.map_append, List.map_cons, List.flatten_append, List.flatten_cons,
          ← List.append_assoc]
        exact (List.sublist_append_left _ _).subperm
      rw [settledBy_append, ← h.pending hcalls, add_comm (pending : Multiset κ), add_assoc]
      exact add_le_add_right ((add_le_add_left hle _).trans hpending) _
    rcases List.append_eq_append_iff.1 hsplit with ⟨begun, rfl, hbegun⟩ | ⟨rest, rfl, hrest⟩
    · exact hround begun hbegun
    · cases rest with
      | nil =>
          have hfirst := hround [] hrest.symm
          simpa using hfirst
      | cons y rest =>
          obtain ⟨rfl, _⟩ := List.cons.inj hrest
          exact h.fresh hcalls before x rest rfl
  items := by
    rw [List.flatMap_append]
    exact h.items.append hr.items
  noFault := by
    rw [List.forall_mem_append, ← h.noFault, ← hr.noFault]
    unfold Progress.add
    cases r.lastFault with
    | none => simp
    | some f => simp
  fault f hf := by
    unfold Progress.add at hf
    simp only [Option.or_eq_some_iff] at hf
    rcases hf with hf | ⟨_, hf⟩
    · obtain ⟨hoperation, x, hx, htext⟩ := hr.fault f hf
      exact ⟨hoperation, x, List.mem_append_right calls hx, htext⟩
    · obtain ⟨hoperation, x, hx, htext⟩ := h.fault f hf
      exact ⟨hoperation, x, List.mem_append_left more hx, htext⟩

/-- The round over what is pending is such a round. -/
theorem next {j : Job σ κ} (h : Tally j.operation work calls pending p) (w : World σ) :
    j.courier.Sent (chunksOf j.chunkSize pending) w (j.round pending w).2 ∧
      Tally j.operation work
        (calls ++ j.courier.replies (chunksOf j.chunkSize pending) w.store)
        (j.round pending w).1.pending (p.add (j.round pending w).1) := by
  obtain ⟨hsent, hround⟩ := j.round_spec pending w
  exact ⟨hsent, h.round hround (by rw [Courier.map_fst_replies, flatten_chunksOf])⟩

end Tally

/-- What is known when a batch has ended. -/
def Outcome.Tells (operation : Operation) (work : List κ) (calls : List (Settlement κ)) :
    Outcome κ → Prop
  | .done _ p => Tally operation work calls [] p
  | .incomplete pending _ _ p => Tally operation work calls pending p
  | .late => calls = []

/-- A deadline that comes changes nothing. -/
theorem stopped_tells {operation : Operation} {work pending : List κ}
    {calls : List (Settlement κ)} {p : Progress} (h : Tally operation work calls pending p)
    {count : Nat} (hcalls : count = 0 → calls = []) :
    (stopped count pending p).Tells operation work calls := by
  unfold stopped
  split
  · next hzero => exact hcalls hzero
  · exact h

/-- **The rounds of a batch** keep the tally.  Only before the first round can it be too late. -/
theorem roundsFrom_spec (j : Job σ κ) (retry : RetryPolicy) (deadline : Option Nat) {left : Nat}
    (hleft : left ≤ retry.max) {work pending : List κ} {calls : List (Settlement κ)}
    {p : Progress} (w : World σ) (h : Tally j.operation work calls pending p)
    (hcalls : left = retry.max → calls = []) :
    ∃ works, j.courier.Sent works w (roundsFrom j retry deadline left pending p w).2 ∧
      (roundsFrom j retry deadline left pending p w).1.Tells j.operation work
        (calls ++ j.courier.replies works w.store) := by
  -- the tally is the invariant; the calls made so far grow with each round
  induction left generalizing pending calls p w with
  | zero =>
      obtain ⟨hsent, htally⟩ := h.next w
      unfold roundsFrom
      rcases hran : j.round pending w with ⟨r, w'⟩
      rw [hran] at hsent htally
      split
      · refine ⟨[], Courier.Sent.nothing _ rfl rfl, ?_⟩
        rw [Courier.replies, List.append_nil]
        exact stopped_tells h fun hzero => hcalls hzero.symm
      · refine ⟨chunksOf j.chunkSize pending, ?_⟩
        simp only
        split
        · next hempty =>
            rw [List.isEmpty_iff.1 hempty] at htally
            exact ⟨hsent, htally⟩
        · exact ⟨hsent, htally⟩
  | succ left ih =>
      obtain ⟨hsent, htally⟩ := h.next w
      unfold roundsFrom
      rcases hran : j.round pending w with ⟨r, w'⟩
      rw [hran] at hsent htally
      simp only
      split
      · refine ⟨[], Courier.Sent.nothing _ rfl rfl, ?_⟩
        rw [Courier.replies, List.append_nil]
        exact stopped_tells h fun hzero => hcalls (by omega)
      · split
        · next hempty =>
            rw [List.isEmpty_iff.1 hempty] at htally
            exact ⟨_, hsent, htally⟩
        · -- a round was made, so it is too late to be late
          obtain ⟨works, hmore, htells⟩ :=
            ih (by omega) (w'.sleep (retry.pause (retry.max - (left + 1)))) htally (by omega)
          have hslept : j.courier.Sent [] w' (w'.sleep (retry.pause (retry.max - (left + 1)))) :=
            Courier.Sent.nothing _ rfl rfl
          refine ⟨chunksOf j.chunkSize pending ++ works, hsent.append (hslept.append hmore), ?_⟩
          rw [Courier.replies_append, ← List.append_assoc, ← hsent.store]
          exact htells

/-- **A batch**, and what is known when it has ended. -/
theorem run_spec (j : Job σ κ) (retry : RetryPolicy) (deadline : Option Nat) (work : List κ)
    (w : World σ) :
    ∃ works, j.courier.Sent works w (run j retry deadline work w).2 ∧
      (run j retry deadline work w).1.Tells j.operation work
        (j.courier.replies works w.store) := by
  unfold run
  split
  · next hempty =>
      obtain rfl : work = [] := List.isEmpty_iff.1 hempty
      exact ⟨[], Courier.Sent.nothing _ rfl rfl, Tally.start j.operation []⟩
  · exact roundsFrom_spec j retry deadline (Nat.le_refl _) w (Tally.start j.operation work)
      fun _ => rfl

end Keyspace.Batch
