import Keyspace.Batch.Flow
import Keyspace.Retry
/-!
# Batches

A batch does work in rounds.  Each round divides what is pending into chunks, none larger than the
store takes, and makes a call for each; what the store leaves out, and all of a chunk whose call
met a fault, is pending for the next round.  Rounds end when nothing is pending, when the policy
allows no more of them, or when the deadline has come before one.

Main definitions:

* `Keyspace.Batch.chunksOf` — work divided into chunks;
* `Keyspace.Batch.Job` — a kind of work;
* `Keyspace.Batch.Round` — what a round brought;
* `Keyspace.Batch.Outcome`, `Keyspace.Batch.run` — all rounds.
-/

set_option autoImplicit false

namespace Keyspace.Batch

variable {σ κ : Type}

/-! ### Chunks -/

/-- Work divided into chunks of `size`, the last one smaller if need be. -/
def chunksOf (size : Nat) (xs : List κ) : List (List κ) :=
  match xs with
  | [] => []
  | x :: rest => (x :: rest.take (size - 1)) :: chunksOf size (rest.drop (size - 1))
termination_by xs.length

/-- Nothing is lost, and the order stays. -/
theorem flatten_chunksOf (size : Nat) (xs : List κ) : (chunksOf size xs).flatten = xs := by
  fun_induction chunksOf size xs with
  | case1 => rfl
  | case2 x rest ih => simp [ih]

/-! ### Rounds -/

/-- What a call of a batch brings. -/
structure Answer (κ : Type) where
  items : List Item := []
  unprocessed : List κ := []
  charged : List String := []

/-- A kind of work: the call it takes, the chunks of it, and how they are sent. -/
structure Job (σ κ : Type) where
  operation : Operation
  chunkSize : Nat
  concurrency : Nat
  courier : Courier σ κ (Answer κ)

/-- What the calls of a round brought, and what is pending after it. -/
structure Round (κ : Type) where
  pending : List κ := []
  items : List Item := []
  charged : List String := []
  lastFault : Option StoreFault := none

/-- The round with one answer more.  Nothing of a call that met a fault is known to be done. -/
def Round.add (operation : Operation) (r : Round κ) (x : List κ × Except String (Answer κ)) :
    Round κ :=
  match x.2 with
  | .ok a =>
    { r with
      pending := r.pending ++ a.unprocessed, items := r.items ++ a.items
      charged := r.charged ++ a.charged }
  | .error text =>
    { r with pending := r.pending ++ x.1, lastFault := some ⟨operation, text⟩ }

/-- The number of calls that are under way together. -/
def Job.width (j : Job σ κ) (chunks : Nat) : Nat := max 1 (min chunks j.concurrency)

/-- **One round** over all that is pending. -/
def Job.round (j : Job σ κ) (pending : List κ) (w : World σ) : Round κ × World σ :=
  let chunks := chunksOf j.chunkSize pending
  let (results, w) := flow j.courier (j.width chunks.length) chunks w
  (results.foldl (Round.add j.operation) {}, w)

/-! ### All rounds -/

/-- What the rounds so far brought. -/
structure Progress where
  items : List Item := []
  charged : List String := []
  lastFault : Option StoreFault := none

/-- The progress after a round. -/
def Progress.add (p : Progress) (r : Round κ) : Progress :=
  { items := p.items ++ r.items, charged := p.charged ++ r.charged
    lastFault := r.lastFault.or p.lastFault }

/-- How a batch ended. -/
inductive Outcome (κ : Type) where
  /-- All work is done, after some rounds more than the first. -/
  | done (retries : Nat) (progress : Progress)
  /-- Some work is left, after some rounds. -/
  | incomplete (pending : List κ) (attempts : Nat) (deadlineElapsed : Bool) (progress : Progress)
  /-- The deadline had come before the first round. -/
  | late

/-- The batch when a deadline has come, `count` rounds having been made. -/
def stopped (count : Nat) (pending : List κ) (p : Progress) : Outcome κ :=
  if count = 0 then .late else .incomplete pending count true p

/-- The rounds of a batch, `left` more after the next. -/
def roundsFrom (j : Job σ κ) (retry : RetryPolicy) (deadline : Option Nat) :
    (left : Nat) → (pending : List κ) → Progress → World σ → Outcome κ × World σ
  | 0, pending, p, w =>
    if w.elapsed deadline then (stopped retry.max pending p, w)
    else
      let (r, w) := j.round pending w
      if r.pending.isEmpty then (.done retry.max (p.add r), w)
      else (.incomplete r.pending (retry.max + 1) false (p.add r), w)
  | left + 1, pending, p, w =>
    let count := retry.max - (left + 1)
    if w.elapsed deadline then (stopped count pending p, w)
    else
      let (r, w) := j.round pending w
      if r.pending.isEmpty then (.done count (p.add r), w)
      else roundsFrom j retry deadline left r.pending (p.add r) (w.sleep (retry.pause count))

/-- **All rounds of a batch.**  Without work nothing is sent. -/
def run (j : Job σ κ) (retry : RetryPolicy) (deadline : Option Nat) (work : List κ)
    (w : World σ) : Outcome κ × World σ :=
  if work.isEmpty then (.done 0 {}, w) else roundsFrom j retry deadline retry.max work {} w

end Keyspace.Batch
