import Keyspace.Store
/-!
# Calls under way together

Several calls are made for one round of a batch.  At most a fixed number of them is under way at
any time: when one has been answered the next is sent.  Of the calls under way the one that is due
first is answered first, and of two that are due together the one that was sent first.

Main definitions:

* `Keyspace.Batch.Courier` — how a chunk of work is sent;
* `Keyspace.Batch.Call` — a call under way;
* `Keyspace.Batch.flow` — the answers to all chunks, in the order they arrive in.
-/

set_option autoImplicit false

namespace Keyspace.Batch

variable {σ κ ρ : Type}

/-- How a chunk of work is sent to a store. -/
structure Courier (σ κ ρ : Type) where
  request : List κ → Request
  answer : List κ → σ → Reply String ρ × σ

/-- A call under way: its work, when its answer is due, and the answer. -/
structure Call (κ ρ : Type) where
  work : List κ
  due : Nat
  result : Except String ρ

/-- A chunk of work is sent. -/
def Courier.send (c : Courier σ κ ρ) (work : List κ) (w : World σ) : Call κ ρ × World σ :=
  let (reply, w) := w.send (c.request work) (c.answer work)
  (⟨work, w.now + reply.delay, reply.result⟩, w)

/-- Waiting chunks are sent while there is room for `room` calls; what is left, the calls that
were sent, and the world after it. -/
def fill (c : Courier σ κ ρ) : Nat → List (List κ) → World σ →
    List (List κ) × List (Call κ ρ) × World σ
  | 0, waiting, w => (waiting, [], w)
  | _ + 1, [], w => ([], [], w)
  | room + 1, work :: waiting, w =>
    let (call, w) := c.send work w
    let (waiting, calls, w) := fill c room waiting w
    (waiting, call :: calls, w)

/-- The call of some that is due first, of equals the first, and the others in their order. -/
def earliest (call : Call κ ρ) : List (Call κ ρ) → Call κ ρ × List (Call κ ρ)
  | [] => (call, [])
  | next :: rest =>
    let (best, others) := earliest next rest
    if best.due < call.due then (best, call :: others) else (call, next :: rest)

/-- The next `left` answers, with the work they are for. -/
def answers (c : Courier σ κ ρ) (concurrency : Nat) : (left : Nat) →
    (waiting : List (List κ)) → (underWay : List (Call κ ρ)) → World σ →
    List (List κ × Except String ρ) × World σ
  | 0, _, _, w => ([], w)
  | left + 1, waiting, underWay, w =>
    let (waiting, more, w) := fill c (concurrency - underWay.length) waiting w
    match underWay ++ more with
    | [] => ([], w)
    | call :: calls =>
      let (best, others) := earliest call calls
      let (results, w) := answers c concurrency left waiting others { w with now := best.due }
      ((best.work, best.result) :: results, w)

/-- **The answers to all chunks**, in the order they arrive in. -/
def flow (c : Courier σ κ ρ) (concurrency : Nat) (chunks : List (List κ)) (w : World σ) :
    List (List κ × Except String ρ) × World σ :=
  answers c concurrency chunks.length chunks [] w

end Keyspace.Batch
