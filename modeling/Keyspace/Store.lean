import Keyspace.Request
/-!
# Stores and the time they take

A store answers requests.  Each answer takes some time, in milliseconds, and may be a fault
instead of a reply; an answer to the worker of a segment may also be a crash of that worker.

Reading page by page ends only if the pages do.  So a store comes with a bound, for each request
and for what it has become, of the pages that may still come behind a key, and each page that is
not the last one brings the bound of its request down.  Bounds of different requests have nothing
to do with each other: what is left in one direction may be what was read in the other.  A store
that hands out keys for ever is left out; nothing is said here of a read that does not end.

Whoever calls a store lives in a world: the store with what it has become, the time, and the
requests that were sent, with the times when they were.

Main definitions:

* `Keyspace.Reply`, `Keyspace.Store` — answers, and what gives them;
* `Keyspace.World` — store, time and requests sent;
* `Keyspace.World.send`, `Keyspace.World.call`, `Keyspace.World.sleep` — what takes time;
* `Keyspace.World.elapsed` — whether a deadline has come.
-/

set_option autoImplicit false

namespace Keyspace

/-! ### Answers -/

/-- An answer: when it arrives, counted from the call, and what it is. -/
structure Reply (ε α : Type) where
  delay : Nat := 0
  result : Except ε α

/-- What goes wrong in a call of a segment's worker. -/
inductive WorkerFault where
  /-- A fault that the store reports. -/
  | reported (text : String)
  /-- The worker itself crashes. -/
  | crash (text : String)
  deriving DecidableEq, Repr

/-- **What answers requests.**  A fault is a text. -/
structure Store (σ : Type) where
  query : QueryRequest → σ → Reply String Page × σ
  scan : ScanRequest → σ → Reply String Page × σ
  scanSegment : ScanRequest → σ → Reply WorkerFault Page × σ
  getItem : GetRequest → σ → Reply String (Option Item) × σ
  batchGet : BatchGetRequest → σ → Reply String BatchGetReply × σ
  batchWrite : BatchWriteRequest → σ → Reply String BatchWriteReply × σ
  update : UpdateRequest → σ → Reply String (Option Item) × σ
  /-- A bound for the pages of a request that may still come behind a key. -/
  rank : Request → Option Item → σ → Nat
  rank_query : ∀ (r : QueryRequest) (start : Option Item) (limit : Option Int) (s : σ)
    (page : Page) (key : Item),
    (query { r with start, limit } s).1.result = .ok page → page.next? = some key →
      rank (.query r) (some key) (query { r with start, limit } s).2 < rank (.query r) start s
  rank_scan : ∀ (r : ScanRequest) (start : Option Item) (limit : Option Int) (s : σ)
    (page : Page) (key : Item),
    (scan { r with start, limit } s).1.result = .ok page → page.next? = some key →
      rank (.scan r) (some key) (scan { r with start, limit } s).2 < rank (.scan r) start s
  rank_scanSegment : ∀ (r : ScanRequest) (start : Option Item) (limit : Option Int) (s : σ)
    (page : Page) (key : Item),
    (scanSegment { r with start, limit } s).1.result = .ok page → page.next? = some key →
      rank (.scan r) (some key) (scanSegment { r with start, limit } s).2 < rank (.scan r) start s

/-! ### Worlds -/

/-- A request that was sent, and when. -/
structure Sent where
  time : Nat
  request : Request
  deriving Repr, BEq

/-- A store as it has become, the time, and the requests sent so far. -/
structure World (σ : Type) where
  store : σ
  now : Nat := 0
  sent : List Sent := []

/-- What something with an outcome does to a world. -/
abbrev Action (σ α : Type) := World σ → Except Error α × World σ

namespace World

variable {σ ε α : Type}

/-- **A request is sent now.**  The answer is fixed at once, and the time stands still. -/
def send (w : World σ) (r : Request) (answer : σ → Reply ε α × σ) : Reply ε α × World σ :=
  let (reply, store) := answer w.store
  (reply, { w with store, sent := w.sent ++ [⟨w.now, r⟩] })

/-- The world after some time. -/
def sleep (w : World σ) (duration : Nat) : World σ := { w with now := w.now + duration }

/-- **A request is sent, and its answer is waited for.** -/
def call (w : World σ) (r : Request) (answer : σ → Reply ε α × σ) : Except ε α × World σ :=
  let (reply, w) := w.send r answer
  (reply.result, w.sleep reply.delay)

/-- Whether a deadline has come. -/
def elapsed (w : World σ) (deadline : Option Nat) : Bool :=
  match deadline with
  | some time => time ≤ w.now
  | none => false

/-- Whether a deadline has come is a matter of time alone. -/
theorem elapsed_congr {w v : World σ} (h : w.now = v.now) (deadline : Option Nat) :
    w.elapsed deadline = v.elapsed deadline := by
  unfold elapsed
  rw [h]

@[simp] theorem send_now (w : World σ) (r : Request) (answer : σ → Reply ε α × σ) :
    (w.send r answer).2.now = w.now := rfl

@[simp] theorem send_sent (w : World σ) (r : Request) (answer : σ → Reply ε α × σ) :
    (w.send r answer).2.sent = w.sent ++ [⟨w.now, r⟩] := rfl

@[simp] theorem send_store (w : World σ) (r : Request) (answer : σ → Reply ε α × σ) :
    (w.send r answer).2.store = (answer w.store).2 := rfl

@[simp] theorem call_store (w : World σ) (r : Request) (answer : σ → Reply ε α × σ) :
    (w.call r answer).2.store = (answer w.store).2 := rfl

@[simp] theorem call_sent (w : World σ) (r : Request) (answer : σ → Reply ε α × σ) :
    (w.call r answer).2.sent = w.sent ++ [⟨w.now, r⟩] := rfl

@[simp] theorem call_result (w : World σ) (r : Request) (answer : σ → Reply ε α × σ) :
    (w.call r answer).1 = (answer w.store).1.result := rfl

end World

/-- A fault of the store as an error of the call. -/
def storeError {α : Type} (operation : Operation) (r : Except String α) : Except Error α :=
  r.mapError fun text => .store ⟨operation, text⟩

/-- Errors told in another way are no results. -/
theorem eq_ok_of_mapError {α ε δ : Type} {f : ε → δ} {r : Except ε α} {a : α}
    (h : r.mapError f = .ok a) : r = .ok a := by
  cases r with
  | error _ => cases h
  | ok _ => cases h; rfl

theorem storeError_eq_ok {α : Type} {operation : Operation} {r : Except String α} {a : α}
    (h : storeError operation r = .ok a) : r = .ok a := eq_ok_of_mapError h

end Keyspace
