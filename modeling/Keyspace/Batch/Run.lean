import Keyspace.Batch.Basic
import Keyspace.Expression.Compiler
import Keyspace.Model
/-!
# Batches of reads and writes

Items are read by their keys, and stored and removed, in batches.

Main definitions:

* `Keyspace.Batch.writeJob`, `Keyspace.Batch.getJob` — the two kinds of work;
* `Keyspace.Batch.write`, `Keyspace.Batch.get` — a batch, with what it leaves undone as an error.
-/

set_option autoImplicit false

namespace Keyspace.Batch

variable {σ α : Type}

/-- What a batch brought.  How long it took is not told: that is measured by the clock of the
machine, on which nothing else depends, and not by the one that deadlines are on. -/
structure Summary (α : Type) where
  value : α
  /-- The number of rounds after the first. -/
  retries : Nat
  charged : List String

/-- The parts of a batch that are the same in every call. -/
structure GetTemplate where
  table : String
  projection : Option Expression
  consistent : Bool

/-- The request for some keys. -/
def GetTemplate.request (t : GetTemplate) (keys : List Item) : BatchGetRequest :=
  { table := t.table, keys, projection := t.projection.map Expression.text
    names := (t.projection.map Expression.names).getD [], consistent := t.consistent }

/-- Writing to a table. -/
def writeJob (store : Store σ) (config : Config) (table : String) : Job σ Write where
  operation := .batchWriteItem
  chunkSize := Config.clamp Config.maxWriteChunk config.writeChunk
  concurrency := config.concurrency
  courier :=
    { request := fun writes => .batchWrite { table, writes }
      answer := fun writes s =>
        let (reply, s) := store.batchWrite { table, writes } s
        (⟨reply.delay, reply.result.map fun r =>
          { unprocessed := r.unprocessed, charged := r.charged }⟩, s) }

/-- Reading from a table. -/
def getJob (store : Store σ) (config : Config) (t : GetTemplate) : Job σ Item where
  operation := .batchGetItem
  chunkSize := Config.clamp Config.maxReadChunk config.readChunk
  concurrency := config.concurrency
  courier :=
    { request := fun keys => .batchGet (t.request keys)
      answer := fun keys s =>
        let (reply, s) := store.batchGet (t.request keys) s
        (⟨reply.delay, reply.result.map fun r =>
          { items := r.items, unprocessed := r.unprocessed, charged := r.charged }⟩, s) }

/-- The items of the writes that store one. -/
def puts (writes : List Write) : List Item :=
  writes.filterMap fun
    | .put item => some item
    | .delete _ => none

/-- The keys of the writes that remove an item. -/
def deletes (writes : List Write) : List Item :=
  writes.filterMap fun
    | .put _ => none
    | .delete key => some key

/-- **Writes, in as many rounds as they take.**  The result is their number. -/
def write (store : Store σ) (config : Config) (table : String) (writes : List Write)
    (deadline : Option Nat) : Action σ (Summary Nat) := fun w =>
  match run (writeJob store config table) config.batchRetry deadline writes w with
  | (.done retries p, w) => (.ok ⟨writes.length, retries, p.charged⟩, w)
  | (.late, w) => (.error (.timeout .batchWriteItem 0), w)
  | (.incomplete pending attempts deadlineElapsed p, w) =>
    (.error (.partialBatch
      { puts := puts pending, deletes := deletes pending, attempts, lastFault := p.lastFault
        deadlineElapsed }), w)

/-- **The items of some keys, in as many rounds as they take.** -/
def get (store : Store σ) (config : Config) (t : GetTemplate) (keys : List Item)
    (deadline : Option Nat) : Action σ (Summary (List Item)) := fun w =>
  match run (getJob store config t) config.batchRetry deadline keys w with
  | (.done retries p, w) => (.ok ⟨p.items, retries, p.charged⟩, w)
  | (.late, w) => (.error (.timeout .batchGetItem 0), w)
  | (.incomplete pending attempts deadlineElapsed p, w) =>
    (.error (.partialBatch
      { keys := pending, retrieved := p.items, attempts, lastFault := p.lastFault
        deadlineElapsed }), w)

end Keyspace.Batch
