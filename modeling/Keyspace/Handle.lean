import Keyspace.Batch.Run
import Keyspace.Query.Run
import Keyspace.Update.Basic
/-!
# Handles

A handle holds the settings and remembers the schema of every model it has met, so that a model's
description is looked at and checked once.  Queries, updates and batches start from it.

Main definitions:

* `Keyspace.Handle` — settings and schemas;
* `Keyspace.Handle.schema`, `Keyspace.Handle.meet` — the schema of a model, and remembering it;
* `Keyspace.Handle.query`, `Keyspace.Handle.update`, `Keyspace.Handle.batchGet`,
  `Keyspace.Handle.batchWrite` — what is started from a handle.
-/

set_option autoImplicit false

namespace Keyspace

/-- Settings, and the schemas of the models met so far. -/
structure Handle where
  config : Config := {}
  schemas : Dict TableSchema := []
  deriving Repr

namespace Handle

variable {σ α : Type}

/-- The handle with some settings, within the limits of the store. -/
def new (config : Config) : Handle := { config := config.clamped }

/-- **The schema of a model**: the one remembered, or the model's own if it is valid. -/
def schema (h : Handle) (m : Model α) : Except Error TableSchema :=
  match h.schemas.get? m.name with
  | some s => .ok s
  | none => do
    m.schema.validate
    .ok m.schema

/-- The handle after it has met a model. -/
def meet (h : Handle) (m : Model α) : Handle :=
  match h.schema m with
  | .ok s => { h with schemas := Dict.insert m.name s h.schemas }
  | .error _ => h

/-- A query on the items of a model.  If its schema is not valid, the query has failed already. -/
def query (h : Handle) (m : Model α) : Query :=
  match h.schema m with
  | .ok s => Query.new s h.config
  | .error e => (Query.new m.schema h.config).fail e

/-- An update of an item of a model. -/
def update (h : Handle) (m : Model α) : Update :=
  match h.schema m with
  | .ok s => Update.new s
  | .error e => (Update.new m.schema).fail e

/-! ### Batches -/

/-- The table of a model and the items that its keys are. -/
def keyItems (h : Handle) (m : Model α) (keys : List Key) :
    Except Error (TableSchema × List Item) := do
  let s ← h.schema m
  let items ← keys.mapM fun key : Key => key.toItem s
  .ok (s, items)

/-- The table of a model and the writes that store some values and remove the items of some
keys. -/
def writes (h : Handle) (m : Model α) (values : List α) (keys : List Key) :
    Except Error (TableSchema × List Write) := do
  let s ← h.schema m
  let items ← values.mapM m.encode
  let keys ← keys.mapM fun key : Key => key.toItem s
  .ok (s, items.map Write.put ++ keys.map Write.delete)

/-- The items that a batch brought as values. -/
def decodeSummary (m : Model α) (r : Batch.Summary (List Item)) :
    Except Error (Batch.Summary (List α)) := do
  let values ← m.decodeAll r.value
  .ok { value := values, retries := r.retries, charged := r.charged }

/-- **The values of some keys.**  Only the given paths are read; none stand for whole items. -/
def batchGet (h : Handle) (m : Model α) (store : Store σ) (keys : List Key)
    (projection : List String) (deadline : Option Nat) :
    Action σ (Batch.Summary (List α)) := fun w =>
  match h.keyItems m keys with
  | .error e => (.error e, w)
  | .ok (s, keys) =>
    let template : Batch.GetTemplate :=
      { table := s.table, projection := (Compiler.empty.projection projection).1
        consistent := false }
    let (outcome, w) := Batch.get store h.config template keys deadline w
    (outcome.bind (decodeSummary m), w)

/-- **Values are stored, and the items of some keys removed.**  Nothing is sent unless all values
can be written and all keys fit. -/
def batchWrite (h : Handle) (m : Model α) (store : Store σ) (values : List α) (keys : List Key)
    (deadline : Option Nat) : Action σ (Batch.Summary Nat) := fun w =>
  match h.writes m values keys with
  | .error e => (.error e, w)
  | .ok (s, writes) => Batch.write store h.config s.table writes deadline w

end Handle

end Keyspace
