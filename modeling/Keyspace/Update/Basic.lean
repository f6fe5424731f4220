import Keyspace.Condition.Set
import Keyspace.Datum
import Keyspace.Model
import Keyspace.Retry
import Keyspace.Update.Change
/-!
# Updates

An update changes one item, if some conditions hold for it.  It is put together step by step: the
key of the item, the changes, the conditions.  The first step that is wrong is kept as an error,
and from then on the update no longer changes.

Main definitions:

* `Keyspace.Update` — the updates;
* `Keyspace.Update.apply`, `Keyspace.Update.remove` and so on — the steps;
* `Keyspace.Update.compile` — the request;
* `Keyspace.Update.execute` — sending it.
-/

set_option autoImplicit false

namespace Keyspace

/-- An update of one item of a table.  The first error is kept with the conditions. -/
structure Update where
  schema : TableSchema
  partition : Option Value := none
  sort : Option Value := none
  changes : List Change := []
  conditions : ConditionSet := {}
  deadline : Option Nat := none
  deriving Repr

namespace Update

/-- The update that changes nothing yet. -/
def new (schema : TableSchema) : Update := { schema }

/-- Whether there was an error. -/
def failed (u : Update) : Bool := u.conditions.failed

/-- The update with an error, unless it has one. -/
def fail (u : Update) (e : Error) : Update := { u with conditions := u.conditions.fail e }

/-- **A step that a failed update ignores**, and whose error an update keeps. -/
def attempt (u : Update) (step : Except Error Update) : Update :=
  if u.failed then u
  else
    match step with
    | .ok r => r
    | .error e => u.fail e

/-- A failed update stays as it is. -/
theorem attempt_of_failed {u : Update} {step : Except Error Update} (h : u.failed = true) :
    u.attempt step = u := by
  simp [attempt, h]

/-! ### The item -/

section

variable {ν : Type} [AsOperand ν]

/-- The value of the partition key. -/
def ofPartition (u : Update) (value : ν) : Update :=
  u.attempt do
    let v ← AsOperand.encode value
    .ok { u with partition := some v }

/-- The value of the sort key. -/
def ofSort (u : Update) (value : ν) : Update :=
  u.attempt do
    let v ← AsOperand.encode value
    .ok { u with sort := some v }

end

/-- Both values of the key. -/
def ofKey (u : Update) (key : Key) : Update :=
  u.attempt (.ok { u with partition := some key.partition, sort := key.sort })

/-! ### Changes -/

/-- The update with a change of a known attribute more. -/
def withChange (u : Update) (c : Change) : Except Error Update := do
  u.schema.checkAttribute c.path
  .ok { u with changes := u.changes ++ [c] }

/-- The operand that a form takes: a set where a set is added to or deleted from. -/
def operandOf (form : ChangeForm) (v : Value) : Except Error Value :=
  match form with
  | .add | .delete => v.asSet
  | _ => .ok v

/-- A change with an operand. -/
def apply {ν : Type} [AsOperand ν] (u : Update) (form : ChangeForm) (path : String) (value : ν) :
    Update :=
  u.attempt do
    let v ← AsOperand.encode value
    let operand ← operandOf form v
    u.withChange (.apply form path operand)

/-- What is at a path is removed. -/
def remove (u : Update) (path : String) : Update := u.attempt (u.withChange (.remove path))

/-! ### Conditions -/

/-- The update only happens if `field op value`, for an operator with one operand. -/
def onlyIf {ν : Type} [AsOperand ν] (u : Update) (field : String) (op : Operator) (value : ν) :
    Update :=
  u.attempt do
    u.schema.checkAttribute field
    let v ← AsOperand.encode value
    let c ← Condition.check field op [v]
    .ok { u with conditions := u.conditions.add c }

/-- The update only happens if a field exists. -/
def onlyIfExists (u : Update) (field : String) : Update :=
  { u with conditions := u.conditions.append field .attributeExists [] }

/-- The update only happens if a field does not exist. -/
def onlyIfAbsent (u : Update) (field : String) : Update :=
  { u with conditions := u.conditions.append field .attributeNotExists [] }

/-- A fragment more for the condition. -/
def filter (u : Update) (f : Fragment) : Update :=
  { u with conditions := u.conditions.appendFragment f }

/-- The time from which on nothing is sent. -/
def before (u : Update) (deadline : Nat) : Update :=
  u.attempt (.ok { u with deadline := some deadline })

/-! ### The request -/

/-- What is wrong with changes after those at the paths `earlier`: one touches the key, or a path
is changed a second time. -/
def invalidChange? (keys earlier : List String) : List Change → Option Invalid
  | [] => none
  | c :: rest =>
    if keys.contains (rootAttribute c.path) then some (.keyUpdated c.path)
    else if earlier.contains c.path then some (.repeatedPath c.path)
    else invalidChange? keys (c.path :: earlier) rest

/-- The value of the partition key, which has to be there. -/
def partitionValue (u : Update) : Except Error Value :=
  match u.partition with
  | some v => .ok v
  | none => .error (.invalid (.missingPartitionKey u.schema.table u.schema.partitionKey))

/-- The update expression and the condition of an update.  The changes are numbered first. -/
def expressions (u : Update) (conditions : List Condition) (fragments : List Fragment) :
    Except Error Expressions :=
  let (update, c) := Compiler.empty.update u.changes
  let (condition, c) := c.conditions conditions
  match c.merge condition fragments with
  | (.ok condition, _) => .ok { update := some update, condition }
  | (.error e, _) => .error e

/-- **The request of an update.** -/
def compile (u : Update) : Except Error UpdateRequest := do
  let (conditions, fragments) ← u.conditions.parts
  if u.changes.isEmpty then .error (.invalid .noActions)
  else
    let partition ← u.partitionValue
    let key ← Key.toItem { partition, sort := u.sort } u.schema
    match invalidChange? u.schema.keyAttributes [] u.changes with
    | some cause => .error (.invalid cause)
    | none =>
      let e ← u.expressions conditions fragments
      .ok
        { table := u.schema.table, key, update := (e.update.map Expression.text).getD ""
          condition := e.condition.map Expression.text, names := e.names, values := e.values
          returnsItem := true }

/-- A request for an update, sent. -/
def send {σ : Type} (store : Store σ) (r : UpdateRequest) : Action σ (Option Item) := fun w =>
  let (result, w) := w.call (.update r) (store.update r)
  (storeError .updateItem result, w)

/-- **An update is sent**, and brings the item as it has become. -/
def execute {σ α : Type} (u : Update) (m : Model α) (store : Store σ) : Action σ (Option α) :=
  fun w =>
    match u.compile with
    | .error e => (.error e, w)
    | .ok r =>
      let (outcome, w) := RetryPolicy.before u.deadline .updateItem 0 (send store r) w
      (outcome.bind fun item => item.mapM m.decode, w)

end Update

end Keyspace
