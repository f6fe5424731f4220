import Keyspace.Condition.Set
import Keyspace.Config
import Keyspace.Cursor.Basic
import Keyspace.Datum
import Keyspace.Read.Basic
/-!
# Queries

A query is put together step by step: conditions, what is to be read, in which order, how many
items, from where on.  The first step that is wrong is kept as an error, and from then on the
query no longer changes.  `Query.build` turns it into a read, or gives the error.

Main definitions:

* `Keyspace.Query` — the queries;
* `Keyspace.Query.attempt` — a step that may be wrong;
* `Keyspace.Query.compare` and so on — the steps;
* `Keyspace.Query.build` — the read.
-/

set_option autoImplicit false

namespace Keyspace

/-- A query on a table.  The first error is kept with the conditions. -/
structure Query where
  schema : TableSchema
  conditions : ConditionSet := {}
  projection : List String := []
  index : Option String := none
  order : SortOrder := .ascending
  limit : Option Int := none
  cursor : Option String := none
  consistent : Bool := false
  /-- Whether everything is read even if an index could serve the conditions. -/
  scans : Bool := false
  segments : Int := 1
  retry : RetryPolicy
  deadline : Option Nat := none
  /-- The most items of a page, if the query does not say. -/
  pageSize : Option Int := none
  deriving Repr

namespace Query

/-- The query without conditions on a table. -/
def new (schema : TableSchema) (config : Config) : Query :=
  { schema, retry := config.queryRetry, pageSize := config.pageSize }

/-- The first error. -/
def error? (q : Query) : Option Error := q.conditions.error

/-- Whether there was an error. -/
def failed (q : Query) : Bool := q.conditions.failed

/-- The query with an error, unless it has one. -/
def fail (q : Query) (e : Error) : Query := { q with conditions := q.conditions.fail e }

/-- **A step that a failed query ignores**, and whose error a query keeps. -/
def attempt (q : Query) (step : Except Error Query) : Query :=
  if q.failed then q
  else
    match step with
    | .ok r => r
    | .error e => q.fail e

/-- A failed query stays as it is. -/
theorem attempt_of_failed {q : Query} {step : Except Error Query} (h : q.failed = true) :
    q.attempt step = q := by
  simp [attempt, h]

/-- **What a step keeps**: it holds of the query, of the query with an error, and of every query
that the step makes where it is right. -/
theorem attempt_keeps {P : Query → Prop} {q : Query} {step : Except Error Query} (hq : P q)
    (hfail : ∀ e, P (q.fail e)) (hstep : ∀ r, step = .ok r → P r) : P (q.attempt step) := by
  unfold attempt
  split
  · exact hq
  · cases step with
    | ok r => exact hstep r rfl
    | error e => exact hfail e

/-! ### Conditions -/

/-- The query with a condition on a known attribute more. -/
def withCondition (q : Query) (field : String) (op : Operator) (values : List Value) :
    Except Error Query := do
  q.schema.checkAttribute field
  let c ← Condition.check field op values
  .ok { q with conditions := q.conditions.add c }

section

variable {ν : Type} [AsOperand ν]

/-- `field op value`, for an operator with one operand. -/
def compare (q : Query) (field : String) (op : Operator) (value : ν) : Query :=
  q.attempt do
    let v ← AsOperand.encode value
    q.withCondition field op [v]

/-- `field BETWEEN low AND high`. -/
def between (q : Query) (field : String) (low high : ν) : Query :=
  q.attempt do
    let l ← AsOperand.encode low
    let h ← AsOperand.encode high
    q.withCondition field .between [l, h]

/-- `field IN (values)`. -/
def oneOf (q : Query) (field : String) (values : List ν) : Query :=
  q.attempt do
    let vs ← AsOperand.encodeAll values
    q.withCondition field .oneOf vs

end

/-- `begins_with(field, start)`. -/
def beginsWith (q : Query) (field start : String) : Query :=
  q.attempt (q.withCondition field .beginsWith [.text start])

/-- `attribute_exists(field)`. -/
def attributeExists (q : Query) (field : String) : Query :=
  q.attempt (q.withCondition field .attributeExists [])

/-- `attribute_not_exists(field)`. -/
def attributeNotExists (q : Query) (field : String) : Query :=
  q.attempt (q.withCondition field .attributeNotExists [])

/-- The operands that one value stands for: the elements of a list for an operator with several,
none for null where none are wanted, and otherwise the value itself. -/
def operandsOf : Operator → Value → List Value
  | .between, .list vs => vs
  | .oneOf, .list vs => vs
  | .attributeExists, .null _ => []
  | .attributeNotExists, .null _ => []
  | _, v => [v]

/-- A condition whose operator is spelt out. -/
def condition {ν : Type} [AsOperand ν] (q : Query) (field op : String) (value : ν) : Query :=
  q.attempt do
    let op ← Operator.read op
    let v ← AsOperand.encode value
    q.withCondition field op (operandsOf op v)

/-- A fragment more for the filter. -/
def filter (q : Query) (f : Fragment) : Query :=
  { q with conditions := q.conditions.appendFragment f }

/-! ### What is read, and how -/

/-- Only these paths are read; none stand for whole items. -/
def select (q : Query) (paths : List String) : Query :=
  q.attempt do
    paths.forM q.schema.checkAttribute
    .ok { q with projection := paths }

/-- The index that is read. -/
def useIndex (q : Query) (name : String) : Query := q.attempt (.ok { q with index := some name })

/-- The order of the items. -/
def orderBy (q : Query) (order : SortOrder) : Query := q.attempt (.ok { q with order })

/-- The most items wanted. -/
def take (q : Query) (limit : Int) : Query :=
  q.attempt <|
    if limit ≤ 0 then .error (.invalid (.limitNotPositive limit))
    else .ok { q with limit := some limit }

/-- Where the read goes on; the empty cursor starts over. -/
def startAt (q : Query) (cursor : String) : Query :=
  q.attempt (.ok { q with cursor := if cursor.isEmpty then none else some cursor })

/-- Whether the latest writes have to be seen. -/
def consistently (q : Query) (consistent : Bool) : Query := q.attempt (.ok { q with consistent })

/-- How often faults are tried again. -/
def retrying (q : Query) (retry : RetryPolicy) : Query := q.attempt (.ok { q with retry })

/-- The time from which on nothing is sent. -/
def before (q : Query) (deadline : Nat) : Query :=
  q.attempt (.ok { q with deadline := some deadline })

/-- The number of segments, if the read is a scan. -/
def inSegments (q : Query) (segments : Int) : Query :=
  q.attempt <|
    if segments < 1 then .error (.invalid (.segmentsNotPositive segments))
    else .ok { q with segments }

/-- Everything is read, even if an index could serve the conditions. -/
def scan (q : Query) : Query := q.attempt (.ok { q with scans := true })

/-! ### The read -/

/-- The plan of a query. -/
def planOf (q : Query) (cs : List Condition) : Except Error Plan :=
  if q.scans then q.schema.scan cs q.index else q.schema.select cs q.index q.projection

/-- A read from where a cursor says.  A scan of several segments cannot go on from a cursor. -/
def resume (cursor : Option String) (r : Read) : Except Error Read :=
  match cursor with
  | none => .ok r
  | some text =>
    if r.isParallel then .error (.invalid .cursorForSegments)
    else do
      let key ← Cursor.decode text r.fingerprint
      .ok { r with start := some key }

/-- **The read that a query asks for.** -/
def build (q : Query) : Except Error Read := do
  let (conditions, fragments) ← q.conditions.parts
  let plan ← q.planOf conditions
  if q.consistent && plan.index.kind = .globalIndex then
    .error (.invalid (.consistentGlobalIndex plan.index.name))
  else
    resume q.cursor
      { plan, fragments, projection := q.projection, order := q.order, limit := q.limit
        consistent := q.consistent, segments := if plan.isScan then q.segments else 1 }

end Query

end Keyspace
