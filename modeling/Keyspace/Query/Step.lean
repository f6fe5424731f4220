import Keyspace.Query.Basic
/-!
# Steps of a query

The steps that put a query together, as data: a query can be put together from a list of them, and
the first one that was wrong can be told.  The operands of the steps are of one type, which may be
any type of operands; plain data if nothing else is said.

Main definitions:

* `Keyspace.Query.Step` — the steps;
* `Keyspace.Query.step`, `Keyspace.Query.steps` — one step, several steps;
* `Keyspace.Query.firstWrong?` — the position of the first wrong step.
-/

set_option autoImplicit false

namespace Keyspace.Query

/-- A step that puts a query together. -/
inductive Step (ν : Type := Datum) where
  | compare (field : String) (op : Operator) (value : ν)
  | between (field : String) (low high : ν)
  | oneOf (field : String) (values : List ν)
  | beginsWith (field start : String)
  | attributeExists (field : String)
  | attributeNotExists (field : String)
  | condition (field op : String) (value : ν)
  | filter (fragment : Fragment)
  | select (paths : List String)
  | useIndex (name : String)
  | orderBy (order : SortOrder)
  | take (limit : Int)
  | startAt (cursor : String)
  | consistently (consistent : Bool)
  | retrying (retry : RetryPolicy)
  | before (deadline : Nat)
  /-- Nothing is sent when `duration` has passed from now on.  Times have no end here; where the
  clock's do, a duration that leads beyond it ends the program, whether or not there was an error
  before. -/
  | within (duration : Nat)
  | inSegments (segments : Int)
  | scan

variable {ν : Type} [AsOperand ν]

/-- **The query after a step** that is taken at a time. -/
def step (now : Nat) (q : Query) : Step ν → Query
  | .compare field op value => q.compare field op value
  | .between field low high => q.between field low high
  | .oneOf field values => q.oneOf field values
  | .beginsWith field start => q.beginsWith field start
  | .attributeExists field => q.attributeExists field
  | .attributeNotExists field => q.attributeNotExists field
  | .condition field op value => q.condition field op value
  | .filter fragment => q.filter fragment
  | .select paths => q.select paths
  | .useIndex name => q.useIndex name
  | .orderBy order => q.orderBy order
  | .take limit => q.take limit
  | .startAt cursor => q.startAt cursor
  | .consistently consistent => q.consistently consistent
  | .retrying retry => q.retrying retry
  | .before deadline => q.before deadline
  | .within duration => q.before (now + duration)
  | .inSegments segments => q.inSegments segments
  | .scan => q.scan

/-- The query after some steps. -/
def steps (now : Nat) (q : Query) (ss : List (Step ν)) : Query := ss.foldl (step now) q

/-- The number of steps that a query takes before one that is wrong, if one is. -/
def firstWrong? (now : Nat) (q : Query) : List (Step ν) → Option Nat
  | [] => none
  | s :: rest =>
    if (q.step now s).failed then some 0
    else (firstWrong? now (q.step now s) rest).map (· + 1)

end Keyspace.Query
