import Keyspace.Condition.Basic
import Keyspace.Schema
/-!
# Plans

A plan says where the items that satisfy some conditions are read: in the table or in one of its
indexes, by key or all of them, and which of the conditions the key answers.  An index can be read
by key if some condition equates its partition key with a value.  Of several such indexes the best
also has a condition for its sort key, and after that it covers what is read; among equally good
ones the first is taken, the table itself before its indexes.

Main definitions:

* `Keyspace.Plan` — the plans;
* `Keyspace.Index.partitionCondition?`, `Keyspace.Index.sortCondition?` — the conditions that a
  key can answer;
* `Keyspace.TableSchema.covers`, `Keyspace.Rank` — what makes an index better than another;
* `Keyspace.TableSchema.select`, `Keyspace.TableSchema.scan` — the plan of a read.
-/

set_option autoImplicit false

namespace Keyspace

/-- How items are reached. -/
inductive Access where
  /-- By key. -/
  | query
  /-- By reading all of them. -/
  | scan
  deriving DecidableEq, Repr

/-- The name of an access. -/
def Access.name : Access → String
  | .query => "Query"
  | .scan => "Scan"

/-- How some items are read. -/
structure Plan where
  table : String
  index : Index
  access : Access
  /-- The conditions that the key answers, the one on the partition key first. -/
  keyConditions : List Condition
  /-- The other conditions. -/
  filterConditions : List Condition
  /-- No key could be used, so that everything is read. -/
  fullScan : Bool := false
  deriving Repr, BEq

namespace Plan

/-- Whether all items are read. -/
def isScan (p : Plan) : Bool := p.access = .scan

/-- The calls that a plan makes. -/
def operation (p : Plan) : Operation :=
  match p.access with
  | .query => .query
  | .scan => .scan

end Plan

/-! ### Conditions that a key answers -/

namespace Index

/-- Whether a condition equates the partition key with a value. -/
def isPartitionCondition (i : Index) (c : Condition) : Bool :=
  c.field == i.partitionKey && c.operator = .eq

/-- Whether a condition is one on the sort key that a key can answer. -/
def isSortCondition (i : Index) (c : Condition) : Bool :=
  i.sortKey == some c.field && c.operator.servesSortKey

/-- The position of the first condition that equates the partition key with a value. -/
def partitionCondition? (i : Index) (cs : List Condition) : Option Nat :=
  cs.findIdx? i.isPartitionCondition

/-- The position of the first condition on the sort key that a key can answer. -/
def sortCondition? (i : Index) (cs : List Condition) : Option Nat :=
  cs.findIdx? i.isSortCondition

/-- Whether an index can be read by key under some conditions. -/
def serves (i : Index) (cs : List Condition) : Bool := (i.partitionCondition? cs).isSome

/-- The conditions that the key of an index answers and the others, each in their order. -/
def split (i : Index) (cs : List Condition) : List Condition × List Condition :=
  let chosen := [i.partitionCondition? cs, i.sortCondition? cs]
  let (keyed, others) := cs.zipIdx.partition fun c => chosen.contains (some c.2)
  (keyed.map Prod.fst, others.map Prod.fst)

/-- The conditions on the partition key before the others. -/
def partitionFirst (i : Index) (cs : List Condition) : List Condition :=
  let (first, second) := cs.partition fun c => c.field == i.partitionKey
  first ++ second

end Index

/-! ### The best index -/

/-- What makes an index good: a condition on its sort key, and then that it covers the read. -/
structure Rank where
  sorted : Bool
  covers : Bool
  deriving DecidableEq, Repr

/-- Whether one rank is better than another. -/
def Rank.better (r s : Rank) : Bool :=
  (r.sorted && !s.sorted) || (r.sorted == s.sorted && r.covers && !s.covers)

namespace TableSchema

/-- **Whether an index shows everything that a read touches**: the attributes of its conditions
and those it projects.  A read that projects nothing wants whole items.  A local index fetches
what it does not hold from the table. -/
def covers (s : TableSchema) (i : Index) (cs : List Condition) (projection : List String) : Bool :=
  if i.kind = .localIndex then true
  else if projection.isEmpty then i.projection = .all
  else
    (cs.map Condition.field ++ projection).all fun path =>
      i.projects s.keyAttributes (rootAttribute path)

/-- The rank of an index for a read. -/
def rank (s : TableSchema) (cs : List Condition) (projection : List String) (i : Index) : Rank :=
  { sorted := (i.sortCondition? cs).isSome, covers := s.covers i cs projection }

/-- The first index that no other is better than. -/
def best (rank : Index → Rank) : List Index → Option Index
  | [] => none
  | i :: rest =>
    match best rank rest with
    | some j => if (rank j).better (rank i) then some j else some i
    | none => some i

/-- The index of a name. -/
def named (s : TableSchema) (name : String) : Except Error Index :=
  match s.index? name with
  | some i => .ok i
  | none => .error (.invalid (.unknownIndex s.table name))

/-- The plan that reads everything and leaves all conditions to the filter. -/
def scanPlan (s : TableSchema) (i : Index) (cs : List Condition) : Plan :=
  { table := s.table, index := i, access := .scan, keyConditions := [], filterConditions := cs
    fullScan := true }

/-- The plan that reads by the key of an index. -/
def queryPlan (s : TableSchema) (i : Index) (cs : List Condition) : Plan :=
  let (keyed, others) := i.split cs
  { table := s.table, index := i, access := .query
    keyConditions := i.partitionFirst keyed, filterConditions := others, fullScan := false }

/-- **The plan of a read**, on the best index that can be read by key, or on the index that is
asked for.  If there is none to be read by key, everything is read. -/
def select (s : TableSchema) (cs : List Condition) (index : Option String)
    (projection : List String) : Except Error Plan := do
  match index with
  | some name =>
    let i ← s.named name
    .ok (if i.serves cs then s.queryPlan i cs else s.scanPlan i cs)
  | none =>
    let candidates := (s.baseIndex :: s.indexes).filter fun i => i.serves cs
    .ok <|
      match best (s.rank cs projection) candidates with
      | some i => s.queryPlan i cs
      | none => s.scanPlan s.baseIndex cs

/-- The plan that reads everything, in the table or in the index that is asked for. -/
def scan (s : TableSchema) (cs : List Condition) (index : Option String) : Except Error Plan := do
  match index with
  | some name =>
    let i ← s.named name
    .ok (s.scanPlan i cs)
  | none => .ok (s.scanPlan s.baseIndex cs)

end TableSchema

end Keyspace
