import Keyspace.Cursor.Fingerprint
import Keyspace.Expression.Compiler
import Keyspace.Plan
import Keyspace.Request
/-!
# Reads

A read is a plan with everything else that shapes its requests: fragments for the filter, the
paths to be read, the order, the number of items wanted and where to start.

Main definitions:

* `Keyspace.Read` — the reads;
* `Keyspace.Read.shape`, `Keyspace.Read.fingerprint` — what a cursor of the read is bound to;
* `Keyspace.Read.compile` — the expressions;
* `Keyspace.Read.request` — the request for a page;
* `Keyspace.Read.pointKey?` — the key, if the read is for the item of one key.
-/

set_option autoImplicit false

namespace Keyspace

/-- The order of the sort key. -/
inductive SortOrder where
  | ascending
  | descending
  deriving DecidableEq, Repr

/-- The name of an order. -/
def SortOrder.name : SortOrder → String
  | .ascending => "Ascending"
  | .descending => "Descending"

/-- A read with its plan. -/
structure Read where
  plan : Plan
  fragments : List Fragment := []
  /-- The paths to be read; none stand for whole items. -/
  projection : List String := []
  order : SortOrder := .ascending
  /-- The most items wanted. -/
  limit : Option Int := none
  /-- The key behind which to start. -/
  start : Option Item := none
  consistent : Bool := false
  /-- The number of segments that a scan is divided into. -/
  segments : Int := 1
  deriving Repr, BEq

/-- A request for pages. -/
inductive PageRequest where
  | query (request : QueryRequest)
  | scan (request : ScanRequest)
  deriving Repr, BEq

namespace PageRequest

/-- The request among all requests. -/
def toRequest : PageRequest → Request
  | .query r => .query r
  | .scan r => .scan r

/-- The call that the request is for. -/
def operation : PageRequest → Operation
  | .query _ => .query
  | .scan _ => .scan

/-- The filter expression. -/
def filter : PageRequest → Option String
  | .query r => r.filter
  | .scan r => r.filter

/-- The request for the page behind a key, with a number of items to look at. -/
def turn (start : Option Item) (limit : Option Int) : PageRequest → PageRequest
  | .query r => .query { r with start := start, limit := limit.or r.limit }
  | .scan r => .scan { r with start := start, limit := limit.or r.limit }

end PageRequest

namespace Read

/-! ### Shape -/

/-- The description of a condition's shape: its attribute and operator, not its operands. -/
def conditionShape (sign : String) (c : Condition) : String :=
  "|" ++ sign ++ ":" ++ c.field ++ ":" ++ c.operator.name

/-- **The description of everything that decides which keys a cursor may hold.**  Operands, the
number of items and consistency do not belong to it. -/
def shape (r : Read) : String :=
  r.plan.table ++ "|" ++ r.plan.index.name ++ "|" ++ r.plan.access.name ++
    String.join (r.plan.keyConditions.map (conditionShape "k")) ++
    String.join (r.plan.filterConditions.map (conditionShape "f")) ++
    String.join (r.fragments.map fun f => "|r:" ++ f.expression) ++
    "|p:" ++ ",".intercalate r.projection ++ "|o:" ++ r.order.name ++ "|s:" ++ toString r.segments

/-- The fingerprint of the shape. -/
def fingerprint (r : Read) : Fingerprint := .of r.shape

/-- Whether the read is a scan of several segments. -/
def isParallel (r : Read) : Bool := r.plan.isScan && 1 < r.segments

/-! ### Expressions and requests -/

/-- **The expressions of a read.**  Key conditions, filter conditions and projection are numbered
in this order, whatever stands first in the filter. -/
def compile (r : Read) : Except Error Expressions :=
  let (key, c) := Compiler.empty.conditions r.plan.keyConditions
  let (filter, c) := c.conditions r.plan.filterConditions
  let (projection, c) := c.projection r.projection
  match c.merge filter r.fragments with
  | (.ok filter, _) => .ok { key, filter, projection }
  | (.error e, _) => .error e

/-- What is returned of each item unless the caller says otherwise. -/
def defaultSelection (r : Read) : Selection :=
  if !r.projection.isEmpty then .specificAttributes
  else if r.plan.index.isBase then .allAttributes
  else .allProjectedAttributes

/-- **The request for the first page.**  A projection is sent only with the selection that asks
for it. -/
def request (r : Read) (e : Expressions) (select : Option Selection) : PageRequest :=
  let select := select.getD r.defaultSelection
  let filter := e.filter.map Expression.text
  let projection :=
    if select = .specificAttributes then e.projection.map Expression.text else none
  if r.plan.isScan then
    .scan
      { table := r.plan.table, index := r.plan.index.requestName, filter, projection
        names := e.names, values := e.values, consistent := r.consistent, select := some select }
  else
    .query
      { table := r.plan.table, index := r.plan.index.requestName
        key := (e.key.map Expression.text).getD "", filter, projection
        names := e.names, values := e.values, forward := r.order = .ascending
        consistent := r.consistent, select := some select }

/-- The request for one item by its key. -/
def getRequest (r : Read) (e : Expressions) (key : Item) : GetRequest :=
  { table := r.plan.table, key, projection := e.projection.map Expression.text
    names := (e.projection.map Expression.names).getD [], consistent := r.consistent }

/-! ### Reading one key -/

/-- The key that equations on attributes make up. -/
def equatedKey? : List Condition → Option Item
  | cs => (cs.mapM fun c =>
      if c.operator = .eq then c.values.head?.map fun v => (c.field, v) else none).map Dict.ofList

/-- **The key of the only item that a read can find**: all its conditions are equations on the
keys of the table, and each key has one. -/
def pointKey? (r : Read) : Option Item :=
  if r.plan.isScan || !r.plan.index.isBase || !r.plan.filterConditions.isEmpty ||
      !r.fragments.isEmpty || r.start.isSome then none
  else
    (equatedKey? r.plan.keyConditions).filter fun key =>
      match r.plan.index.sortKey with
      | some name => key.contains name
      | none => true

end Read

end Keyspace
