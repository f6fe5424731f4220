import Keyspace.Wire.Body
import Keyspace.Wire.Fault
/-!
# Replies in JSON

The store replies with a status and a JSON value.  A status of success comes with the result of
the call, every other status with a fault.  A result is an object of the form of its call, in
which everything may be missing.

Main definitions:

* `Keyspace.Wire.Response`, `Keyspace.Wire.response?` — the result of a reply;
* `Keyspace.Wire.read` — the reply to a call;
* `Keyspace.Wire.answer` — the reply to a request, if the request can be sent.
-/

set_option autoImplicit false

namespace Keyspace.Wire

/-! ### Parts of a result -/

/-- The elements of an array that may be missing. -/
def elements (j : Json) (name : String) : List Json :=
  ((j.get? name).bind Json.elements?).getD []

/-- The members of an object that may be missing. -/
def members (j : Json) (name : String) : Dict Json := ((j.get? name).bind Json.members?).getD []

/-- A number that may be missing. -/
def count (j : Json) (name : String) : Int := ((j.get? name).bind count?).getD 0

/-- The elements of all arrays of an object that may be missing. -/
def gathered (j : Json) (name : String) : List Json :=
  (members j name).flatMap fun m => (m.2.elements?).getD []

/-- An item that may be missing. -/
def itemMember? (j : Json) (name : String) : Option (Option Item) := (j.get? name).mapM item?

/-- The tables that were charged. -/
def charged (j : Json) : List String :=
  (elements j "ConsumedCapacity").map fun c => (textOf? c "TableName").getD ""

/-! ### Results -/

/-- **The page of a reply.**  An empty key for the next page counts as none. -/
def page? (j : Json) : Option Page := do
  let items ← (elements j "Items").mapM item?
  let last ← itemMember? j "LastEvaluatedKey"
  some
    { items, count := count j "Count", scanned := count j "ScannedCount"
      last := last.filter fun key => !key.isEmpty }

/-- The items of a batch. -/
def batchGet? (j : Json) : Option BatchGetReply := do
  let items ← (gathered j "Responses").mapM item?
  let unprocessed ←
    ((members j "UnprocessedKeys").flatMap fun t => elements t.2 "Keys").mapM item?
  some { items, unprocessed, charged := charged j }

/-- The writes that an element of a reply names: one that stores an item, one that removes one, or
both.  A missing item counts as empty. -/
def writes? (j : Json) : Option (List Write) := do
  let put ← (j.get? "PutRequest").mapM fun p => itemMember? p "Item"
  let delete ← (j.get? "DeleteRequest").mapM fun d => itemMember? d "Key"
  some
    ((put.map fun item => Write.put (item.getD [])).toList ++
      (delete.map fun key => Write.delete (key.getD [])).toList)

/-- The writes that a batch left out. -/
def batchWrite? (j : Json) : Option BatchWriteReply := do
  let writes ← (gathered j "UnprocessedItems").mapM writes?
  some { unprocessed := writes.flatten, charged := charged j }

/-- The result of a call of any kind. -/
inductive Response where
  | page (page : Page)
  | item (item : Option Item)
  | batchGet (reply : BatchGetReply)
  | batchWrite (reply : BatchWriteReply)
  deriving Repr

/-- **The result of a reply** that has the form of its call. -/
def response? (o : Operation) (reply : Json) : Option Response :=
  if (resultForm o).fits reply then
    match o with
    | .query | .scan => (page? reply).map .page
    | .getItem => (itemMember? reply "Item").map .item
    | .updateItem => (itemMember? reply "Attributes").map .item
    | .batchGetItem => (batchGet? reply).map .batchGet
    | .batchWriteItem => (batchWrite? reply).map .batchWrite
  else none

/-! ### Replies -/

/-- Whether a status tells of success. -/
def isSuccess (status : Nat) : Bool := 200 ≤ status && status < 300

/-- **The reply to a call**: its result, or the fault it tells of. -/
def read (o : Operation) (status : Nat) (reply : Json) : Except StoreFault Response :=
  if isSuccess status then
    match response? o reply with
    | some r => .ok r
    | none => .error ⟨o, unknownFault⟩
  else .error ⟨o, faultText o reply⟩

/-- **The reply to a request**, or the fault of a request that cannot be sent. -/
def answer (r : Request) (status : Nat) (reply : Json) : Except StoreFault Response :=
  match r.message? with
  | some _ => read r.operation status reply
  | none => .error ⟨r.operation, unknownFault⟩

end Keyspace.Wire
