import Keyspace.Attribute.Tagged
import Keyspace.Request
/-!
# Requests as JSON

A request is sent as a JSON object under a target that names the call.  Two hands are at work there.
The members are set from the request: a part that it does not have is left out, and so is an empty
dictionary of placeholders, which the store refuses.  What comes of a message is up to the client of
the store below: its encoder writes the members as JSON, and refuses to send a request that holds an
unknown value, or one for one table, whose name leads to the store, if the name is blank; the tables
of a batch are named by its body only.

Main definitions:

* `Keyspace.Operation.target` — the target of a call;
* `Keyspace.Write.body` — a write among several;
* `Keyspace.Request.body` — the body of a request: which members it has, and what they show;
* `Keyspace.Request.isSendable` — the requests that the client of the store does not refuse;
* `Keyspace.Request.message?` — what is sent for a request.
-/

set_option autoImplicit false

namespace Keyspace

/-- The target under which a call is sent. -/
def Operation.target (o : Operation) : String := "DynamoDB_20120810." ++ o.name

/-! ### Parts of a body -/

namespace Wire

/-- A member of a body, or nothing. -/
abbrev Part := Option (String × Json)

/-- A part that is always there. -/
def always (name : String) (value : Json) : Part := some (name, value)

/-- A part that may be missing. -/
def optional {α : Type} (name : String) (f : α → Json) (x : Option α) : Part :=
  x.map fun a => (name, f a)

/-- A dictionary that is left out when it is empty. -/
def nonEmpty {α : Type} (name : String) (f : α → Json) (d : Dict α) : Part :=
  if d.isEmpty then none else some (name, .object (d.mapValues f))

/-- The names of a request. -/
def nameMap (d : Dict String) : Part := nonEmpty "ExpressionAttributeNames" .string d

/-- The values of a request. -/
def valueMap (d : Dict Value) : Part := nonEmpty "ExpressionAttributeValues" Value.toJson d

/-- The object of some parts. -/
def object (parts : List Part) : Json := Json.ofMembers (parts.filterMap id)

/-- What is asked of every batch: how much each table was charged. -/
def charges : Part := always "ReturnConsumedCapacity" (.string "TOTAL")

end Wire

open Wire

/-! ### Bodies -/

/-- The body of a query. -/
def QueryRequest.body (r : QueryRequest) : Json :=
  object
    [always "TableName" (.string r.table), optional "IndexName" .string r.index,
      always "KeyConditionExpression" (.string r.key),
      optional "FilterExpression" .string r.filter,
      optional "ProjectionExpression" .string r.projection, nameMap r.names, valueMap r.values,
      always "ScanIndexForward" (.bool r.forward), optional "Limit" .int r.limit,
      optional "ExclusiveStartKey" Item.toJson r.start,
      always "ConsistentRead" (.bool r.consistent),
      optional "Select" (fun s => .string s.name) r.select]

/-- The body of a scan. -/
def ScanRequest.body (r : ScanRequest) : Json :=
  object
    [always "TableName" (.string r.table), optional "IndexName" .string r.index,
      optional "FilterExpression" .string r.filter,
      optional "ProjectionExpression" .string r.projection, nameMap r.names, valueMap r.values,
      optional "Limit" .int r.limit, optional "ExclusiveStartKey" Item.toJson r.start,
      always "ConsistentRead" (.bool r.consistent),
      optional "Select" (fun s => .string s.name) r.select, optional "Segment" .int r.segment,
      optional "TotalSegments" .int r.segments]

/-- The body of a request for one item. -/
def GetRequest.body (r : GetRequest) : Json :=
  object
    [always "TableName" (.string r.table), always "Key" r.key.toJson,
      optional "ProjectionExpression" .string r.projection, nameMap r.names,
      always "ConsistentRead" (.bool r.consistent)]

/-- The body of a request for the items of several keys. -/
def BatchGetRequest.body (r : BatchGetRequest) : Json :=
  let keys :=
    object
      [always "Keys" (.array (r.keys.map Item.toJson)),
        optional "ProjectionExpression" .string r.projection, nameMap r.names,
        always "ConsistentRead" (.bool r.consistent)]
  object [always "RequestItems" (.object [(r.table, keys)]), charges]

/-- A write among several. -/
def Write.body : Write → Json
  | .put item => .object [("PutRequest", .object [("Item", item.toJson)])]
  | .delete key => .object [("DeleteRequest", .object [("Key", key.toJson)])]

/-- The body of several writes. -/
def BatchWriteRequest.body (r : BatchWriteRequest) : Json :=
  object
    [always "RequestItems" (.object [(r.table, .array (r.writes.map Write.body))]), charges]

/-- The body of an update. -/
def UpdateRequest.body (r : UpdateRequest) : Json :=
  object
    [always "TableName" (.string r.table), always "Key" r.key.toJson,
      always "UpdateExpression" (.string r.update),
      optional "ConditionExpression" .string r.condition, nameMap r.names, valueMap r.values,
      always "ReturnValues" (.string (if r.returnsItem then "ALL_NEW" else "NONE"))]

/-- **The body of a request.** -/
def Request.body : Request → Json
  | .query r => r.body
  | .scan r => r.body
  | .getItem r => r.body
  | .batchGet r => r.body
  | .batchWrite r => r.body
  | .update r => r.body

/-! ### Messages

What the client of the store refuses, whoever uses it. -/

namespace Request

/-- The table whose name the client needs to find the store; it looks for none in a batch. -/
def table? : Request → Option String
  | .query r => some r.table
  | .scan r => some r.table
  | .getItem r => some r.table
  | .update r => some r.table
  | .batchGet _ | .batchWrite _ => none

/-- All values of a request, as the items and dictionaries they come in. -/
def items : Request → List Item
  | .query r => r.values :: r.start.toList
  | .scan r => r.values :: r.start.toList
  | .getItem r => [r.key]
  | .batchGet r => r.keys
  | .batchWrite r => r.writes.map Write.item
  | .update r => [r.key, r.values]

/-- **Whether the client sends a request.**  It refuses a blank name of the table, and a value of a
kind that it does not know; nothing of this is checked before. -/
def isSendable (r : Request) : Bool :=
  (r.table?.all fun name => !Text.isBlankText name) && r.items.all Item.isKnown

end Request

/-- What is sent to the store. -/
structure Message where
  target : String
  body : Json
  deriving Repr

/-- **What is sent for a request**, if it can be sent. -/
def Request.message? (r : Request) : Option Message :=
  if r.isSendable then some ⟨r.operation.target, r.body⟩ else none

end Keyspace
