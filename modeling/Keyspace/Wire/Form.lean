import Keyspace.Request
import Keyspace.Wire.Value
/-!
# Forms of replies

A reply is read as a whole: a part that nobody looks at has to have its form too.  In a record
every member may be missing or `null`, and members that the form does not name do not matter.  The
elements of a list and the values of a map have to be there.

Main definitions:

* `Keyspace.Wire.Form` — the forms;
* `Keyspace.Wire.Form.fits` — whether a JSON value has a form;
* `Keyspace.Wire.resultForm` — the form of the result of a call.
-/

set_option autoImplicit false

namespace Keyspace.Wire

/-- What a part of a reply has to look like. -/
inductive Form where
  | text
  | flag
  /-- A number, or the text of one that is not finite. -/
  | number
  /-- A whole number of 32 bits. -/
  | count
  /-- An attribute value. -/
  | value
  | list (element : Form)
  | map (value : Form)
  | record (members : List (String × Form))
  deriving Repr, Inhabited

/-! ### Numbers -/

/-- Whether a text denotes a number that is not finite. -/
def isUnbounded (s : String) : Bool :=
  match Number.Literal.read s with
  | some x => !(Number.Binary64.ofLiteral x).isFinite
  | none => false

/-- Whether a JSON value is a number, or the text of one that is not finite. -/
def isNumber : Json → Bool
  | .int _ | .real _ => true
  | .string s => isUnbounded s
  | _ => false

/-- A whole number of 32 bits. -/
def count? (j : Json) : Option Int := j.whole? Number.minInt32 Number.maxInt32

/-! ### Having a form -/

namespace Form

mutual

/-- **Whether a JSON value has a form.** -/
def fits : Form → Json → Bool
  | .text, j => j.text?.isSome
  | .flag, j => j.bool?.isSome
  | .number, j => isNumber j
  | .count, j => (count? j).isSome
  | .value, j => (value? j).isSome
  | .list f, .array xs => xs.all fun x => fits f x
  | .map f, .object ms => ms.all fun m => fits f m.2
  | .record fs, .object ms => fitsMembers fs ms
  | _, _ => false

/-- Whether the members of an object have the forms of their names. -/
def fitsMembers : List (String × Form) → Dict Json → Bool
  | [], _ => true
  | (name, f) :: fs, ms =>
    (match (Json.object ms).get? name with
      | some j => fits f j
      | none => true) && fitsMembers fs ms

end

/-! ### Parts of replies -/

/-- An item or a key. -/
def item : Form := .map .value

/-- How much of something was charged. -/
def capacity : Form :=
  .record
    [("ReadCapacityUnits", .number), ("WriteCapacityUnits", .number), ("CapacityUnits", .number)]

/-- How many bytes of a vector index were searched and written. -/
def vectorBytes : Form :=
  .record [("VectorSearchRequestBytes", .number), ("VectorWriteRequestBytes", .number)]

/-- How much a table and its indexes were charged. -/
def charge : Form :=
  .record
    [("TableName", .text), ("CapacityUnits", .number), ("ReadCapacityUnits", .number),
      ("WriteCapacityUnits", .number), ("Table", capacity),
      ("LocalSecondaryIndexes", .map capacity), ("GlobalSecondaryIndexes", .map capacity),
      ("VectorIndexes", .map vectorBytes)]

/-- How large the items of one partition key are. -/
def collection : Form :=
  .record [("ItemCollectionKey", item), ("SizeEstimateRangeGB", .list .number)]

/-- The keys of a table that were left out. -/
def keys : Form :=
  .record
    [("Keys", .list item), ("AttributesToGet", .list .text), ("ConsistentRead", .flag),
      ("ProjectionExpression", .text), ("ExpressionAttributeNames", .map .text)]

/-- A write that was left out. -/
def write : Form :=
  .record
    [("PutRequest", .record [("Item", item)]), ("DeleteRequest", .record [("Key", item)])]

end Form

/-! ### Results -/

/-- **The form of the result of a call.** -/
def resultForm : Operation → Form
  | .query | .scan =>
    .record
      [("Items", .list .item), ("Count", .count), ("ScannedCount", .count),
        ("LastEvaluatedKey", .item), ("ConsumedCapacity", .charge)]
  | .getItem => .record [("Item", .item), ("ConsumedCapacity", .charge)]
  | .updateItem =>
    .record
      [("Attributes", .item), ("ConsumedCapacity", .charge), ("ItemCollectionMetrics", .collection)]
  | .batchGetItem =>
    .record
      [("Responses", .map (.list .item)), ("UnprocessedKeys", .map .keys),
        ("ConsumedCapacity", .list .charge)]
  | .batchWriteItem =>
    .record
      [("UnprocessedItems", .map (.list .write)),
        ("ItemCollectionMetrics", .map (.list .collection)), ("ConsumedCapacity", .list .charge)]

end Keyspace.Wire
