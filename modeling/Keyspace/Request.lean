import Keyspace.Error
/-!
# Requests

The store answers six calls.  Two of them, `Query` and `Scan`, answer page by page: a page ends
with the key of the last item looked at, and the next call starts behind it.

Main definitions:

* `Keyspace.Selection` — what a call returns of each item;
* `Keyspace.QueryRequest`, `Keyspace.ScanRequest`, `Keyspace.GetRequest`,
  `Keyspace.BatchGetRequest`, `Keyspace.BatchWriteRequest`, `Keyspace.UpdateRequest`;
* `Keyspace.Request` — a request of any kind;
* `Keyspace.Page`, `Keyspace.BatchGetReply`, `Keyspace.BatchWriteReply` — what the store returns.
-/

set_option autoImplicit false

namespace Keyspace

/-- What a call returns of each item, by the store's name for it. -/
structure Selection where
  name : String
  deriving DecidableEq, Repr

namespace Selection

/-- Everything the table holds of an item. -/
def allAttributes : Selection := ⟨"ALL_ATTRIBUTES"⟩

/-- Everything the index holds of an item. -/
def allProjectedAttributes : Selection := ⟨"ALL_PROJECTED_ATTRIBUTES"⟩

/-- What a projection names. -/
def specificAttributes : Selection := ⟨"SPECIFIC_ATTRIBUTES"⟩

/-- Nothing but the number of items. -/
def count : Selection := ⟨"COUNT"⟩

end Selection

/-! ### Reads -/

/-- Read one page of the items that a key condition picks. -/
structure QueryRequest where
  table : String
  index : Option String := none
  key : String
  filter : Option String := none
  projection : Option String := none
  names : Dict String := []
  values : Dict Value := []
  /-- In increasing order of the sort key. -/
  forward : Bool
  /-- The most items to look at. -/
  limit : Option Int := none
  /-- The key behind which to start. -/
  start : Option Item := none
  consistent : Bool := false
  select : Option Selection := none
  deriving Repr, BEq

/-- Read one page of all items, or of those of one segment. -/
structure ScanRequest where
  table : String
  index : Option String := none
  filter : Option String := none
  projection : Option String := none
  names : Dict String := []
  values : Dict Value := []
  /-- The most items to look at. -/
  limit : Option Int := none
  /-- The key behind which to start. -/
  start : Option Item := none
  consistent : Bool := false
  select : Option Selection := none
  /-- The number of the segment, from zero on. -/
  segment : Option Int := none
  /-- The number of segments. -/
  segments : Option Int := none
  deriving Repr, BEq

/-- Read the item of a key. -/
structure GetRequest where
  table : String
  key : Item
  projection : Option String := none
  names : Dict String := []
  consistent : Bool := false
  deriving Repr, BEq

/-- Read the items of several keys. -/
structure BatchGetRequest where
  table : String
  keys : List Item
  projection : Option String := none
  names : Dict String := []
  consistent : Bool := false
  deriving Repr, BEq

/-! ### Writes -/

/-- One of several writes: an item to store, or the key of an item to remove. -/
inductive Write where
  | put (item : Item)
  | delete (key : Item)
  deriving Repr, BEq

/-- The item or the key of a write. -/
def Write.item : Write → Item
  | .put item => item
  | .delete key => key

/-- Several writes. -/
structure BatchWriteRequest where
  table : String
  writes : List Write
  deriving Repr, BEq

/-- A change to the item of a key, if a condition holds. -/
structure UpdateRequest where
  table : String
  key : Item
  update : String
  condition : Option String := none
  names : Dict String := []
  values : Dict Value := []
  /-- Whether the changed item is returned. -/
  returnsItem : Bool
  deriving Repr, BEq

/-! ### All requests -/

/-- A request of any kind. -/
inductive Request where
  | query (request : QueryRequest)
  | scan (request : ScanRequest)
  | getItem (request : GetRequest)
  | batchGet (request : BatchGetRequest)
  | batchWrite (request : BatchWriteRequest)
  | update (request : UpdateRequest)
  deriving Repr, BEq

namespace Request

/-- The call that a request is for. -/
def operation : Request → Operation
  | .query _ => .query
  | .scan _ => .scan
  | .getItem _ => .getItem
  | .batchGet _ => .batchGetItem
  | .batchWrite _ => .batchWriteItem
  | .update _ => .updateItem

end Request

/-! ### Replies -/

/-- A page of items. -/
structure Page where
  items : List Item
  /-- The number of items that passed the filter. -/
  count : Int
  /-- The number of items that were looked at. -/
  scanned : Int
  /-- The key of the last item looked at, if there may be more. -/
  last : Option Item
  deriving Repr, BEq

/-- **Where the next page starts**; an empty key marks the end like a missing one. -/
def Page.next? (p : Page) : Option Item := p.last.filter fun key => !key.isEmpty

/-- The items of some keys, the keys that were left out, and the tables that were charged. -/
structure BatchGetReply where
  items : List Item
  unprocessed : List Item
  charged : List String
  deriving Repr, BEq

/-- The writes that were left out, and the tables that were charged. -/
structure BatchWriteReply where
  unprocessed : List Write
  charged : List String
  deriving Repr, BEq

end Keyspace
