import Keyspace.Error
/-!
# Tables and their indexes

A table finds its items by a partition key, and within a partition by a sort key if it has one.
Its secondary indexes find the same items by other attributes: a local index keeps the partition
key and sorts differently, a global index has keys of its own and holds a part of each item.

Main definitions:

* `Keyspace.Index` — the keys and the projection of the table itself or of an index;
* `Keyspace.Index.projects` — whether an attribute can be read from an index;
* `Keyspace.TableSchema` — a table with its indexes;
* `Keyspace.TableSchema.validate` — no key is empty or ambiguous;
* `Keyspace.TableSchema.hasAttribute` — whether a document path starts at a known attribute;
* `Keyspace.Key` — the values that address one item.
-/

set_option autoImplicit false

namespace Keyspace

/-! ### Indexes -/

/-- What an index is an index of. -/
inductive IndexKind where
  /-- The table itself. -/
  | table
  /-- Keys of its own. -/
  | globalIndex
  /-- The partition key of the table and a sort key of its own. -/
  | localIndex
  deriving DecidableEq, Repr

/-- The attributes that an index holds besides the keys. -/
inductive Projection where
  | all
  | keysOnly
  | including (attributes : List String)
  deriving DecidableEq, Repr

/-- The table itself, whose name is empty, or one of its indexes. -/
structure Index where
  name : String
  kind : IndexKind
  partitionKey : String
  sortKey : Option String
  projection : Projection
  deriving DecidableEq, Repr

namespace Index

/-- Whether an index is the table itself. -/
def isBase (i : Index) : Bool := i.name.isEmpty

/-- The name under which requests ask for an index; the table itself is not named. -/
def requestName (i : Index) : Option String := if i.isBase then none else some i.name

/-- **Whether a top-level attribute can be read from an index** of a table with the given keys. -/
def projects (i : Index) (tableKeys : List String) (name : String) : Bool :=
  tableKeys.contains name || i.partitionKey == name || i.sortKey == some name ||
    match i.projection with
    | .all => true
    | .keysOnly => false
    | .including attributes => attributes.contains name

end Index

/-! ### Tables -/

/-- A table: its keys, the attributes its items may have and its secondary indexes.  If no
attributes are given, items may have any. -/
structure TableSchema where
  table : String
  partitionKey : String
  sortKey : Option String := none
  attributes : List String := []
  indexes : List Index := []
  deriving DecidableEq, Repr

/-- The attribute at which a document path starts: what stands before its first `.` or `[`. -/
def rootAttribute (path : String) : String :=
  String.ofList (path.toList.takeWhile fun c => !(c == '.' || c == '['))

/-- What is wrong with the keys of a table or an index. -/
def invalidKeys? (owner partitionKey : String) (sortKey : Option String) : Option Invalid :=
  if partitionKey.isEmpty then some (.emptyPartitionKey owner)
  else
    match sortKey with
    | none => none
    | some key =>
      if key.isEmpty then some (.emptySortKey owner)
      else if key = partitionKey then some (.sameKeys owner key)
      else none

namespace TableSchema

/-- The table itself as an index. -/
def baseIndex (s : TableSchema) : Index :=
  { name := "", kind := .table, partitionKey := s.partitionKey, sortKey := s.sortKey
    projection := .all }

/-- The secondary index of a name. -/
def index? (s : TableSchema) (name : String) : Option Index :=
  s.indexes.find? fun i => i.name == name

/-- The key attributes of the table. -/
def keyAttributes (s : TableSchema) : List String := s.partitionKey :: s.sortKey.toList

/-- **Whether a document path starts at a known attribute.**  A path that starts with a separator
starts at none. -/
def hasAttribute (s : TableSchema) (path : String) : Bool :=
  let root := rootAttribute path
  !root.isEmpty &&
    (s.attributes.isEmpty || s.attributes.contains root || s.keyAttributes.contains root ||
      s.indexes.any fun i => i.partitionKey == root || i.sortKey == some root)

/-! ### Validity -/

/-- What is wrong with one index, where `earlier` are the names of the indexes before it. -/
def invalidIndex? (s : TableSchema) (earlier : List String) (i : Index) : Option Invalid :=
  if i.name.isEmpty then some (.unnamedIndex s.table)
  else if earlier.contains i.name then some (.repeatedIndex s.table i.name)
  else
    match invalidKeys? i.name i.partitionKey i.sortKey with
    | some cause => some cause
    | none =>
      if i.kind = .localIndex ∧ i.partitionKey ≠ s.partitionKey then
        some (.foreignLocalIndex i.name s.partitionKey)
      else none

/-- What is wrong with the first wrong index of some. -/
def invalidIndexes? (s : TableSchema) (earlier : List String) : List Index → Option Invalid
  | [] => none
  | i :: rest =>
    match s.invalidIndex? earlier i with
    | some cause => some cause
    | none => s.invalidIndexes? (i.name :: earlier) rest

/-- What is wrong with a table. -/
def invalid? (s : TableSchema) : Option Invalid :=
  if s.table.isEmpty then some .emptyTable
  else
    match invalidKeys? s.table s.partitionKey s.sortKey with
    | some cause => some cause
    | none => s.invalidIndexes? [] s.indexes

/-- **A table with a name, whose indexes have different names, and whose keys are not empty and
differ.** -/
def validate (s : TableSchema) : Except Error Unit :=
  match s.invalid? with
  | some cause => .error (.invalid cause)
  | none => .ok ()

/-- A field that starts at a known attribute. -/
def checkAttribute (s : TableSchema) (field : String) : Except Error Unit :=
  if s.hasAttribute field then .ok () else .error (.invalid (.unknownAttribute field s.table))

end TableSchema

/-! ### Keys of items -/

/-- The values that address one item. -/
structure Key where
  partition : Value
  sort : Option Value := none
  deriving Repr, BEq

/-- **The key attributes of a table with the values of a key**, which has a sort value exactly if
the table has a sort key. -/
def Key.toItem (k : Key) (s : TableSchema) : Except Error Item :=
  match s.sortKey, k.sort with
  | some name, some value => .ok (Dict.ofList [(s.partitionKey, k.partition), (name, value)])
  | some name, none => .error (.invalid (.missingSortKey s.table name))
  | none, some _ => .error (.invalid (.surplusSortKey s.table))
  | none, none => .ok [(s.partitionKey, k.partition)]

end Keyspace
