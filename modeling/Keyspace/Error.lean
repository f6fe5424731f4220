import Keyspace.Attribute.Tagged
import Keyspace.Condition.Operator
/-!
# Errors

Everything that can go wrong has a cause of its own; the wording of all causes stands here.

A request that is wrong in itself is `Error.invalid` with an `Invalid` cause, and never reaches the
store.  A placeholder that is given two meanings and a cursor that cannot be used are local errors
too.  The store's own faults, elapsed deadlines and the remainders of batches come from running a
request.

Main definitions:

* `Keyspace.Invalid`, `Keyspace.CursorFault` — causes of local errors;
* `Keyspace.Operation`, `Keyspace.StoreFault` — what was sent, and what the store reported;
* `Keyspace.Remainder` — what a batch left undone;
* `Keyspace.Error`, `Keyspace.Error.message` — all errors and their wording.
-/

set_option autoImplicit false

namespace Keyspace

/-! ### Requests that are wrong in themselves -/

/-- Why a request is wrong in itself. -/
inductive Invalid where
  | emptyOperator
  | unsupportedOperator (text : String)
  | emptyField
  | operandCount (op : Operator) (field : String) (count : Nat)
  | emptyFragment
  | undeclaredPlaceholder (placeholder : String)
  | nameWithoutSign (placeholder : String)
  | valueWithoutSign (placeholder : String)
  | unusedPlaceholder (placeholder : String)
  | emptyTable
  | emptyPartitionKey (owner : String)
  | emptySortKey (owner : String)
  | sameKeys (owner key : String)
  | unnamedIndex (table : String)
  | repeatedIndex (table index : String)
  | foreignLocalIndex (index partitionKey : String)
  | missingSortKey (table key : String)
  | surplusSortKey (table : String)
  | unknownIndex (table index : String)
  | unknownAttribute (field table : String)
  | limitNotPositive (limit : Int)
  | segmentsNotPositive (segments : Int)
  | consistentGlobalIndex (index : String)
  | cursorForSegments
  | pageOfSegments
  | segmentsOfLookup
  | noActions
  | missingPartitionKey (table key : String)
  | keyUpdated (path : String)
  | repeatedPath (path : String)
  | emptySet
  | mixedSet
  | reported (text : String)
  deriving DecidableEq, Repr

/-- The wording of a cause. -/
def Invalid.message : Invalid → String
  | .emptyOperator => "operator cannot be empty"
  | .unsupportedOperator text => s!"unsupported operator '{text}'"
  | .emptyField => "condition field cannot be empty"
  | .operandCount op field count =>
    op.text ++ " on '" ++ field ++ "' takes " ++ op.operandsText ++ ", got " ++ toString count
  | .emptyFragment => "raw expression cannot be empty"
  | .undeclaredPlaceholder p => s!"raw expression uses undeclared placeholder '{p}'"
  | .nameWithoutSign p => s!"name placeholder '{p}' must start with '#'"
  | .valueWithoutSign p => s!"value placeholder '{p}' must start with ':'"
  | .unusedPlaceholder p => s!"raw expression declares unused placeholder '{p}'"
  | .emptyTable => "table name cannot be empty"
  | .emptyPartitionKey owner => s!"'{owner}' has an empty partition key"
  | .emptySortKey owner => s!"'{owner}' has an empty sort key"
  | .sameKeys owner key => s!"'{owner}' uses '{key}' as both partition and sort key"
  | .unnamedIndex table => s!"table '{table}' has a secondary index without a name"
  | .repeatedIndex table index => s!"table '{table}' registers index '{index}' more than once"
  | .foreignLocalIndex index key =>
    s!"local index '{index}' must share the table partition key '{key}'"
  | .missingSortKey table key => s!"table '{table}' requires sort key '{key}'"
  | .surplusSortKey table => s!"table '{table}' has no sort key"
  | .unknownIndex table index => s!"table '{table}' has no index named '{index}'"
  | .unknownAttribute field table => s!"unknown attribute '{field}' on table '{table}'"
  | .limitNotPositive limit => s!"limit must be positive, got {limit}"
  | .segmentsNotPositive segments => s!"segment count must be at least 1, got {segments}"
  | .consistentGlobalIndex index =>
    s!"consistent reads are not supported on global index '{index}'"
  | .cursorForSegments => "a cursor cannot resume a parallel scan"
  | .pageOfSegments => "a parallel scan cannot be paginated; use scan_all_segments"
  | .segmentsOfLookup => "parallel scan requested for a key lookup"
  | .noActions => "update has no actions"
  | .missingPartitionKey table key => s!"update on '{table}' requires partition key '{key}'"
  | .keyUpdated path => s!"key attribute '{path}' cannot be updated"
  | .repeatedPath path => s!"attribute '{path}' is updated more than once"
  | .emptySet => "set operand cannot be empty"
  | .mixedSet => "set operand must hold only strings, only numbers or only binaries"
  | .reported text => text

/-! ### Cursors that cannot be used -/

/-- Why a cursor cannot be used, or why a key has none. -/
inductive CursorFault where
  | notBase64
  | malformed
  | version (found expected : Nat)
  | otherShape
  | emptyKey
  | unknownValue
  | attribute (name : String) (fault : Value.Fault)
  deriving DecidableEq, Repr

/-- The wording of a cursor's fault. -/
def CursorFault.message : CursorFault → String
  | .notBase64 => "not valid base64"
  | .malformed => "malformed cursor"
  | .version found expected => s!"unsupported cursor version {found} (expected {expected})"
  | .otherShape => "cursor was produced by a different query shape"
  | .emptyKey => "cursor carries an empty key"
  | .unknownValue => "unsupported attribute value type in key"
  | .attribute name fault => "attribute '" ++ name ++ "': " ++ fault.message

/-! ### The store -/

/-- The calls that a store answers. -/
inductive Operation where
  | query
  | scan
  | getItem
  | batchGetItem
  | batchWriteItem
  | updateItem
  deriving DecidableEq, Repr

/-- The store's name of a call. -/
def Operation.name : Operation → String
  | .query => "Query"
  | .scan => "Scan"
  | .getItem => "GetItem"
  | .batchGetItem => "BatchGetItem"
  | .batchWriteItem => "BatchWriteItem"
  | .updateItem => "UpdateItem"

/-- A fault that the store or the way to it reported, in its own words. -/
structure StoreFault where
  operation : Operation
  text : String
  deriving DecidableEq, Repr

/-- The wording of a store's fault. -/
def StoreFault.message (f : StoreFault) : String :=
  "DynamoDB " ++ f.operation.name ++ " error: " ++ f.text

/-! ### Batches -/

/-- What a batch left undone when its retries were spent or its deadline had passed: writes and
keys that the store did not process, and the items that a batch of reads did bring. -/
structure Remainder where
  puts : List Item := []
  deletes : List Item := []
  keys : List Item := []
  retrieved : List Item := []
  /-- The number of rounds in which calls were sent. -/
  attempts : Nat
  /-- The last fault that a call of the batch met. -/
  lastFault : Option StoreFault
  /-- Whether the deadline stopped a further round. -/
  deadlineElapsed : Bool
  deriving Repr

/-- The number of writes and keys left undone. -/
def Remainder.size (r : Remainder) : Nat := r.puts.length + r.deletes.length + r.keys.length

/-! ### All errors -/

/-- Everything that can go wrong. -/
inductive Error where
  | invalid (cause : Invalid)
  | placeholderCollision (placeholder : String)
  | cursor (fault : CursorFault)
  | partialBatch (remainder : Remainder)
  | timeout (operation : Operation) (attempts : Nat)
  | store (fault : StoreFault)
  | segment (index : Nat) (source : Error)
  | segmentPanic (index : Nat) (text : String)
  | marshal
  deriving Repr

namespace Error

/-- **The wording of an error.** -/
def message : Error → String
  | .invalid cause => "invalid query: " ++ cause.message
  | .placeholderCollision p =>
    s!"duplicate expression placeholder '{p}': raw fragment reuses a placeholder already in the request"
  | .cursor fault => "invalid pagination cursor: " ++ fault.message
  | .partialBatch r =>
    "batch operation left " ++ toString r.size ++ " item(s) unprocessed after " ++
      toString r.attempts ++ " attempt(s)"
  | .timeout operation attempts =>
    "deadline elapsed before " ++ operation.name ++ " could be sent (after " ++ toString attempts ++
      " attempt(s))"
  | .store fault => fault.message
  | .segment index source => "scan segment " ++ toString index ++ " failed: " ++ source.message
  | .segmentPanic index text => s!"scan segment {index} worker panicked: {text}"
  | .marshal => "DynamoDB serialization error"

/-! ### Kinds of errors -/

/-- The request was wrong in itself. -/
def isValidation : Error → Bool
  | .invalid _ | .placeholderCollision _ => true
  | _ => false

/-- The deadline had passed. -/
def isTimeout : Error → Bool
  | .timeout _ _ => true
  | _ => false

/-- The store reported a fault. -/
def isStore : Error → Bool
  | .store _ => true
  | _ => false

/-- A batch was left incomplete. -/
def isPartialBatch : Error → Bool
  | .partialBatch _ => true
  | _ => false

/-- A cursor could not be used. -/
def isCursor : Error → Bool
  | .cursor _ => true
  | _ => false

/-- A segment of a scan failed. -/
def isSegment : Error → Bool
  | .segment _ _ | .segmentPanic _ _ => true
  | _ => false

/-- A value could not be turned into attribute values or back. -/
def isMarshal : Error → Bool
  | .marshal => true
  | _ => false

/-- Whether an error passes on another one. -/
def hasSource : Error → Bool
  | .store _ | .segment _ _ | .marshal => true
  | _ => false

end Error

/-! ### Errors that become others -/

section

variable {ε ε' α : Type}

@[simp]
theorem mapError_ok (f : ε → ε') (a : α) : (Except.ok a).mapError f = .ok a := rfl

@[simp]
theorem mapError_error (f : ε → ε') (e : ε) :
    (Except.error e : Except ε α).mapError f = .error (f e) := rfl

end

end Keyspace
