import Keyspace.Wire.Form
/-!
# Faults in replies

A reply that tells of a fault names its kind and may say more in a message.  Each call has some
kinds of faults that belong to it; only of these the message is passed on, and only if the whole
reply has the form of its kind.  Of any other kind the name alone is passed on.

Main definitions:

* `Keyspace.Wire.FaultKind` — the kinds that have a form here;
* `Keyspace.Wire.faultKinds` — the kinds that belong to a call;
* `Keyspace.Wire.code?` — the name of the kind that a reply tells of;
* `Keyspace.Wire.faultText` — the fault of a reply, in words.
-/

set_option autoImplicit false

namespace Keyspace.Wire

/-! ### Kinds of faults -/

/-- The kinds of faults that belong to some call. -/
inductive FaultKind where
  | conditionalCheckFailed
  | internalServerError
  | invalidEndpoint
  | itemCollectionSizeLimitExceeded
  | provisionedThroughputExceeded
  | replicatedWriteConflict
  | requestLimitExceeded
  | resourceNotFound
  | throttling
  | transactionConflict
  deriving DecidableEq, Repr

namespace FaultKind

/-- The store's name of a kind. -/
def name : FaultKind → String
  | .conditionalCheckFailed => "ConditionalCheckFailedException"
  | .internalServerError => "InternalServerError"
  | .invalidEndpoint => "InvalidEndpointException"
  | .itemCollectionSizeLimitExceeded => "ItemCollectionSizeLimitExceededException"
  | .provisionedThroughputExceeded => "ProvisionedThroughputExceededException"
  | .replicatedWriteConflict => "ReplicatedWriteConflictException"
  | .requestLimitExceeded => "RequestLimitExceeded"
  | .resourceNotFound => "ResourceNotFoundException"
  | .throttling => "ThrottlingException"
  | .transactionConflict => "TransactionConflictException"

/-- The member that holds the message of a kind. -/
def messageMember : FaultKind → String
  | .invalidEndpoint => "Message"
  | _ => "message"

/-- Why a call was held back. -/
def reasons : Form := .list (.record [("reason", .text), ("resource", .text)])

/-- What a kind says besides its message. -/
def details : FaultKind → List (String × Form)
  | .conditionalCheckFailed => [("Item", .item)]
  | .provisionedThroughputExceeded | .requestLimitExceeded => [("ThrottlingReasons", reasons)]
  | .throttling => [("throttlingReasons", reasons)]
  | _ => []

/-- The form of a reply that tells of a fault of a kind. -/
def form (k : FaultKind) : Form := .record ((k.messageMember, .text) :: k.details)

end FaultKind

/-- The kinds of faults that belong to every call. -/
def commonKinds : List FaultKind :=
  [.internalServerError, .invalidEndpoint, .provisionedThroughputExceeded, .requestLimitExceeded,
    .resourceNotFound, .throttling]

/-- **The kinds of faults that belong to a call.** -/
def faultKinds : Operation → List FaultKind
  | .query | .scan | .getItem | .batchGetItem => commonKinds
  | .batchWriteItem => .itemCollectionSizeLimitExceeded :: .replicatedWriteConflict :: commonKinds
  | .updateItem =>
    .conditionalCheckFailed :: .itemCollectionSizeLimitExceeded :: .replicatedWriteConflict ::
      .transactionConflict :: commonKinds

/-! ### Names and messages -/

/-- The name of a kind without what may stand around it: a name space before the first `#`, and
an address from the first `:` on. -/
def plainName (s : String) : String :=
  let cs := s.toList.takeWhile (· != ':')
  match cs.dropWhile (· != '#') with
  | _ :: rest => String.ofList rest
  | [] => String.ofList cs

/-- The text of a member. -/
def textOf? (reply : Json) (name : String) : Option String := (reply.get? name).bind Json.text?

/-- **The name of the kind of fault that a reply tells of.**  A member `code` goes before the type
of the reply. -/
def code? (reply : Json) : Option String :=
  ((textOf? reply "code").or (textOf? reply "__type")).map plainName

/-- The message of a reply, whatever its kind. -/
def message? (reply : Json) : Option String :=
  (textOf? reply "message").or ((textOf? reply "errorMessage").or (textOf? reply "Message"))

/-! ### Faults in words -/

/-- The fault of a reply that tells of none, or that cannot be read. -/
def unknownFault : String := "unhandled error"

/-- The fault of a kind that belongs to the call. -/
def knownFaultText (k : FaultKind) (reply : Json) : String :=
  if k.form.fits reply then
    match (textOf? reply k.messageMember).or (message? reply) with
    | some text => k.name ++ ": " ++ text
    | none => k.name
  else unknownFault

/-- **The fault of a reply to a call**, in words. -/
def faultText (o : Operation) (reply : Json) : String :=
  match code? reply with
  | none => unknownFault
  | some code =>
    match (faultKinds o).find? fun k => k.name == code with
    | some k => knownFaultText k reply
    | none => unknownFault ++ " (" ++ code ++ ")"

end Keyspace.Wire
