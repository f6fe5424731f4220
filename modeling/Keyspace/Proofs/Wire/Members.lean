import Keyspace.Proofs.Attribute.Distinct
import Keyspace.Proofs.Wire.Unprocessed
/-!
# The members of a body

A part of a request is a member of its body under a name of its own, and a part that the request
does not have is no member; nothing else is in the body.  So the body tells of every part whether
it is there and what it is, and two requests of one kind with one body are the same request.  The
keys of a batch, with what belongs to them, are told in the same way, one level below the table.

Main definitions:

* `Keyspace.Json.Shows` — which members an object has, wherever they stand in it;
* `Keyspace.Request.member?` — the part of a request that goes under a name;
* `Keyspace.Request.Tells` — a JSON value that tells a request and nothing else.

Main results:

* `Keyspace.Wire.shows_object` — the object of some parts shows each of them, and no more;
* `Keyspace.Request.tells_body` — **a body tells its request**;
* `Keyspace.Request.eq_of_tells` — what tells a request tells no other one of its kind;
* `Keyspace.Request.bodies_determine_requests` — **the request of a body**.
-/

set_option autoImplicit false

namespace Keyspace

attribute [ext] QueryRequest ScanRequest GetRequest BatchGetRequest BatchWriteRequest UpdateRequest

/-- A JSON value is an object with the members that `member?` tells of, and no others. -/
def Json.Shows (j : Json) (member? : String → Option Json) : Prop :=
  ∃ ms : Dict Json, j = .object ms ∧ ∀ name, ms.get? name = member? name

/-- An object shows one thing only. -/
theorem Json.Shows.unique {j : Json} {f g : String → Option Json} (hf : j.Shows f)
    (hg : j.Shows g) : f = g := by
  obtain ⟨ms, rfl, hms⟩ := hf
  obtain ⟨ns, hns, hshows⟩ := hg
  obtain rfl := Json.object.inj hns
  funext name
  rw [← hms, hshows]

/-! ### Parts and members -/

namespace Wire

variable {α : Type} {f : α → Json} {name n : String} {x : Json}

/-- The member that a dictionary makes: none, if the dictionary is empty. -/
def filled? (f : α → Json) (d : Dict α) : Option Json :=
  if d.isEmpty then none else some (.object (d.mapValues f))

theorem eq_always_iff {v : Json} : some (name, x) = always n v ↔ name = n ∧ some v = some x := by
  simp [always, eq_comm]

theorem eq_optional_iff {o : Option α} :
    some (name, x) = optional n f o ↔ name = n ∧ o.map f = some x := by
  cases o with
  | none => simp [optional]
  | some a => simp [optional, eq_comm]

theorem eq_nonEmpty_iff {d : Dict α} :
    some (name, x) = nonEmpty n f d ↔ name = n ∧ filled? f d = some x := by
  cases d with
  | nil => simp [nonEmpty, filled?]
  | cons e d => simp [nonEmpty, filled?, eq_comm]

/-- **The object of some parts** shows each part, and no more. -/
theorem shows_object {parts : List Part} {member? : String → Option Json}
    (h : ∀ name x, some (name, x) ∈ parts ↔ member? name = some x) :
    (object parts).Shows member? := by
  have hmem : ∀ name x, (name, x) ∈ parts.filterMap id ↔ member? name = some x := fun name x => by
    rw [← h]
    simp
  refine ⟨_, rfl, fun name => Option.ext fun x => ?_⟩
  rw [← hmem]
  refine ⟨Dict.mem_of_get?_ofList, Dict.get?_ofList_of_mem fun n v w hv hw => ?_⟩
  rw [hmem] at hv hw
  exact Option.some.inj (hv.symm.trans hw)

/-! ### Parts that are told apart -/

theorem always_inj (hf : ∀ {a b}, f a = f b → a = b) {a b : α} (h : some (f a) = some (f b)) :
    a = b := hf (Option.some.inj h)

theorem optional_inj (hf : ∀ {a b}, f a = f b → a = b) {o p : Option α}
    (h : o.map f = p.map f) : o = p := Option.map_injective (fun _ _ => hf) h

/-- An empty dictionary makes no member, and any other one is told by its member. -/
theorem filled?_inj (hf : ∀ {a b}, f a = f b → a = b) {d e : Dict α}
    (h : filled? f d = filled? f e) : d = e := by
  have hentry : Function.Injective fun e : String × α => (e.1, f e.2) := fun a b h =>
    Prod.ext (Prod.mk.inj h).1 (hf (Prod.mk.inj h).2)
  cases d with
  | nil =>
      cases e with
      | nil => rfl
      | cons y e => simp [filled?] at h
  | cons x d =>
      cases e with
      | nil => simp [filled?] at h
      | cons y e => exact List.map_injective_iff.2 hentry (Json.object.inj (Option.some.inj h))

theorem filled?_ne_empty (f : α → Json) (d : Dict α) : filled? f d ≠ some (.object []) := by
  cases d with
  | nil => simp [filled?]
  | cons e d => simp [filled?, Dict.mapValues]

theorem selection_inj {a b : Selection} (h : Json.string a.name = .string b.name) : a = b := by
  cases a
  cases b
  exact congrArg Selection.mk (Json.string.inj h)

end Wire

open Wire

/-! ### Queries -/

namespace QueryRequest

/-- The members of a query. -/
def member? (r : QueryRequest) : String → Option Json
  | "TableName" => some (.string r.table)
  | "IndexName" => r.index.map .string
  | "KeyConditionExpression" => some (.string r.key)
  | "FilterExpression" => r.filter.map .string
  | "ProjectionExpression" => r.projection.map .string
  | "ExpressionAttributeNames" => filled? .string r.names
  | "ExpressionAttributeValues" => filled? Value.toJson r.values
  | "ScanIndexForward" => some (.bool r.forward)
  | "Limit" => r.limit.map .int
  | "ExclusiveStartKey" => r.start.map Item.toJson
  | "ConsistentRead" => some (.bool r.consistent)
  | "Select" => r.select.map fun s => .string s.name
  | _ => none

theorem shows_body (r : QueryRequest) : r.body.Shows r.member? := by
  refine shows_object fun name x => ?_
  simp only [nameMap, valueMap, List.mem_cons, List.not_mem_nil, or_false, eq_always_iff,
    eq_optional_iff, eq_nonEmpty_iff]
  unfold member?
  split <;> simp_all

theorem eq_of_member? {r s : QueryRequest} (h : r.member? = s.member?) : r = s := by
  have hat := congrFun h
  apply QueryRequest.ext
  case table => exact always_inj Json.string.inj (hat "TableName")
  case index => exact optional_inj Json.string.inj (hat "IndexName")
  case key => exact always_inj Json.string.inj (hat "KeyConditionExpression")
  case filter => exact optional_inj Json.string.inj (hat "FilterExpression")
  case projection => exact optional_inj Json.string.inj (hat "ProjectionExpression")
  case names => exact filled?_inj Json.string.inj (hat "ExpressionAttributeNames")
  case values => exact filled?_inj Value.toJson_inj (hat "ExpressionAttributeValues")
  case forward => exact always_inj Json.bool.inj (hat "ScanIndexForward")
  case limit => exact optional_inj Json.int.inj (hat "Limit")
  case start => exact optional_inj Item.toJson_inj (hat "ExclusiveStartKey")
  case consistent => exact always_inj Json.bool.inj (hat "ConsistentRead")
  case select => exact optional_inj selection_inj (hat "Select")

end QueryRequest

/-! ### Scans -/

namespace ScanRequest

/-- The members of a scan. -/
def member? (r : ScanRequest) : String → Option Json
  | "TableName" => some (.string r.table)
  | "IndexName" => r.index.map .string
  | "FilterExpression" => r.filter.map .string
  | "ProjectionExpression" => r.projection.map .string
  | "ExpressionAttributeNames" => filled? .string r.names
  | "ExpressionAttributeValues" => filled? Value.toJson r.values
  | "Limit" => r.limit.map .int
  | "ExclusiveStartKey" => r.start.map Item.toJson
  | "ConsistentRead" => some (.bool r.consistent)
  | "Select" => r.select.map fun s => .string s.name
  | "Segment" => r.segment.map .int
  | "TotalSegments" => r.segments.map .int
  | _ => none

theorem shows_body (r : ScanRequest) : r.body.Shows r.member? := by
  refine shows_object fun name x => ?_
  simp only [nameMap, valueMap, List.mem_cons, List.not_mem_nil, or_false, eq_always_iff,
    eq_optional_iff, eq_nonEmpty_iff]
  unfold member?
  split <;> simp_all

theorem eq_of_member? {r s : ScanRequest} (h : r.member? = s.member?) : r = s := by
  have hat := congrFun h
  apply ScanRequest.ext
  case table => exact always_inj Json.string.inj (hat "TableName")
  case index => exact optional_inj Json.string.inj (hat "IndexName")
  case filter => exact optional_inj Json.string.inj (hat "FilterExpression")
  case projection => exact optional_inj Json.string.inj (hat "ProjectionExpression")
  case names => exact filled?_inj Json.string.inj (hat "ExpressionAttributeNames")
  case values => exact filled?_inj Value.toJson_inj (hat "ExpressionAttributeValues")
  case limit => exact optional_inj Json.int.inj (hat "Limit")
  case start => exact optional_inj Item.toJson_inj (hat "ExclusiveStartKey")
  case consistent => exact always_inj Json.bool.inj (hat "ConsistentRead")
  case select => exact optional_inj selection_inj (hat "Select")
  case segment => exact optional_inj Json.int.inj (hat "Segment")
  case segments => exact optional_inj Json.int.inj (hat "TotalSegments")

end ScanRequest

/-! ### Requests for one item -/

namespace GetRequest

/-- The members of a request for one item. -/
def member? (r : GetRequest) : String → Option Json
  | "TableName" => some (.string r.table)
  | "Key" => some r.key.toJson
  | "ProjectionExpression" => r.projection.map .string
  | "ExpressionAttributeNames" => filled? .string r.names
  | "ConsistentRead" => some (.bool r.consistent)
  | _ => none

theorem shows_body (r : GetRequest) : r.body.Shows r.member? := by
  refine shows_object fun name x => ?_
  simp only [nameMap, List.mem_cons, List.not_mem_nil, or_false, eq_always_iff, eq_optional_iff,
    eq_nonEmpty_iff]
  unfold member?
  split <;> simp_all

theorem eq_of_member? {r s : GetRequest} (h : r.member? = s.member?) : r = s := by
  have hat := congrFun h
  apply GetRequest.ext
  case table => exact always_inj Json.string.inj (hat "TableName")
  case key => exact always_inj Item.toJson_inj (hat "Key")
  case projection => exact optional_inj Json.string.inj (hat "ProjectionExpression")
  case names => exact filled?_inj Json.string.inj (hat "ExpressionAttributeNames")
  case consistent => exact always_inj Json.bool.inj (hat "ConsistentRead")

end GetRequest

/-! ### Updates -/

namespace UpdateRequest

/-- What an update returns, by the store's name for it. -/
def returned (returnsItem : Bool) : Json := .string (if returnsItem then "ALL_NEW" else "NONE")

theorem returned_inj {a b : Bool} (h : returned a = returned b) : a = b := by
  cases a <;> cases b <;> simp_all [returned]

/-- The members of an update. -/
def member? (r : UpdateRequest) : String → Option Json
  | "TableName" => some (.string r.table)
  | "Key" => some r.key.toJson
  | "UpdateExpression" => some (.string r.update)
  | "ConditionExpression" => r.condition.map .string
  | "ExpressionAttributeNames" => filled? .string r.names
  | "ExpressionAttributeValues" => filled? Value.toJson r.values
  | "ReturnValues" => some (returned r.returnsItem)
  | _ => none

theorem shows_body (r : UpdateRequest) : r.body.Shows r.member? := by
  rw [body, ← returned]
  refine shows_object fun name x => ?_
  simp only [nameMap, valueMap, List.mem_cons, List.not_mem_nil, or_false, eq_always_iff,
    eq_optional_iff, eq_nonEmpty_iff]
  unfold member?
  split <;> simp_all

theorem eq_of_member? {r s : UpdateRequest} (h : r.member? = s.member?) : r = s := by
  have hat := congrFun h
  apply UpdateRequest.ext
  case table => exact always_inj Json.string.inj (hat "TableName")
  case key => exact always_inj Item.toJson_inj (hat "Key")
  case update => exact always_inj Json.string.inj (hat "UpdateExpression")
  case condition => exact optional_inj Json.string.inj (hat "ConditionExpression")
  case names => exact filled?_inj Json.string.inj (hat "ExpressionAttributeNames")
  case values => exact filled?_inj Value.toJson_inj (hat "ExpressionAttributeValues")
  case returnsItem => exact always_inj returned_inj (hat "ReturnValues")

end UpdateRequest

/-! ### Batches -/

/-- The members of a batch whose only table has the name `table`, where `part` is what is asked
of it. -/
def batchMember? (table : String) (part : Json) : String → Option Json
  | "RequestItems" => some (.object [(table, part)])
  | "ReturnConsumedCapacity" => some (.string "TOTAL")
  | _ => none

theorem shows_batch (table : String) (part : Json) :
    (object [always "RequestItems" (.object [(table, part)]), charges]).Shows
      (batchMember? table part) := by
  refine shows_object fun name x => ?_
  simp only [charges, List.mem_cons, List.not_mem_nil, or_false, eq_always_iff]
  unfold batchMember?
  split <;> simp_all

theorem batchMember?_inj {table table' : String} {part part' : Json}
    (h : batchMember? table part = batchMember? table' part') : table = table' ∧ part = part' := by
  have hitems := congrFun h "RequestItems"
  obtain ⟨hmember, -⟩ := List.cons.inj (Json.object.inj (Option.some.inj hitems))
  exact Prod.mk.inj hmember

namespace BatchGetRequest

/-- The members of what is asked of the table. -/
def member? (r : BatchGetRequest) : String → Option Json
  | "Keys" => some (.array (r.keys.map Item.toJson))
  | "ProjectionExpression" => r.projection.map .string
  | "ExpressionAttributeNames" => filled? .string r.names
  | "ConsistentRead" => some (.bool r.consistent)
  | _ => none

theorem shows_body (r : BatchGetRequest) :
    ∃ part, r.body.Shows (batchMember? r.table part) ∧ part.Shows r.member? := by
  refine ⟨_, shows_batch r.table _, shows_object fun name x => ?_⟩
  simp only [nameMap, List.mem_cons, List.not_mem_nil, or_false, eq_always_iff, eq_optional_iff,
    eq_nonEmpty_iff]
  unfold member?
  split <;> simp_all

theorem eq_of_member? {r s : BatchGetRequest} (htable : r.table = s.table)
    (h : r.member? = s.member?) : r = s := by
  have hat := congrFun h
  apply BatchGetRequest.ext
  case table => exact htable
  case keys => exact Value.map_inj Item.toJson_inj (Option.some.inj (hat "Keys"))
  case projection => exact optional_inj Json.string.inj (hat "ProjectionExpression")
  case names => exact filled?_inj Json.string.inj (hat "ExpressionAttributeNames")
  case consistent => exact always_inj Json.bool.inj (hat "ConsistentRead")

end BatchGetRequest

/-- Writes that are sent alike are the same. -/
theorem Write.body_inj {w u : Write} (h : w.body = u.body) : w = u := by
  cases w with
  | put item =>
      cases u with
      | put other => rw [Item.toJson_inj (Value.inner_eq (Value.inner_eq h))]
      | delete key => simp [Write.body] at h
  | delete key =>
      cases u with
      | put item => simp [Write.body] at h
      | delete other => rw [Item.toJson_inj (Value.inner_eq (Value.inner_eq h))]

/-! ### Requests -/

namespace Request

/-- **The part of a request that goes under a name**; for a batch, under the name of its table. -/
def member? : Request → String → Option Json
  | .query r => r.member?
  | .scan r => r.member?
  | .getItem r => r.member?
  | .batchGet r => r.member?
  | .batchWrite _ => fun _ => none
  | .update r => r.member?

/-- **A JSON value that tells a request**: its members are the parts that the request has.  The
writes of a batch are told in order, each by one element. -/
def Tells : Request → Json → Prop
  | .batchGet r, j => ∃ part, j.Shows (batchMember? r.table part) ∧ part.Shows r.member?
  | .batchWrite r, j => j.Shows (batchMember? r.table (.array (r.writes.map Write.body)))
  | r, j => j.Shows r.member?

/-- **A body tells its request.** -/
theorem tells_body (r : Request) : r.Tells r.body := by
  cases r with
  | query r => exact r.shows_body
  | scan r => exact r.shows_body
  | getItem r => exact r.shows_body
  | batchGet r => exact r.shows_body
  | batchWrite r => exact shows_batch r.table _
  | update r => exact r.shows_body

/-- **What tells a request tells no other one of its kind.** -/
theorem eq_of_tells {r s : Request} (hkind : r.operation = s.operation) {j : Json}
    (hr : r.Tells j) (hs : s.Tells j) : r = s := by
  cases r with
  | query r =>
      cases s with
      | query s => rw [QueryRequest.eq_of_member? (hr.unique hs)]
      | _ => cases hkind
  | scan r =>
      cases s with
      | scan s => rw [ScanRequest.eq_of_member? (hr.unique hs)]
      | _ => cases hkind
  | getItem r =>
      cases s with
      | getItem s => rw [GetRequest.eq_of_member? (hr.unique hs)]
      | _ => cases hkind
  | batchGet r =>
      cases s with
      | batchGet s =>
          obtain ⟨part, hr, hpart⟩ := hr
          obtain ⟨part', hs, hpart'⟩ := hs
          obtain ⟨htable, rfl⟩ := batchMember?_inj (hr.unique hs)
          rw [BatchGetRequest.eq_of_member? htable (hpart.unique hpart')]
      | _ => cases hkind
  | batchWrite r =>
      cases s with
      | batchWrite s =>
          obtain ⟨htable, hwrites⟩ := batchMember?_inj (hr.unique hs)
          rw [BatchWriteRequest.ext htable (Value.map_inj Write.body_inj hwrites)]
      | _ => cases hkind
  | update r =>
      cases s with
      | update s => rw [UpdateRequest.eq_of_member? (hr.unique hs)]
      | _ => cases hkind

/-- The names under which the dictionaries of placeholders go. -/
def placeholderMembers : List String := ["ExpressionAttributeNames", "ExpressionAttributeValues"]

/-- **No dictionary of placeholders is sent empty.** -/
theorem member?_ne_empty (r : Request) {name : String} (h : name ∈ placeholderMembers) :
    r.member? name ≠ some (.object []) := by
  obtain rfl | rfl : name = "ExpressionAttributeNames" ∨ name = "ExpressionAttributeValues" := by
    simpa [placeholderMembers] using h
  · cases r with
    | batchWrite r => exact fun h => by cases h
    | _ r => exact filled?_ne_empty _ r.names
  · cases r with
    | query r => exact filled?_ne_empty _ r.values
    | scan r => exact filled?_ne_empty _ r.values
    | update r => exact filled?_ne_empty _ r.values
    | _ r => exact fun h => by cases h

/-- **The body of a request determines it.**  What is sent is the body.  Each part that the request
has is a member of it, a part that it does not have is none, and there are no other members; a
dictionary of placeholders without entries is left out.  No other request of the kind has the same
body. -/
theorem bodies_determine_requests (r : Request) :
    (∀ m, r.message? = some m → m.body = r.body) ∧ r.Tells r.body ∧
      (∀ name ∈ placeholderMembers, r.member? name ≠ some (.object [])) ∧
      ∀ s : Request, s.operation = r.operation → s.body = r.body → s = r := by
  refine ⟨fun m hm => body_of_message? hm, r.tells_body, fun name hname => r.member?_ne_empty hname,
    fun s hkind hbody => ?_⟩
  have hs := s.tells_body
  rw [hbody] at hs
  exact eq_of_tells hkind hs r.tells_body

namespace Library

/-- The books of an author that are read backwards from one of them on. -/
def loans : QueryRequest where
  table := "library"
  index := some "author-books"
  key := "#n0 = :v0"
  projection := some "#n1"
  names := [("#n0", "author"), ("#n1", "title")]
  values := [(":v0", .text "austen")]
  forward := false
  limit := some 2
  start := some [("author", .text "austen"), ("owner", .text "ann")]
  select := some .specificAttributes

/-- The same, with its names given in another order. -/
def sameLoans : QueryRequest :=
  { loans with names := Dict.ofList [("#n1", "title"), ("#n0", "author")] }

end Library

/-- The two ways to ask for the books are sent alike, so they are one request. -/
theorem library_loans_are_one_request :
    (Request.query Library.sameLoans).body = (Request.query Library.loans).body ∧
      Request.query Library.sameLoans = .query Library.loans := by
  have hnames : Dict.ofList [("#n1", "title"), ("#n0", "author")] = Library.loans.names := by
    decide +kernel
  have hbody : (Request.query Library.sameLoans).body = (Request.query Library.loans).body := by
    rw [Library.sameLoans, hnames]
  exact ⟨hbody, (bodies_determine_requests (.query Library.loans)).2.2.2 _ rfl hbody⟩

end Request

end Keyspace
