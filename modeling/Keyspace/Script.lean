import Keyspace.Store
/-!
# Scripted stores

A scripted store answers from a list of replies that was given to it beforehand.  A call takes the
first reply that is meant for its kind; when there is none left the answer is an empty one, at
once.

Main definitions:

* `Keyspace.Script` — the replies;
* `Keyspace.Script.take` — the first reply of some kind;
* `Keyspace.Script.store` — the store.
-/

set_option autoImplicit false

namespace Keyspace

/-- How some of the keys of a batch are answered: the last ones are left out, the first ones have
no item, and the others stand for items, each with some attributes more. -/
structure ScriptedGet where
  unprocessed : Nat := 0
  missing : Nat := 0
  extra : Item := []
  charged : List String := []
  deriving Repr

/-- How the writes of a batch are answered: the last ones are left out. -/
structure ScriptedWrite where
  unprocessed : Nat := 0
  charged : List String := []
  deriving Repr

/-- A reply that is meant for a kind of call. -/
inductive ScriptEntry where
  | query (reply : Reply String Page)
  | scan (reply : Reply String Page)
  | segment (index : Int) (reply : Reply WorkerFault Page)
  | getItem (reply : Reply String (Option Item))
  | batchGet (reply : Reply String ScriptedGet)
  | batchWrite (reply : Reply String ScriptedWrite)
  | update (reply : Reply String (Option Item))

/-- Replies in the order they are taken in. -/
abbrev Script := List ScriptEntry

/-- The last elements of a list, at most `n`, and before them the others. -/
def splitLast {α : Type} (n : Nat) (xs : List α) : List α × List α :=
  xs.splitAt (xs.length - n)

namespace ScriptedGet

/-- The answer to a batch of keys. -/
def answer (g : ScriptedGet) (keys : List Item) : BatchGetReply :=
  let (processed, unprocessed) := splitLast g.unprocessed keys
  { items := (processed.drop g.missing).map fun key => key.union g.extra
    unprocessed, charged := g.charged }

end ScriptedGet

namespace ScriptedWrite

/-- The answer to a batch of writes. -/
def answer (g : ScriptedWrite) (writes : List Write) : BatchWriteReply :=
  { unprocessed := (splitLast g.unprocessed writes).2, charged := g.charged }

end ScriptedWrite

namespace Script

variable {ε α : Type}

/-- The first reply of a kind, and the replies without it. -/
def take (pick : ScriptEntry → Option α) : Script → Option α × Script
  | [] => (none, [])
  | e :: rest =>
    match pick e with
    | some a => (some a, rest)
    | none =>
      let (a, rest) := take pick rest
      (a, e :: rest)

/-- A reply that is taken is gone. -/
theorem length_take {pick : ScriptEntry → Option α} {s : Script} {a : α}
    (h : (take pick s).1 = some a) : (take pick s).2.length < s.length := by
  induction s with
  | nil => simp [take] at h
  | cons e rest ih =>
    unfold take at h ⊢
    split
    · simp
    · next none => simpa [none] using ih (by simpa [none] using h)

/-- The first reply of a kind, or a default one. -/
def takeD (pick : ScriptEntry → Option (Reply ε α)) (default : α) (s : Script) :
    Reply ε α × Script :=
  let (reply, s) := s.take pick
  (reply.getD { result := .ok default }, s)

/-- A page that is not the last one was a reply of the script. -/
theorem length_takeD {pick : ScriptEntry → Option (Reply ε Page)} {s : Script} {page default : Page}
    {key : Item} (last : default.next? = none)
    (ok : (takeD pick default s).1.result = .ok page) (next : page.next? = some key) :
    (takeD pick default s).2.length < s.length := by
  cases h : (take pick s).1 with
  | some a => exact length_take h
  | none =>
    simp only [takeD, h, Option.getD_none, Except.ok.injEq] at ok
    subst ok
    rw [last] at next
    cases next

/-- The page without items, which is the last. -/
def emptyPage : Page := { items := [], count := 0, scanned := 0, last := none }

/-- The replies that are meant for a query. -/
def queryReply? : ScriptEntry → Option (Reply String Page)
  | .query r => some r
  | _ => none

/-- The replies that are meant for a scan. -/
def scanReply? : ScriptEntry → Option (Reply String Page)
  | .scan r => some r
  | _ => none

/-- The replies that are meant for a segment of a scan. -/
def segmentReply? (index : Option Int) : ScriptEntry → Option (Reply WorkerFault Page)
  | .segment n r => if index = some n then some r else none
  | _ => none

/-- The replies that are meant for the item of a key. -/
def getItemReply? : ScriptEntry → Option (Reply String (Option Item))
  | .getItem r => some r
  | _ => none

/-- The replies that are meant for a batch of keys. -/
def batchGetReply? : ScriptEntry → Option (Reply String ScriptedGet)
  | .batchGet r => some r
  | _ => none

/-- The replies that are meant for a batch of writes. -/
def batchWriteReply? : ScriptEntry → Option (Reply String ScriptedWrite)
  | .batchWrite r => some r
  | _ => none

/-- The replies that are meant for an update. -/
def updateReply? : ScriptEntry → Option (Reply String (Option Item))
  | .update r => some r
  | _ => none

/-- A reply with its result read as something else. -/
def mapReply {β : Type} (f : α → β) (x : Reply ε α × Script) : Reply ε β × Script :=
  (⟨x.1.delay, x.1.result.map f⟩, x.2)

/-- **The store that answers from a script.** -/
def store : Store Script where
  query _ := takeD queryReply? emptyPage
  scan _ := takeD scanReply? emptyPage
  scanSegment r := takeD (segmentReply? r.segment) emptyPage
  getItem _ := takeD getItemReply? none
  batchGet r s := mapReply (fun g => g.answer r.keys) (s.takeD batchGetReply? {})
  batchWrite r s := mapReply (fun g => g.answer r.writes) (s.takeD batchWriteReply? {})
  update _ := takeD updateReply? none
  rank _ _ s := s.length
  rank_query _ _ _ _ _ _ ok next := length_takeD rfl ok next
  rank_scan _ _ _ _ _ _ ok next := length_takeD rfl ok next
  rank_scanSegment _ _ _ _ _ _ ok next := length_takeD rfl ok next

end Script

end Keyspace
