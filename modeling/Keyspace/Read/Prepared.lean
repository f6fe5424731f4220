import Keyspace.Read.Segments
/-!
# Prepared reads

A read whose expressions are compiled can be run: for all its items, for one page of them, for
their number, for the item of its key, or in segments.

Main definitions:

* `Keyspace.PreparedRead` — a read with its expressions, its policy and its deadline;
* `Keyspace.PreparedRead.items`, `Keyspace.PreparedRead.page`, `Keyspace.PreparedRead.count`,
  `Keyspace.PreparedRead.item`, `Keyspace.PreparedRead.segmented` — the ways to run it.
-/

set_option autoImplicit false

namespace Keyspace

/-- A read that can be run. -/
structure PreparedRead where
  read : Read
  expressions : Expressions
  retry : RetryPolicy
  deadline : Option Nat
  /-- The most items of a page, if the read does not say. -/
  pageSize : Option Int
  deriving Repr

namespace PreparedRead

variable {σ : Type}

/-- The request for the first page. -/
def request (p : PreparedRead) : PageRequest := p.read.request p.expressions none

/-- The request for the first page of the count. -/
def countRequest (p : PreparedRead) : PageRequest := p.read.request p.expressions (some .count)

/-- How many items a call looks at, if at most `cap` items are wanted. -/
def limits (p : PreparedRead) (cap : Option Nat) : PageLimits :=
  { perCall := p.pageSize, cap, trim := p.request.filter.isNone }

/-- **All items, or as many as are wanted.** -/
def items (p : PreparedRead) (store : Store σ) (cap : Option Nat) : Action σ (List Item) :=
  p.retry.run p.deadline p.request.operation List.isEmpty <|
    (p.request.pager store).items p.deadline (p.limits cap) p.read.start

/-- **One page**, from where the read starts. -/
def page (p : PreparedRead) (store : Store σ) : Action σ Page :=
  p.retry.run p.deadline p.request.operation (fun page => page.items.isEmpty) <|
    (p.request.pager store).fetch p.read.start (p.read.limit.or p.pageSize)

/-- **The number of items.** -/
def count (p : PreparedRead) (store : Store σ) : Action σ Nat :=
  p.retry.run p.deadline p.countRequest.operation (fun n => n == 0) <|
    (p.countRequest.pager store).count p.deadline p.pageSize p.read.start

/-- **The item of a key.** -/
def item (p : PreparedRead) (store : Store σ) (key : Item) : Action σ (Option Item) :=
  let r := p.read.getRequest p.expressions key
  p.retry.run p.deadline .getItem Option.isNone fun w =>
    let (result, w) := w.call (.getItem r) (store.getItem r)
    (storeError .getItem result, w)

/-- **All items, read in segments**, at most as many as the read is limited to. -/
def segmented (p : PreparedRead) (store : Store σ) (segments : Int) :
    Action σ (Segmented Item) := fun w =>
  match p.request with
  | .query _ => (.error (.invalid .segmentsOfLookup), w)
  | .scan r =>
    RetryPolicy.before p.deadline .scan 0
      (fun w =>
        let (s, w) := r.segmented store p.retry p.deadline p.pageSize (max segments 1).toNat w
        match p.read.limit with
        | some limit => (.ok { s with items := s.items.take limit.toNat }, w)
        | none => (.ok s, w)) w

end PreparedRead

end Keyspace
