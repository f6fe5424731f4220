import Keyspace.Model
import Keyspace.Query.Basic
import Keyspace.Read.Prepared
/-!
# Running queries

A query on the items of a model gives all its values, the first one, their number, one page of
them with a cursor for the next, or the values of all segments.  What is wrong with a query is
found before anything is sent.

Main definitions:

* `Keyspace.Query.prepare` — the read with its expressions;
* `Keyspace.Query.all`, `Keyspace.Query.first`, `Keyspace.Query.count`, `Keyspace.Query.page`,
  `Keyspace.Query.segmented` — the ways to run a query.
-/

set_option autoImplicit false

namespace Keyspace

/-- One page of values. -/
structure ResultPage (α : Type) where
  values : List α
  /-- The number of items that passed the filter. -/
  count : Int
  /-- The number of items that were looked at. -/
  scanned : Int
  /-- The cursor of the next page, if there may be one. -/
  next : Option String

/-- Whether there may be another page. -/
def ResultPage.hasMore {α : Type} (p : ResultPage α) : Bool := p.next.isSome

namespace Query

variable {σ α : Type}

/-- **The read of a query, with its expressions.** -/
def prepare (q : Query) : Except Error PreparedRead := do
  let read ← q.build
  let expressions ← read.compile
  .ok { read, expressions, retry := q.retry, deadline := q.deadline, pageSize := q.pageSize }

/-- An action on the prepared read of a query, which sends nothing if the query is wrong. -/
def run {β : Type} (q : Query) (action : PreparedRead → Action σ β) : Action σ β := fun w =>
  match q.prepare with
  | .error e => (.error e, w)
  | .ok p => action p w

/-- What an action brings, read as something else. -/
def reading {β γ : Type} (f : β → Except Error γ) (action : Action σ β) : Action σ γ := fun w =>
  let (outcome, w) := action w
  (outcome.bind f, w)

/-- **All values**, at most as many as the query is limited to. -/
def all (q : Query) (m : Model α) (store : Store σ) : Action σ (List α) :=
  q.run fun p =>
    reading m.decodeAll <|
      if p.read.isParallel then
        reading Segmented.toExcept (p.segmented store p.read.segments)
      else p.items store (p.read.limit.map Int.toNat)

/-- **The first value.**  If the query is for one key, that key is read. -/
def first (q : Query) (m : Model α) (store : Store σ) : Action σ (Option α) :=
  q.run fun p =>
    reading (fun item => item.mapM m.decode) <|
      match p.read.pointKey? with
      | some key => p.item store key
      | none => reading (fun items => .ok items.head?) (p.items store (some 1))

/-- **The number of items.**  Nothing is projected. -/
def count (q : Query) (store : Store σ) : Action σ Nat :=
  { q with projection := [] }.run fun p => p.count store

/-- The cursor behind a page of a read, if there may be another page. -/
def cursorAfter (r : Read) (page : Page) : Except Error (Option String) :=
  page.next?.mapM fun key => Cursor.encode key r.fingerprint

/-- **One page**, and the cursor of the next. -/
def page (q : Query) (m : Model α) (store : Store σ) : Action σ (ResultPage α) :=
  q.run fun p =>
    if p.read.isParallel then fun w => (.error (.invalid .pageOfSegments), w)
    else
      reading
        (fun page => do
          let next ← cursorAfter p.read page
          let values ← m.decodeAll page.items
          .ok { values, count := page.count, scanned := page.scanned, next })
        (p.page store)

/-- **The values of all segments** of a scan. -/
def segmented (q : Query) (m : Model α) (store : Store σ) (segments : Int) :
    Action σ (Segmented α) :=
  (q.scan.inSegments segments).run fun p =>
    reading (fun s => s.mapItems m.decodeAll) (p.segmented store segments)

end Query

end Keyspace
