import Keyspace.Read.Basic
import Keyspace.Store
/-!
# Reading page by page

Pages are read one after the other until one is the last, or until enough has been collected.
Each call may be told how many items to look at: never more than a page may have, and, if nothing
is filtered out, never more than are still missing.

Main definitions:

* `Keyspace.Pager` — where pages come from, with what bounds their number;
* `Keyspace.PageRequest.pager`, `Keyspace.ScanRequest.pager` — the pages of a request;
* `Keyspace.Collector` — what is made of the pages;
* `Keyspace.Pager.collect` — the pages from some key on;
* `Keyspace.PageLimits`, `Keyspace.Pager.items`, `Keyspace.Pager.count` — all items, their number.
-/

set_option autoImplicit false

namespace Keyspace

/-! ### Where pages come from -/

/-- A source of pages.  Each page that is not the last one brings the rank down, so there is an end
to them; a source of pages without end is none. -/
structure Pager (σ : Type) where
  operation : Operation
  /-- The page behind a key, looking at a number of items. -/
  fetch : Option Item → Option Int → Action σ Page
  rank : Option Item → World σ → Nat
  rank_fetch : ∀ (start : Option Item) (limit : Option Int) (w : World σ) (page : Page)
    (key : Item), (fetch start limit w).1 = .ok page → page.next? = some key →
      rank (some key) (fetch start limit w).2 < rank start w

variable {σ β : Type}

/-- The page that a request asks for. -/
def PageRequest.send (store : Store σ) : PageRequest → Action σ Page
  | .query r => fun w =>
    let (result, w) := w.call (.query r) (store.query r)
    (storeError .query result, w)
  | .scan r => fun w =>
    let (result, w) := w.call (.scan r) (store.scan r)
    (storeError .scan result, w)

/-- **The pages of a request.** -/
def PageRequest.pager (store : Store σ) (r : PageRequest) : Pager σ where
  operation := r.operation
  fetch start limit := (r.turn start limit).send store
  rank start w := store.rank r.toRequest start w.store
  rank_fetch := by
    intro start limit w page key ok next
    cases r with
    | query q => exact store.rank_query q _ _ _ page key (storeError_eq_ok ok) next
    | scan q => exact store.rank_scan q _ _ _ page key (storeError_eq_ok ok) next

/-- What went wrong in the worker of a segment. -/
def WorkerFault.toError (segment : Nat) : WorkerFault → Error
  | .reported text => .store ⟨.scan, text⟩
  | .crash text => .segmentPanic segment text

/-- The request for a page of one segment. -/
def ScanRequest.turn (r : ScanRequest) (start : Option Item) (limit : Option Int) : ScanRequest :=
  { r with start := start, limit := limit.or r.limit }

/-- **The pages of one segment.** -/
def ScanRequest.pager (store : Store σ) (segment : Nat) (r : ScanRequest) : Pager σ where
  operation := .scan
  fetch start limit w :=
    let (result, w) := w.call (.scan (r.turn start limit)) (store.scanSegment (r.turn start limit))
    (result.mapError (WorkerFault.toError segment), w)
  rank start w := store.rank (.scan r) start w.store
  rank_fetch := by
    intro start limit w page key ok next
    exact store.rank_scanSegment r start (limit.or r.limit) w.store page key
      (eq_ok_of_mapError ok) next

/-! ### What is made of pages -/

/-- How pages are put together. -/
structure Collector (β : Type) where
  /-- The number of items to look at next. -/
  limit : β → Option Int
  /-- One page more. -/
  add : β → Page → β
  /-- Whether no further page is wanted. -/
  full : β → Bool

/-- **The pages behind a key, put together.**  The deadline is looked at before each call;
`calls` were made so far. -/
def Pager.collect (p : Pager σ) (deadline : Option Nat) (c : Collector β) (start : Option Item)
    (calls : Nat) (sofar : β) (w : World σ) : Except Error β × World σ :=
  if w.elapsed deadline then (.error (.timeout p.operation calls), w)
  else
    match fetched : p.fetch start (c.limit sofar) w with
    | (.error e, w') => (.error e, w')
    | (.ok page, w') =>
      let got := c.add sofar page
      if c.full got then (.ok got, w')
      else
        match next : page.next? with
        | none => (.ok got, w')
        | some key =>
          have : p.rank (some key) w' < p.rank start w := by
            have lower := p.rank_fetch start (c.limit sofar) w page key (by rw [fetched]) next
            rwa [fetched] at lower
          p.collect deadline c (some key) (calls + 1) got w'
termination_by p.rank start w

/-! ### Items and their number -/

/-- How many items a call looks at. -/
structure PageLimits where
  /-- The most items of a page. -/
  perCall : Option Int := none
  /-- The most items wanted. -/
  cap : Option Nat := none
  /-- Whether a call looks at no more items than are missing; right only if nothing is filtered
  out. -/
  trim : Bool := false
  deriving DecidableEq, Repr

namespace PageLimits

/-- The number of items that are missing when `n` have been collected, at least one. -/
def missing (l : PageLimits) (n : Nat) : Option Int :=
  if l.trim then l.cap.map fun cap => (max 1 (cap - n) : Nat) else none

/-- **The number of items to look at** when `n` have been collected. -/
def next (l : PageLimits) (n : Nat) : Option Int :=
  match l.perCall, l.missing n with
  | some perCall, some missing => some (min perCall missing)
  | some perCall, none => some perCall
  | none, missing => missing

/-- Whether `n` items are enough. -/
def reached (l : PageLimits) (n : Nat) : Bool :=
  match l.cap with
  | some cap => cap ≤ n
  | none => false

/-- The items that are wanted. -/
def cut {α : Type} (l : PageLimits) (items : List α) : List α :=
  match l.cap with
  | some cap => items.take cap
  | none => items

/-- The items of all pages. -/
def collector (l : PageLimits) : Collector (List Item) where
  limit items := l.next items.length
  add items page := items ++ page.items
  full items := l.reached items.length

end PageLimits

/-- The sum of the counts of all pages; a negative count counts nothing. -/
def countCollector (perCall : Option Int) : Collector Nat where
  limit _ := perCall
  add total page := total + page.count.toNat
  full _ := false

/-- **The items behind a key**, as many as are wanted. -/
def Pager.items (p : Pager σ) (deadline : Option Nat) (l : PageLimits) (start : Option Item) :
    Action σ (List Item) := fun w =>
  let (items, w) := p.collect deadline l.collector start 0 [] w
  (items.map l.cut, w)

/-- **The number of items behind a key.** -/
def Pager.count (p : Pager σ) (deadline : Option Nat) (perCall : Option Int)
    (start : Option Item) : Action σ Nat := fun w =>
  p.collect deadline (countCollector perCall) start 0 0 w

end Keyspace
