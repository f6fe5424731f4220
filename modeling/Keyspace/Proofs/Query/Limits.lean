import Keyspace.Handle
import Keyspace.Proofs.Builder.Query
import Keyspace.Proofs.Read.Listing
import Keyspace.Proofs.Read.Turns
import Keyspace.Script
/-!
# How many items are asked for

Queries and scans may say how many items the store is to look at.  The store takes no number below
one.  A limit of a query is checked when it is set, and what a page loop misses is one item at
least; but a page size of the settings is taken as it is, and a number below one is sent.  In page
loops a page is never larger than the page size, and a loop that filters nothing asks for no more
than its query still wants.

Main definitions:

* `Keyspace.Action.AsksFor` — all numbers of items that an action asks for have a property;
* `Keyspace.Query.IsPaged` — a query with a page size and a limit that is no less than one;
* `Keyspace.PreparedRead.AsksForMissing` — the turns of each page loop ask for what is missing.

Main results:

* `Keyspace.Query.isPaged_stepsAt` — **a limit that was set is no less than one**;
* `Keyspace.Query.all_asksFor` and so on — what the ways to run a query ask for;
* `Keyspace.PreparedRead.items_asksForMissing` — **a loop asks for what is missing**;
* `Keyspace.asks_for_what_is_missing` — all of this, from the settings to the requests.
-/

set_option autoImplicit false

namespace Keyspace

variable {σ α β : Type}

/-! ### Numbers of items -/

/-- The number of items that a query or a scan asks the store to look at, if it says so. -/
def Request.asked? : Request → Option (Option Int)
  | .query r => some r.limit
  | .scan r => some r.limit
  | _ => none

/-- All numbers of items that an action asks for have a property. -/
def Action.AsksFor (P : Option Int → Prop) (a : Action σ α) : Prop :=
  Action.Sends (fun s => ∀ limit, s.request.asked? = some limit → P limit) a

/-- A number of items, if there is one, is at least one, or it is the page size of the settings. -/
def AtLeastOne (pageSize limit : Option Int) : Prop :=
  ∀ n, limit = some n → pageSize = some n ∨ 1 ≤ n

/-- A number of items is at most the page size of the settings, if there is one. -/
def AtMostAPage (pageSize limit : Option Int) : Prop :=
  ∀ size, pageSize = some size → ∃ n, limit = some n ∧ n ≤ size

namespace PageLimits

theorem atLeastOne_next (l : PageLimits) (n : Nat) : AtLeastOne l.perCall (l.next n) :=
  fun _ => perCall_or_one_le

theorem atMostAPage_next (l : PageLimits) (n : Nat) : AtMostAPage l.perCall (l.next n) := by
  intro size hsize
  unfold next
  rw [hsize]
  cases l.missing n with
  | none => exact ⟨size, rfl, Int.le_refl size⟩
  | some missing => exact ⟨min size missing, rfl, Int.min_le_left size missing⟩

/-- While items are missing no more of them are asked for. -/
theorem next_le_missing {l : PageLimits} {n cap : Nat} (htrim : l.trim = true)
    (hcap : l.cap = some cap) (hmissing : l.reached n = false) :
    ∃ k : Int, l.next n = some k ∧ k ≤ cap - n := by
  have hlt : n < cap := by simpa [reached, hcap] using hmissing
  have hmost : l.missing n = some ((cap - n : Nat) : Int) := by
    simp only [missing, htrim, if_true, hcap, Option.map_some]
    rw [Nat.max_eq_right (by omega)]
  unfold next
  rw [hmost]
  cases l.perCall with
  | none => exact ⟨_, rfl, by omega⟩
  | some perCall => exact ⟨_, rfl, by omega⟩

end PageLimits

/-! ### Requests -/

/-- The request of a read for a page asks for the number of its turn. -/
theorem Read.asks_turn {r : Read} {e : Expressions} {select : Option Selection}
    {start : Option Item} {limit asked : Option Int}
    (h : ((r.request e select).turn start limit).toRequest.asked? = some asked) :
    asked = limit := by
  unfold Read.request at h
  split at h
  · exact (Option.some.inj h).symm.trans Option.or_none
  · exact (Option.some.inj h).symm.trans Option.or_none

/-- The request for a page of one segment asks for the number of its turn. -/
theorem PreparedRead.asks_segment {p : PreparedRead} {r : ScanRequest} (hr : p.request = .scan r)
    {segment total : Nat} {start : Option Item} {limit asked : Option Int}
    (h : (Request.scan ((r.forSegment segment total).turn start limit)).asked? = some asked) :
    asked = limit := by
  have hturn : ((p.read.request p.expressions none).turn start limit).toRequest.asked? =
      some asked := by
    rw [show p.read.request p.expressions none = .scan r from hr]
    exact h
  exact Read.asks_turn hturn

/-! ### Queries -/

namespace Query

/-- **A query with a page size** and a limit that is no less than one. -/
structure IsPaged (pageSize : Option Int) (q : Query) : Prop where
  pageSize : q.pageSize = pageSize
  limit : ∀ n, q.limit = some n → 1 ≤ n

variable {ν : Type} [AsOperand ν] {q : Query} {size : Option Int}

theorem IsPaged.attempt (hq : q.IsPaged size) {step : Except Error Query}
    (hstep : ∀ r, step = .ok r → r.IsPaged size) : (q.attempt step).IsPaged size :=
  attempt_keeps hq (fun _ => ⟨hq.pageSize, hq.limit⟩) hstep

/-- A step that says nothing of the limit. -/
theorem IsPaged.step_of_quiet (hq : q.IsPaged size) {now : Nat} {s : Step ν}
    (hquiet : s.says? now .limit = none) : (q.step now s).IsPaged size := by
  obtain ⟨outcome, hstep, htakes⟩ := step_spec now q s
  rw [hstep]
  refine hq.attempt fun r hr => ?_
  have htaken := htakes.right r hr
  have hlimit : r.limit = q.limit := by
    have hsetting := htaken.settings .limit
    rwa [hquiet] at hsetting
  exact ⟨htaken.table.2.trans hq.pageSize, hlimit ▸ hq.limit⟩

/-- The step that sets the limit checks it. -/
theorem IsPaged.take (hq : q.IsPaged size) (limit : Int) : (q.take limit).IsPaged size := by
  refine hq.attempt fun r hr => ?_
  split at hr
  · cases hr
  · cases hr
    refine ⟨hq.pageSize, fun n hn => ?_⟩
    obtain rfl := Option.some.inj hn
    omega

theorem IsPaged.step (hq : q.IsPaged size) (now : Nat) (s : Step ν) :
    (q.step now s).IsPaged size := by
  cases s with
  | take limit => exact hq.take limit
  | _ => exact hq.step_of_quiet rfl

/-- **A limit that was set is no less than one.** -/
theorem isPaged_stepsAt (hq : q.IsPaged size) (ss : List (Nat × Step ν)) :
    (q.stepsAt ss).IsPaged size := by
  induction ss generalizing q with
  | nil => exact hq
  | cons s rest ih => exact ih (hq.step s.1 s.2)

/-- Dividing a query into segments changes neither its page size nor its limit. -/
theorem IsPaged.inSegments (hq : q.IsPaged size) (segments : Int) :
    (q.scan.inSegments segments).IsPaged size :=
  (hq.step 0 (.scan : Step)).step 0 (.inSegments segments : Step)

theorem IsPaged.prepared (hq : q.IsPaged size) {p : PreparedRead} (hp : q.prepare = .ok p) :
    p.pageSize = size ∧ p.read.limit = q.limit := by
  obtain ⟨hbuild, _, _, _, hpageSize⟩ := prepare_spec hp
  obtain ⟨plan, start, _, hread⟩ := build_spec hbuild
  exact ⟨hpageSize.trans hq.pageSize, by rw [hread]⟩

end Query

/-- A query begins without a limit, with the page size of the settings. -/
theorem Handle.isPaged_query (h : Handle) (m : Model α) :
    (h.query m).IsPaged h.config.pageSize := by
  unfold Handle.query
  split
  · exact ⟨rfl, fun _ hn => by cases hn⟩
  · exact ⟨rfl, fun _ hn => by cases hn⟩

/-! ### What is asked for -/

namespace PreparedRead

variable {P : Option Int → Prop} {p : PreparedRead} (store : Store σ)

theorem items_asksFor (h : ∀ l : PageLimits, l.perCall = p.pageSize → ∀ n, P (l.next n))
    (cap : Option Nat) : (p.items store cap).AsksFor P := by
  refine p.items_sends store cap fun _ _ start n limit hasks => ?_
  rw [Read.asks_turn hasks]
  exact h (p.limits cap) rfl n

theorem page_asksFor (h : P (p.read.limit.or p.pageSize)) : (p.page store).AsksFor P := by
  refine p.page_sends store fun _ _ limit hasks => ?_
  rw [Read.asks_turn hasks]
  exact h

theorem count_asksFor (h : P p.pageSize) : (p.count store).AsksFor P := by
  refine p.count_sends store fun _ _ start limit hasks => ?_
  rw [Read.asks_turn hasks]
  exact h

/-- The item of a key is not asked for by a number. -/
theorem item_asksFor (key : Item) : (p.item store key).AsksFor P :=
  p.item_sends store fun _ _ _ hasks => by cases hasks

theorem segmented_asksFor (h : P p.pageSize) (segments : Int) :
    (p.segmented store segments).AsksFor P := by
  refine p.segmented_sends store segments fun r hr _ _ segment total start limit hasks => ?_
  rw [asks_segment hr hasks]
  exact h

end PreparedRead

namespace Query

variable {P : Option Int → Prop} {q : Query} {size : Option Int} (hq : q.IsPaged size)
include hq

/-- **All values**: each page loop asks for what its limits say. -/
theorem all_asksFor (h : ∀ l : PageLimits, l.perCall = size → ∀ n, P (l.next n)) (m : Model α)
    (store : Store σ) : (q.all m store).AsksFor P := by
  have hpage : P size := PageLimits.next_of_perCall size 0 ▸ h { perCall := size } rfl 0
  refine all_sends m store (fun p hp => ?_) fun p hp => ?_
  · exact p.items_asksFor store ((hq.prepared hp).1 ▸ h)
  · exact p.segmented_asksFor store ((hq.prepared hp).1 ▸ hpage)

/-- **The first value.** -/
theorem first_asksFor (h : ∀ l : PageLimits, l.perCall = size → ∀ n, P (l.next n)) (m : Model α)
    (store : Store σ) : (q.first m store).AsksFor P := by
  refine first_sends m store (fun p hp => ?_) fun p hp => ?_
  · exact p.items_asksFor store ((hq.prepared hp).1 ▸ h)
  · exact p.item_asksFor store

/-- **The number of items.** -/
theorem count_asksFor (h : P size) (store : Store σ) : (q.count store).AsksFor P := by
  refine run_sends fun p hp => ?_
  have hcount : ({ q with projection := [] } : Query).IsPaged size := ⟨hq.pageSize, hq.limit⟩
  exact p.count_asksFor store ((hcount.prepared hp).1 ▸ h)

/-- **One page.** -/
theorem page_asksFor (h : P (q.limit.or size)) (m : Model α) (store : Store σ) :
    (q.page m store).AsksFor P := by
  refine page_sends m store fun p hp => ?_
  obtain ⟨hsize, hlimit⟩ := hq.prepared hp
  exact p.page_asksFor store (by rwa [hlimit, hsize])

/-- **The values of all segments.** -/
theorem segmented_asksFor (h : P size) (m : Model α) (store : Store σ) (segments : Int) :
    (q.segmented m store segments).AsksFor P := by
  refine run_sends fun p hp => Action.Sends.reading ?_
  exact p.segmented_asksFor store (((hq.inSegments segments).prepared hp).1 ▸ h) segments

end Query

/-! ### What is missing -/

namespace PreparedRead

/-- **An action asks for what is missing** of `cap` items: it sends the turns of page loops, one
loop after the other, and each turn asks for no more items than those before it in its loop have
left. -/
def AsksForMissing (p : PreparedRead) (store : Store σ) (cap : Nat) (a : Action σ β) : Prop :=
  ∀ w, ∃ loops : List (List (Turn σ)),
    (a w).2.sent = w.sent ++ loops.flatten.map (Turn.sent p.request) ∧
    ∀ ts ∈ loops, (∃ v, p.request.IsLoop store p.read.start v ts) ∧
      ∀ before t after, ts = before ++ t :: after → ∃ n : Int, t.limit = some n ∧
        n ≤ cap - (before.flatMap (Turn.items store p.request)).length

variable {p : PreparedRead}

theorem AsksForMissing.reading {γ : Type} {store : Store σ} {cap : Nat} {a : Action σ β}
    {f : β → Except Error γ} (h : p.AsksForMissing store cap a) :
    p.AsksForMissing store cap (Query.reading f a) := h

/-- **A loop that filters nothing asks for what is missing.** -/
theorem items_asksForMissing (store : Store σ) (hfilter : p.request.filter = none) {cap : Nat}
    (hcap : 0 < cap) : p.AsksForMissing store cap (p.items store (some cap)) := by
  intro w
  have hmissing : (p.limits (some cap)).reached 0 = false := decide_eq_false (Nat.not_le.2 hcap)
  obtain ⟨loops, hloops, hsent⟩ : ∃ loops : List (List (Turn σ)),
      (∀ ts ∈ loops, ∃ v, p.request.IsLoop store p.read.start v ts ∧
        p.request.IsPaced store (p.limits (some cap)) 0 ts) ∧
      (p.items store (some cap) w).2.sent = w.sent ++ loops.flatten.map (Turn.sent p.request) :=
    RetryPolicy.run_parts
      (PageRequest.items_turns store p.request p.deadline hmissing p.read.start) w
  refine ⟨loops, hsent, fun ts hts => ?_⟩
  obtain ⟨v, hloop, hpaced⟩ := hloops ts hts
  refine ⟨⟨v, hloop⟩, fun before t after hsplit => ?_⟩
  obtain ⟨hreached, hlimit⟩ := hpaced before t after hsplit
  rw [Nat.zero_add] at hreached hlimit
  rw [hlimit]
  exact PageLimits.next_le_missing (by simp [limits, hfilter]) rfl hreached

end PreparedRead

/-! ### Everything together -/

/-- **No request asks for fewer items than one, or for more than it should.**  A handle has any
settings, and a query any steps.  Every number of items that is asked for is at least one, unless
it is a smaller page size of the settings; the page loops of all values, of the first one and of
the count ask for at most a page; and if nothing is filtered out, each loop for all values of a
query with a limit, or for its first value, asks for no more than is missing.  (The workers of a
scan in segments read their segments to the end, so nothing is missing there.) -/
theorem asks_for_what_is_missing {ν : Type} [AsOperand ν] (config : Config)
    (schemas : Dict TableSchema) (m : Model α) (ss : List (Nat × Query.Step ν)) (store : Store σ)
    (segments : Int) :
    let q := (({ Handle.new config with schemas } : Handle).query m).stepsAt ss
    ((q.all m store).AsksFor (AtLeastOne config.pageSize) ∧
      (q.first m store).AsksFor (AtLeastOne config.pageSize) ∧
      (q.count store).AsksFor (AtLeastOne config.pageSize) ∧
      (q.page m store).AsksFor (AtLeastOne config.pageSize) ∧
      (q.segmented m store segments).AsksFor (AtLeastOne config.pageSize)) ∧
    ((q.all m store).AsksFor (AtMostAPage config.pageSize) ∧
      (q.first m store).AsksFor (AtMostAPage config.pageSize) ∧
      (q.count store).AsksFor (AtMostAPage config.pageSize)) ∧
    ∀ p, q.prepare = .ok p → p.request.filter = none →
      (∀ limit, q.limit = some limit → p.read.isParallel = false →
        p.AsksForMissing store limit.toNat (q.all m store)) ∧
      (p.read.pointKey? = none → p.AsksForMissing store 1 (q.first m store)) := by
  intro q
  have hq : q.IsPaged config.pageSize :=
    Query.isPaged_stepsAt (Handle.isPaged_query { Handle.new config with schemas } m) ss
  have hone : ∀ l : PageLimits, l.perCall = config.pageSize → ∀ n,
      AtLeastOne config.pageSize (l.next n) := fun l hl n => hl ▸ l.atLeastOne_next n
  have hpage : ∀ l : PageLimits, l.perCall = config.pageSize → ∀ n,
      AtMostAPage config.pageSize (l.next n) := fun l hl n => hl ▸ l.atMostAPage_next n
  have hsize : AtLeastOne config.pageSize config.pageSize := fun n hn => .inl hn
  have hlimit : AtLeastOne config.pageSize (q.limit.or config.pageSize) := by
    intro n hn
    rcases Option.or_eq_some_iff.1 hn with hn | ⟨-, hn⟩
    · exact .inr (hq.limit n hn)
    · exact .inl hn
  refine ⟨⟨Query.all_asksFor hq hone m store, Query.first_asksFor hq hone m store,
    Query.count_asksFor hq hsize store, Query.page_asksFor hq hlimit m store,
    Query.segmented_asksFor hq hsize m store segments⟩,
    ⟨Query.all_asksFor hq hpage m store, Query.first_asksFor hq hpage m store,
      Query.count_asksFor hq (fun size hs => ⟨size, hs, Int.le_refl size⟩) store⟩,
    fun p hp hfilter => ⟨fun limit hl hparallel w => ?_, fun hpoint w => ?_⟩⟩
  · have hpositive := hq.limit limit hl
    rw [Query.all_eq hp hparallel, (hq.prepared hp).2, hl]
    exact (p.items_asksForMissing store hfilter (by omega)).reading w
  · rw [Query.first_eq hp hpoint]
    exact (p.items_asksForMissing store hfilter Nat.one_pos).reading.reading w

/-! ### A library -/

namespace Library

/-- The books that people own. -/
def owned : Model Datum := .dynamic "library" { table := "library", partitionKey := "owner" }

/-- Two books are a page. -/
def twoToAPage : Config := { pageSize := some 2 }

/-- A look at three books. -/
def threeBooks : Query :=
  (({ Handle.new twoToAPage with schemas := [] } : Handle).query owned).stepsAt (ν := Datum)
    [(0, .scan), (0, .take 3)]

/-- Three books on two pages. -/
def pagesOfBooks : Script :=
  [.scan
      { result := .ok
          { items := [[("owner", .text "ann")], [("owner", .text "bob")]], count := 2, scanned := 2
            last := some [("owner", .text "bob")] } },
    .scan { result := .ok { items := [[("owner", .text "cy")]], count := 1, scanned := 1
                            last := none } }]

end Library

/-- Of the second page only the third book is asked for. -/
theorem library_asks_for_the_third_book :
    ((Library.threeBooks.all Library.owned Script.store
        { store := Library.pagesOfBooks }).2.sent.map fun s => s.request.asked?) =
      [some (some 2), some (some 1)] ∧
    ∃ p, Library.threeBooks.prepare = .ok p ∧
      p.AsksForMissing Script.store 3 (Library.threeBooks.all Library.owned Script.store) := by
  obtain ⟨p, hp, hfilter, hlimit, hparallel⟩ : ∃ p, Library.threeBooks.prepare = .ok p ∧
      p.request.filter = none ∧ Library.threeBooks.limit = some 3 ∧
      p.read.isParallel = false := ⟨_, rfl, rfl, rfl, rfl⟩
  obtain ⟨-, -, hmissing⟩ := asks_for_what_is_missing (ν := Datum) Library.twoToAPage []
    Library.owned [(0, .scan), (0, .take 3)] Script.store 4
  refine ⟨by decide +kernel, p, hp, ?_⟩
  exact (hmissing p hp hfilter).1 3 hlimit hparallel

/-- **A page size of zero is sent**, although the store takes no number below one. -/
theorem library_asks_for_no_book :
    (((((Handle.new { pageSize := some 0 }).query Library.owned).stepsAt (ν := Datum)
        [(0, .scan)]).all Library.owned Script.store { store := [] }).2.sent.map
          fun s => s.request.asked?) =
      [some (some 0)] := by
  decide +kernel

end Keyspace
