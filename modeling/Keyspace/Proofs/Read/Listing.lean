import Keyspace.Read.Prepared
/-!
# Listings

For one request a store has a listing: records in an order, some of which match the filter.  It
shows the records behind a key page by page, and may look at as few of them at a time as it likes,
but at one at least.  Whatever it chooses, reading page by page brings the matching records, and
as many of them as are wanted.

Main definitions:

* `Keyspace.Listing` — the listings;
* `Keyspace.Listing.Shows` — a page shows some records of a listing;
* `Keyspace.Listing.ServedBy` — a store answers a request with pages of a listing and some faults.

Main results:

* `Keyspace.Listing.collect_spec` — **pages put together**, or a fault;
* `Keyspace.Listing.items_spec` — **the items behind a key**, or a fault.
-/

set_option autoImplicit false

namespace Keyspace

/-- A record, and whether it matches the filter. -/
structure Record where
  item : Item
  isMatch : Bool

/-- Records in the order in which they are read, and the number of those that do not stand behind
a key. -/
structure Listing where
  records : List Record
  position : Item → Nat

/-- The request for a page, asked of a store. -/
def PageRequest.answer {σ : Type} (store : Store σ) : PageRequest → σ → Reply String Page × σ
  | .query r => store.query r
  | .scan r => store.scan r

namespace Listing

/-- The number of records that do not stand behind the start. -/
def offset (l : Listing) : Option Item → Nat
  | none => 0
  | some key => l.position key

/-- The records behind the start. -/
def behind (l : Listing) (start : Option Item) : List Record := l.records.drop (l.offset start)

/-- The items of the records that match. -/
def matching (rs : List Record) : List Item := (rs.filter Record.isMatch).map Record.item

/-- **A page shows the next `n` records** behind the start. -/
structure Shows (l : Listing) (start : Option Item) (limit : Option Int) (page : Page) (n : Nat) :
    Prop where
  bound : n ≤ (l.behind start).length
  /-- Of records that are there at least one is looked at. -/
  advances : l.behind start ≠ [] → 0 < n
  limited : ∀ most, limit = some most → (n : Int) ≤ most
  items : page.items = matching ((l.behind start).take n)
  /-- If records remain the page ends with a key. -/
  remains : n < (l.behind start).length → page.next?.isSome = true
  /-- Behind that key are the records that were not looked at. -/
  key : ∀ key, page.next? = some key → l.position key = l.offset start + n

/-- **A store answers a request with pages of a listing**, or with faults, of which `faults`
counts at most how many may still come. -/
structure ServedBy {σ : Type} (l : Listing) (store : Store σ) (r : PageRequest)
    (faults : σ → Nat) : Prop where
  page : ∀ (start : Option Item) (limit : Option Int) (s : σ) (page : Page),
    (∀ most, limit = some most → 1 ≤ most) →
      ((r.turn start limit).answer store s).1.result = .ok page →
        (∃ n, l.Shows start limit page n) ∧
          faults ((r.turn start limit).answer store s).2 ≤ faults s
  fault : ∀ (start : Option Item) (limit : Option Int) (s : σ) (text : String),
    (∀ most, limit = some most → 1 ≤ most) →
      ((r.turn start limit).answer store s).1.result = .error text →
        faults ((r.turn start limit).answer store s).2 < faults s

/-! ### One page -/

theorem matching_append (xs ys : List Record) :
    matching (xs ++ ys) = matching xs ++ matching ys := by
  simp [matching]

/-- What a page shows and what is behind its key are all the matching records. -/
theorem Shows.split {l : Listing} {start : Option Item} {limit : Option Int} {page : Page}
    {n : Nat} (h : l.Shows start limit page n) {key : Item} (hkey : page.next? = some key) :
    matching (l.behind start) = page.items ++ matching (l.behind (some key)) := by
  have hrest : l.behind (some key) = (l.behind start).drop n := by
    rw [behind, behind, List.drop_drop, offset, h.key key hkey]
  rw [h.items, hrest, ← matching_append, List.take_append_drop]

/-- The last page shows all matching records. -/
theorem Shows.last {l : Listing} {start : Option Item} {limit : Option Int} {page : Page}
    {n : Nat} (h : l.Shows start limit page n) (hlast : page.next? = none) :
    matching (l.behind start) = page.items := by
  have hall : ¬ n < (l.behind start).length := by
    intro hlt
    have hsome := h.remains hlt
    rw [hlast] at hsome
    cases hsome
  rw [h.items, List.take_of_length_le (by omega)]

end Listing

/-! ### How many items are wanted -/

namespace PageLimits

/-- What is missing is at least one item. -/
theorem one_le_missing {l : PageLimits} {n : Nat} {most : Int} (h : l.missing n = some most) :
    1 ≤ most := by
  unfold missing at h
  split at h
  · obtain ⟨cap, _, rfl⟩ := Option.map_eq_some_iff.1 h
    omega
  · cases h

/-- A call that is told how many items to look at is told to look at as many as a page has, or at
one at least. -/
theorem perCall_or_one_le {l : PageLimits} {n : Nat} {most : Int} (h : l.next n = some most) :
    l.perCall = some most ∨ 1 ≤ most := by
  unfold next at h
  split at h
  · next perCall missing hper hmissing =>
      have hone := one_le_missing hmissing
      obtain rfl := Option.some.inj h
      rcases Int.le_total perCall missing with hle | hle
      · exact .inl (by rw [hper, Int.min_eq_left hle])
      · exact .inr (by rwa [Int.min_eq_right hle])
  · next hper _ => exact .inl (hper.trans h)
  · exact .inr (one_le_missing h)

/-- A call that is told how many items to look at is told to look at one at least, if a page may
have that many. -/
theorem one_le_next {l : PageLimits} (h : ∀ most, l.perCall = some most → 1 ≤ most) {n : Nat}
    {most : Int} (hnext : l.next n = some most) : 1 ≤ most := by
  rcases perCall_or_one_le hnext with hper | hone
  · exact h most hper
  · exact hone

/-- Once enough items have been collected, more of them make no difference. -/
theorem cut_append {α : Type} {l : PageLimits} {items : List α}
    (h : l.reached items.length = true) (more : List α) : l.cut (items ++ more) = l.cut items := by
  unfold reached at h
  unfold cut
  split at h
  · next cap _ =>
      rw [List.take_append_of_le_length (of_decide_eq_true h)]
  · cases h

end PageLimits

/-! ### All pages -/

namespace Listing

variable {σ : Type} {l : Listing} {store : Store σ} {r : PageRequest} {faults : σ → Nat}

theorem send_eq (store : Store σ) (r : PageRequest) (w : World σ) :
    (r.send store w).1 = storeError r.operation (r.answer store w.store).1.result ∧
      (r.send store w).2.store = (r.answer store w.store).2 := by
  cases r with
  | query q => exact ⟨rfl, rfl⟩
  | scan q => exact ⟨rfl, rfl⟩

/-- A page that a call brings is one of the listing. -/
theorem shows_of_fetched (h : l.ServedBy store r faults) {start : Option Item}
    {limit : Option Int} (hlimit : ∀ most, limit = some most → 1 ≤ most) {w w' : World σ}
    {page : Page} (hfetched : (r.pager store).fetch start limit w = (.ok page, w')) :
    (∃ n, l.Shows start limit page n) ∧ faults w'.store ≤ faults w.store := by
  obtain ⟨hresult, hstore⟩ := send_eq store (r.turn start limit) w
  have hsend : (r.turn start limit).send store w = (.ok page, w') := hfetched
  rw [hsend] at hresult hstore
  simp only at hresult hstore
  rw [hstore]
  exact h.page start limit w.store page hlimit (storeError_eq_ok hresult.symm)

/-- What else a call brings is a fault. -/
theorem fault_of_fetched (h : l.ServedBy store r faults) {start : Option Item}
    {limit : Option Int} (hlimit : ∀ most, limit = some most → 1 ≤ most) {w w' : World σ}
    {e : Error} (hfetched : (r.pager store).fetch start limit w = (.error e, w')) :
    e.isStore = true ∧ faults w'.store < faults w.store := by
  obtain ⟨hresult, hstore⟩ := send_eq store (r.turn start limit) w
  have hsend : (r.turn start limit).send store w = (.error e, w') := hfetched
  rw [hsend] at hresult hstore
  simp only at hresult hstore
  rw [hstore]
  cases hanswer : ((r.turn start limit).answer store w.store).1.result with
  | ok page =>
      rw [hanswer] at hresult
      cases hresult
  | error text =>
      rw [hanswer] at hresult
      cases hresult
      exact ⟨rfl, h.fault start limit w.store text hlimit hanswer⟩

/-- What reading page by page may come to: items, of which those wanted are the wanted ones of
`all`, or a fault. -/
def Brings (faults : σ → Nat) (limits : PageLimits) (all : List Item) (w : World σ) :
    Except Error (List Item) × World σ → Prop
  | (.ok got, w') => limits.cut got = limits.cut all ∧ faults w'.store ≤ faults w.store
  | (.error e, w') => e.isStore = true ∧ faults w'.store < faults w.store

/-- **Pages put together** hold what was collected before and the matching records behind the
start. -/
theorem collect_spec (h : l.ServedBy store r faults) {limits : PageLimits}
    (hlimits : ∀ most, limits.perCall = some most → 1 ≤ most) (start : Option Item)
    (calls : Nat) (sofar : List Item) (w : World σ) :
    Brings faults limits (sofar ++ matching (l.behind start)) w
      ((r.pager store).collect none limits.collector start calls sofar w) := by
  have hnext : ∀ n most, limits.next n = some most → 1 ≤ most := fun n most hmost =>
    PageLimits.one_le_next hlimits hmost
  -- the induction follows the calls; `sofar` and what is behind `start` stay all items together
  fun_induction Pager.collect (r.pager store) none limits.collector start calls sofar w with
  | case1 start calls sofar w late => cases late
  | case2 start calls sofar w late e w' fetched =>
      exact fault_of_fetched h (hnext sofar.length) fetched
  | case3 start calls sofar w late page w' fetched got full =>
      obtain ⟨⟨n, hshows⟩, hfaults⟩ := shows_of_fetched h (hnext sofar.length) fetched
      refine ⟨?_, hfaults⟩
      have hall : ∃ more, sofar ++ matching (l.behind start) = got ++ more := by
        cases hkey : page.next? with
        | none => exact ⟨[], by rw [hshows.last hkey, List.append_nil]; rfl⟩
        | some key =>
            exact ⟨_, by rw [hshows.split hkey, ← List.append_assoc]; rfl⟩
      obtain ⟨more, hmore⟩ := hall
      rw [hmore, PageLimits.cut_append full]
  | case4 start calls sofar w late page w' fetched got full next =>
      obtain ⟨⟨n, hshows⟩, hfaults⟩ := shows_of_fetched h (hnext sofar.length) fetched
      refine ⟨?_, hfaults⟩
      rw [hshows.last next]
      rfl
  | case5 start calls sofar w late page w' fetched got full key next lower ih =>
      obtain ⟨⟨n, hshows⟩, hfaults⟩ := shows_of_fetched h (hnext sofar.length) fetched
      have hall : sofar ++ matching (l.behind start) = got ++ matching (l.behind (some key)) := by
        rw [hshows.split next, ← List.append_assoc]
        rfl
      rw [hall]
      revert ih
      rcases (r.pager store).collect none limits.collector (some key) (calls + 1) got w'
        with ⟨outcome, w''⟩
      intro ih
      cases outcome with
      | ok items => exact ⟨ih.1, Nat.le_trans ih.2 hfaults⟩
      | error e => exact ⟨ih.1, Nat.lt_of_lt_of_le ih.2 hfaults⟩

/-- **The items behind a key** are the matching records there, as many as are wanted, unless a
fault comes between. -/
theorem items_spec (h : l.ServedBy store r faults) {limits : PageLimits}
    (hlimits : ∀ most, limits.perCall = some most → 1 ≤ most) (start : Option Item)
    (w : World σ) :
    ((r.pager store).items none limits start w).1 = .ok (limits.cut (matching (l.behind start))) ∨
      ∃ e, ((r.pager store).items none limits start w).1 = .error e ∧ e.isStore = true ∧
        faults ((r.pager store).items none limits start w).2.store < faults w.store := by
  have hbrings := collect_spec h hlimits start 0 [] w
  unfold Pager.items
  rcases hcollect : (r.pager store).collect none limits.collector start 0 [] w with ⟨outcome, w'⟩
  rw [hcollect] at hbrings
  simp only
  cases outcome with
  | ok got =>
      refine Or.inl ?_
      rw [show limits.cut (matching (l.behind start)) = limits.cut got from hbrings.1.symm]
      rfl
  | error e => exact Or.inr ⟨e, rfl, hbrings.1, hbrings.2⟩

end Listing

/-! ### A library -/

namespace Library

/-- A library that is closed answers nothing.  One that is open for some calls says what it answers
to these. -/
def closed {σ : Type} : Store σ where
  query _ s := ({ result := .error "closed" }, s)
  scan _ s := ({ result := .error "closed" }, s)
  scanSegment _ s := ({ result := .error (.reported "closed") }, s)
  getItem _ s := ({ result := .error "closed" }, s)
  batchGet _ s := ({ result := .error "closed" }, s)
  batchWrite _ s := ({ result := .error "closed" }, s)
  update _ s := ({ result := .error "closed" }, s)
  rank _ _ _ := 0
  rank_query _ _ _ _ _ _ hok _ := by cases hok
  rank_scan _ _ _ _ _ _ hok _ := by cases hok
  rank_scanSegment _ _ _ _ _ _ hok _ := by cases hok

end Library

end Keyspace
