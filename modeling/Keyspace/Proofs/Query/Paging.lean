import Keyspace.Proofs.Cursor.RoundTrip
import Keyspace.Proofs.Query.Prepared
import Keyspace.Proofs.Read.Listing
/-!
# Reading on from cursors

A query can be run page by page: each page that is not the last one comes with a cursor, and the
same query with that cursor brings the next page.  Nothing is kept between the pages but the
cursor.  If the store lists some records for the request, and its keys are made of texts, numbers
and byte strings, the pages together hold what the query without a limit reads at once.

Main definitions:

* `Keyspace.IsKey` — the keys that stores hand out;
* `Keyspace.Listing.PagedBy` — a store that shows a listing without faults;
* `Keyspace.Store.Settles` — a store that no call takes further away from its end;
* `Keyspace.Query.resumed` — a query with the cursor of a page;
* `Keyspace.Query.Paging` — a query run page by page.

Main results:

* `Keyspace.Query.prepare_startAt` — a cursor changes nothing but the start of a read;
* `Keyspace.PreparedRead.page_of_listing` — one page of a listing;
* `Keyspace.Query.Paging.unique` — running page by page has one outcome;
* `Keyspace.Query.exists_paging` — **the pages behind a start**;
* `Keyspace.Query.pages_hold_everything` — the pages hold what is read at once.
-/

set_option autoImplicit false

namespace Keyspace

variable {σ α β : Type}

/-! ### Keys -/

/-- Whether a value can be part of a key. -/
def Value.isKeyValue : Value → Bool
  | .text _ | .number _ | .binary _ => true
  | _ => false

/-- **The keys that stores hand out**: texts, numbers and byte strings by their names. -/
structure IsKey (key : Item) : Prop where
  sorted : Dict.Sorted key
  values : ∀ e ∈ key, e.2.isKeyValue = true

/-- The values of a key are known and flat, and no nulls. -/
theorem entries_of_isKeyValue : ∀ key : Item, (∀ e ∈ key, e.2.isKeyValue = true) →
    Value.entriesKnown key = true ∧ Value.entriesOrdered key = true ∧
      Value.presentNullsOfEntries key = key ∧ Value.nestingOfEntries key = 0
  | [], _ => ⟨rfl, rfl, rfl, rfl⟩
  | (name, v) :: rest, h => by
      obtain ⟨hknown, hordered, hpresent, hnesting⟩ :=
        entries_of_isKeyValue rest fun e he => h e (List.mem_cons_of_mem _ he)
      have hv : v.isKeyValue = true := h (name, v) List.mem_cons_self
      cases v with
      | text | number | binary =>
          simp [Value.entriesKnown, Value.entriesOrdered, Value.presentNullsOfEntries,
            Value.nestingOfEntries, Value.isKnown, Value.isOrdered, Value.presentNulls,
            Value.nesting, hknown, hordered, hpresent, hnesting]
      | _ => cases hv

/-- **Cursors carry the keys of stores unchanged.** -/
theorem IsKey.portable {key : Item} (h : IsKey key) (hne : key ≠ []) : Cursor.Portable key := by
  obtain ⟨hknown, hordered, hpresent, hnesting⟩ := entries_of_isKeyValue key h.values
  refine ⟨hne, hknown, h.sorted, hordered, hpresent, ?_⟩
  rw [hnesting]
  decide

/-- The key that a page ends with is not empty. -/
theorem Page.ne_nil_of_next {page : Page} {key : Item} (h : page.next? = some key) : key ≠ [] := by
  rintro rfl
  simp [Page.next?, Option.filter_eq_some_iff] at h

/-- The text of a cursor is not empty. -/
theorem Cursor.ne_empty_of_encode {key : Item} {shape : Fingerprint} {text : String}
    (h : Cursor.encode key shape = .ok text) : text ≠ "" := by
  rintro rfl
  have hbytes : (envelope key shape).toJson.toBytes = [] := by
    have hdecode := Bytes.Base64.decode_encode Bytes.Base64.urlSafe_lawful
      (envelope key shape).toJson.toBytes
    rw [← (encode_eq h).2] at hdecode
    exact (Option.some.inj hdecode).symm
  have hread := Json.outline_ofBytes? (Envelope.isSpelt_toJson (e := envelope key shape)
    isLiteral_version (membersSpelt_envelope key shape))
  have hnone : Json.Outline.ofBytes? [] = none := rfl
  rw [hbytes, hnone] at hread
  cases hread

/-! ### Stores -/

/-- **A store shows a listing without faults**, and its keys are made of texts, numbers and byte
strings. -/
structure Listing.PagedBy (l : Listing) (store : Store σ) (r : PageRequest) : Prop where
  served : l.ServedBy store r fun _ => 0
  isKey : ∀ (start : Option Item) (limit : Option Int) (s : σ) (page : Page) (key : Item),
    ((r.turn start limit).answer store s).1.result = .ok page → page.next? = some key → IsKey key

/-- **A store that no call takes further away from the end** of the pages of its request. -/
def Store.Settles (store : Store σ) : Prop :=
  ∀ (r : PageRequest) (start key : Option Item) (limit : Option Int) (s : σ),
    store.rank r.toRequest key ((r.turn start limit).answer store s).2 ≤
      store.rank r.toRequest key s

/-! ### Trying again -/

/-- **What a policy makes of an action is one of its tries**, in a world to which the tries before
it have led. -/
theorem RetryPolicy.run_eq_try (policy : RetryPolicy) (operation : Operation)
    (isEmpty : β → Bool) (action : Action σ β) {I : World σ → Prop}
    (htry : ∀ w d, I w → policy.wantsMore isEmpty (action w).1 = true → I ((action w).2.sleep d))
    {w : World σ} (h : I w) :
    ∃ w', I w' ∧ policy.run none operation isEmpty action w = action w' := by
  have hfrom : ∀ left w, I w →
      ∃ w', I w' ∧ policy.runFrom none operation isEmpty action left w = action w' := by
    intro left
    induction left with
    | zero => exact fun w h => ⟨w, h, rfl⟩
    | succ left ih =>
        intro w h
        by_cases hmore : policy.wantsMore isEmpty (action w).1 = true
        · obtain ⟨w', hw', heq⟩ := ih _ (htry w (policy.pause (policy.max - (left + 1))) h hmore)
          refine ⟨w', hw', ?_⟩
          rw [← heq]
          exact if_pos hmore
        · exact ⟨w, h, if_neg hmore⟩
  exact hfrom policy.max w h

/-! ### One page -/

/-- A prepared read from another start. -/
def PreparedRead.startingAt (p : PreparedRead) (start : Option Item) : PreparedRead :=
  { p with read := { p.read with start := start } }

@[simp] theorem PreparedRead.startingAt_start (p : PreparedRead) (start : Option Item) :
    (p.startingAt start).read.start = start := rfl

@[simp] theorem PreparedRead.startingAt_fingerprint (p : PreparedRead) (start : Option Item) :
    (p.startingAt start).read.fingerprint = p.read.fingerprint := rfl

/-- **One page of a listing**: it shows records behind the start, its key can be carried by a
cursor, and fewer pages are left behind that key. -/
theorem PreparedRead.page_of_listing {l : Listing} {store : Store σ} {p : PreparedRead}
    (h : l.PagedBy store p.request) (hdeadline : p.deadline = none)
    (hsettles : p.retry.onEmpty = true → store.Settles)
    (hlimit : ∀ most, p.read.limit.or p.pageSize = some most → 1 ≤ most) (w : World σ) :
    ∃ page w' n, p.page store w = (.ok page, w') ∧
      l.Shows p.read.start (p.read.limit.or p.pageSize) page n ∧
      ∀ key, page.next? = some key →
        IsKey key ∧ store.rank p.request.toRequest (some key) w'.store <
          store.rank p.request.toRequest p.read.start w.store := by
  let limit := p.read.limit.or p.pageSize
  let fetch := (p.request.pager store).fetch p.read.start limit
  -- a store without faults brings a page to every try
  have hfetch : ∀ w, ∃ page w', fetch w = (.ok page, w') := by
    intro w
    rcases hfetched : fetch w with ⟨outcome, w'⟩
    cases outcome with
    | ok page => exact ⟨page, w', rfl⟩
    | error e =>
        exact absurd (Listing.fault_of_fetched h.served hlimit hfetched).2 (Nat.lt_irrefl 0)
  obtain ⟨w₁, hrank, hrun⟩ := RetryPolicy.run_eq_try p.retry p.request.operation
    (fun page : Page => page.items.isEmpty) fetch
    (I := fun w₁ => ∀ key,
      store.rank p.request.toRequest key w₁.store ≤ store.rank p.request.toRequest key w.store)
    (fun w₁ d hrank hmore key => by
      obtain ⟨page, w₂, hpage⟩ := hfetch w₁
      have honEmpty : p.retry.onEmpty = true := by
        rw [hpage] at hmore
        exact (Bool.and_eq_true_iff.1 hmore).1
      have hstore : (fetch w₁).2.store =
          ((p.request.turn p.read.start limit).answer store w₁.store).2 :=
        (Listing.send_eq store _ w₁).2
      show store.rank p.request.toRequest key (fetch w₁).2.store ≤ _
      rw [hstore]
      exact Nat.le_trans (hsettles honEmpty _ p.read.start key limit w₁.store) (hrank key))
    (w := w) (fun _ => Nat.le_refl _)
  obtain ⟨page, w', hpage⟩ := hfetch w₁
  obtain ⟨⟨n, hshows⟩, -⟩ := Listing.shows_of_fetched h.served hlimit hpage
  refine ⟨page, w', n, ?_, hshows, fun key hkey => ⟨?_, ?_⟩⟩
  · rw [PreparedRead.page, hdeadline]
    exact hrun.trans hpage
  · refine h.isKey p.read.start limit w₁.store page key ?_ hkey
    have hanswer := (Listing.send_eq store (p.request.turn p.read.start limit) w₁).1
    rw [show (p.request.turn p.read.start limit).send store w₁ = (.ok page, w') from hpage]
      at hanswer
    exact storeError_eq_ok hanswer.symm
  · have hlower := (p.request.pager store).rank_fetch p.read.start limit w₁ page key
      (by rw [show (p.request.pager store).fetch p.read.start limit w₁ = (.ok page, w') from hpage])
      hkey
    rw [show (p.request.pager store).fetch p.read.start limit w₁ = (.ok page, w') from hpage]
      at hlower
    exact Nat.lt_of_lt_of_le hlower (hrank p.read.start)

/-! ### Queries with cursors -/

namespace Query

/-- **A query that is run page by page**: as it is for the first page, and then with the cursor of
the page before. -/
def resumed (q : Query) : Option String → Query
  | none => q
  | some cursor => q.startAt cursor

/-- A query without a cursor, planned and not yet resumed. -/
def planned (q : Query) : Except Error Read :=
  q.conditions.parts.bind fun parts =>
    (q.planOf parts.1).bind fun plan =>
      if q.consistent && plan.index.kind = .globalIndex then
        .error (.invalid (.consistentGlobalIndex plan.index.name))
      else
        .ok { plan, fragments := parts.2, projection := q.projection, order := q.order
              limit := q.limit, consistent := q.consistent
              segments := if plan.isScan then q.segments else 1 }

/-- **The cursor of a query comes last.** -/
theorem build_eq (q : Query) : q.build = q.planned.bind (resume q.cursor) := by
  unfold build planned
  simp only [bind, Except.bind]
  cases q.conditions.parts with
  | error e => rfl
  | ok parts =>
      simp only
      cases q.planOf parts.1 with
      | error e => rfl
      | ok plan => simp only; split <;> rfl

/-- **The limit of a query changes nothing else in its read.** -/
theorem planned_limit (q : Query) (limit : Option Int) :
    ({ q with limit } : Query).planned = q.planned.map fun r => { r with limit } := by
  have hplanOf : ∀ cs, ({ q with limit } : Query).planOf cs = q.planOf cs := fun _ => rfl
  unfold planned
  simp only [hplanOf]
  cases q.conditions.parts with
  | error e => rfl
  | ok parts =>
      simp only [Except.bind]
      cases q.planOf parts.1 with
      | error e => rfl
      | ok plan => simp only; split <;> rfl

/-- The read of a query without a cursor starts where everything starts. -/
theorem start_of_planned {q : Query} {r : Read} (h : q.planned = .ok r) : r.start = none := by
  unfold planned at h
  cases hparts : q.conditions.parts with
  | error e => rw [hparts] at h; cases h
  | ok parts =>
      rw [hparts] at h
      simp only [Except.bind] at h
      cases hplan : q.planOf parts.1 with
      | error e => rw [hplan] at h; cases h
      | ok plan =>
          rw [hplan] at h
          simp only at h
          split at h
          · cases h
          · rw [← Except.ok.inj h]

theorem prepare_eq (q : Query) :
    q.prepare = q.build.bind fun read => read.compile.map fun expressions =>
      { read, expressions, retry := q.retry, deadline := q.deadline, pageSize := q.pageSize } := by
  unfold prepare
  simp only [bind, Except.bind]
  cases q.build with
  | error e => rfl
  | ok r => simp only; cases r.compile <;> rfl

/-- What a query is prepared as, if that passes a test. -/
theorem exists_prepare_of_any {q : Query} {f : PreparedRead → Bool}
    (h : q.prepare.toOption.any f = true) : ∃ p, q.prepare = .ok p ∧ f p = true := by
  cases hp : q.prepare with
  | error e => rw [hp] at h; cases h
  | ok p => exact ⟨p, rfl, by rwa [hp] at h⟩

theorem prepare_limit {q : Query} (hcursor : q.cursor = none) (limit : Option Int) :
    ({ q with limit } : Query).prepare =
      q.prepare.map fun p => { p with read := { p.read with limit } } := by
  rw [prepare_eq, prepare_eq, build_eq, build_eq, planned_limit, hcursor]
  cases q.planned with
  | error e => rfl
  | ok r =>
      have hcompile : ({ r with limit } : Read).compile = r.compile := rfl
      simp only [Except.map, Except.bind, resume, hcompile]
      cases r.compile <;> rfl

theorem planned_of_prepare {q : Query} {p : PreparedRead} (hp : q.prepare = .ok p)
    (hcursor : q.cursor = none) : q.planned = .ok p.read := by
  have hbuild := (prepare_spec hp).1
  rw [build_eq, hcursor] at hbuild
  cases hplanned : q.planned with
  | error e => rw [hplanned] at hbuild; cases hbuild
  | ok r => rw [hplanned] at hbuild; exact hbuild

/-- A planned query did not fail. -/
theorem failed_of_planned {q : Query} {r : Read} (h : q.planned = .ok r) : q.failed = false := by
  cases herror : q.conditions.error with
  | none => simp [failed, ConditionSet.failed, herror]
  | some e =>
      have hparts : q.conditions.parts = .error e := by rw [ConditionSet.parts, herror]
      rw [planned, hparts] at h
      cases h

/-- A query takes a cursor as it is. -/
theorem startAt_of_encode {q : Query} (hfailed : q.failed = false) {key : Item}
    {shape : Fingerprint} {text : String} (htext : Cursor.encode key shape = .ok text) :
    q.startAt text = { q with cursor := some text } := by
  have hempty : text.isEmpty = false := by
    rw [String.isEmpty_eq_false_iff]
    exact Cursor.ne_empty_of_encode htext
  rw [startAt, attempt, hfailed]
  simp [hempty]

/-- **A cursor changes nothing but the start of a read.** -/
theorem prepare_startAt {q : Query} {p : PreparedRead} (hp : q.prepare = .ok p)
    (hcursor : q.cursor = none) (hparallel : p.read.isParallel = false) {key : Item}
    (hkey : Cursor.Portable key) {text : String}
    (htext : Cursor.encode key p.read.fingerprint = .ok text) :
    (q.startAt text).prepare = .ok (p.startingAt (some key)) := by
  have hplanned := planned_of_prepare hp hcursor
  obtain ⟨-, hcompile, hretry, hdeadline, hpageSize⟩ := prepare_spec hp
  have hquery := startAt_of_encode (failed_of_planned hplanned) htext
  have hdecode : Cursor.decode text p.read.fingerprint = .ok key := by
    have hblank : Text.isBlankText "" = true := rfl
    have hread := Cursor.read_of_encode hkey htext hblank hblank p.read.fingerprint
    rw [String.empty_append, String.append_empty, if_pos rfl] at hread
    rw [Cursor.decode, hread]
    rfl
  have hresume : resume (some text) p.read = .ok { p.read with start := some key } := by
    simp only [resume, hparallel, hdecode]
    rfl
  have hbuild : (q.startAt text).build = .ok { p.read with start := some key } := by
    rw [hquery, build_eq]
    show q.planned.bind (resume (some text)) = _
    rw [hplanned]
    exact hresume
  have hcompiled : ({ p.read with start := some key } : Read).compile = .ok p.expressions :=
    hcompile
  rw [prepare_eq, hbuild, PreparedRead.startingAt, hquery]
  simp only [Except.bind, hcompiled, Except.map, ← hretry, ← hdeadline, ← hpageSize]

/-! ### Page by page -/

/-- **A query run page by page**, from a cursor on: the pages up to the first that has none behind
it, or the error that comes before. -/
inductive Paging (q : Query) (m : Model α) (store : Store σ) :
    Option String → World σ → Except Error (List (ResultPage α)) → Prop
  /-- The page fails. -/
  | failed {cursor : Option String} {w w' : World σ} {e : Error} :
      (q.resumed cursor).page m store w = (.error e, w') → Paging q m store cursor w (.error e)
  /-- The page is the last one. -/
  | last {cursor : Option String} {w w' : World σ} {page : ResultPage α} :
      (q.resumed cursor).page m store w = (.ok page, w') → page.hasMore = false →
        Paging q m store cursor w (.ok [page])
  /-- There are more pages, behind the cursor of this one. -/
  | more {cursor : Option String} {w w' : World σ} {page : ResultPage α} {next : String}
      {rest : Except Error (List (ResultPage α))} :
      (q.resumed cursor).page m store w = (.ok page, w') → page.hasMore = true →
        page.next = some next → Paging q m store (some next) w' rest →
          Paging q m store cursor w (rest.map (page :: ·))

/-- **Running page by page has one outcome.** -/
theorem Paging.unique {q : Query} {m : Model α} {store : Store σ} {cursor : Option String}
    {w : World σ} {x y : Except Error (List (ResultPage α))} (hx : q.Paging m store cursor w x)
    (hy : q.Paging m store cursor w y) : x = y := by
  induction hx generalizing y with
  | failed hpage =>
      cases hy with
      | failed hpage' => rw [hpage] at hpage'; cases hpage'; rfl
      | last hpage' => rw [hpage] at hpage'; cases hpage'
      | more hpage' => rw [hpage] at hpage'; cases hpage'
  | last hpage hlast =>
      cases hy with
      | failed hpage' => rw [hpage] at hpage'; cases hpage'
      | last hpage' => rw [hpage] at hpage'; cases hpage'; rfl
      | more hpage' hmore => rw [hpage] at hpage'; cases hpage'; rw [hlast] at hmore; cases hmore
  | more hpage hmore hnext hrest ih =>
      cases hy with
      | failed hpage' => rw [hpage] at hpage'; cases hpage'
      | last hpage' hlast => rw [hpage] at hpage'; cases hpage'; rw [hlast] at hmore; cases hmore
      | more hpage' _ hnext' hrest' =>
          rw [hpage] at hpage'
          cases hpage'
          rw [hnext] at hnext'
          cases hnext'
          rw [ih hrest']

theorem cursorAfter_of_last {r : Read} {page : Page} (h : page.next? = none) :
    cursorAfter r page = .ok none := by
  rw [cursorAfter, h]
  rfl

theorem cursorAfter_of_next {r : Read} {page : Page} {key : Item} {text : String}
    (h : page.next? = some key) (htext : Cursor.encode key r.fingerprint = .ok text) :
    cursorAfter r page = .ok (some text) := by
  rw [cursorAfter, h]
  show (some <$> Cursor.encode key r.fingerprint) = _
  rw [htext]
  rfl

/-- Without segments a page comes from one call. -/
theorem page_eq {q : Query} {p : PreparedRead} (hp : q.prepare = .ok p)
    (hparallel : p.read.isParallel = false) (m : Model α) {store : Store σ} {w w' : World σ}
    {page : Page} (hpage : p.page store w = (.ok page, w')) :
    q.page m store w =
      ((cursorAfter p.read page).bind fun next => (m.decodeAll page.items).map fun values =>
        { values, count := page.count, scanned := page.scanned, next }, w') := by
  unfold Query.page run
  simp only [hp, hparallel, Bool.false_eq_true, if_false, reading, hpage, bind, Except.bind]
  cases cursorAfter p.read page with
  | error e => rfl
  | ok next => simp only; cases m.decodeAll page.items <;> rfl

end Query

/-- Items are decoded one after the other. -/
theorem Model.decodeAll_append (m : Model α) (xs ys : List Item) :
    m.decodeAll (xs ++ ys) =
      (m.decodeAll xs).bind fun us => (m.decodeAll ys).map fun vs => us ++ vs := by
  unfold Model.decodeAll
  rw [List.mapM_append]
  cases xs.mapM m.decode with
  | error e => rfl
  | ok us => simp only [bind, Except.bind]; cases ys.mapM m.decode <;> rfl

namespace Query

/-- **The pages behind a start** hold the matching records there. -/
theorem exists_paging {q : Query} {p : PreparedRead} (hp : q.prepare = .ok p)
    (hcursor : q.cursor = none) (hdeadline : q.deadline = none)
    (hlimit : ∀ most, q.limit.or q.pageSize = some most → 1 ≤ most)
    (hparallel : p.read.isParallel = false) {l : Listing} {store : Store σ}
    (hpaged : l.PagedBy store p.request) (hsettles : q.retry.onEmpty = true → store.Settles)
    (m : Model α) (start : Option Item) (cursor : Option String) (w : World σ)
    (hresumed : (q.resumed cursor).prepare = .ok (p.startingAt start)) :
    ∃ outcome, q.Paging m store cursor w outcome ∧
      outcome.map (List.flatMap ResultPage.values) =
        m.decodeAll (Listing.matching (l.behind start)) := by
  -- the induction is on the pages that may still come; each page brings them down
  induction hrank : store.rank p.request.toRequest start w.store using Nat.strongRecOn
    generalizing start cursor w with
  | ind rank ih =>
      obtain ⟨-, -, hretry, hpdeadline, hsize⟩ := prepare_spec hp
      have hreadLimit : p.read.limit = q.limit := by
        obtain ⟨plan, start, -, hread⟩ := build_spec (prepare_spec hp).1
        rw [hread]
      obtain ⟨page, w', n, hpage, hshows, hkeys⟩ :=
        PreparedRead.page_of_listing (p := p.startingAt start) hpaged (hpdeadline.trans hdeadline)
          (by rw [show (p.startingAt start).retry = q.retry from hretry]; exact hsettles)
          (by
            rw [show (p.startingAt start).read.limit = q.limit from hreadLimit,
              show (p.startingAt start).pageSize = q.pageSize from hsize]
            exact hlimit) w
      rw [PreparedRead.startingAt_start] at hshows hkeys
      have hrun := page_eq hresumed hparallel m hpage
      cases hkey : page.next? with
      | none =>
          rw [cursorAfter_of_last hkey] at hrun
          rw [hshows.last hkey]
          cases hvalues : m.decodeAll page.items with
          | error e =>
              rw [hvalues] at hrun
              exact ⟨.error e, .failed hrun, rfl⟩
          | ok values =>
              rw [hvalues] at hrun
              exact ⟨_, .last hrun rfl, by simp [Except.map]⟩
      | some key =>
          obtain ⟨hisKey, hlower⟩ := hkeys key hkey
          have hportable := hisKey.portable (Page.ne_nil_of_next hkey)
          obtain ⟨text, htext⟩ :=
            Cursor.encode_of_portable hportable (p.startingAt start).read.fingerprint
          rw [cursorAfter_of_next hkey htext] at hrun
          rw [PreparedRead.startingAt_fingerprint] at htext
          rw [hshows.split hkey, Model.decodeAll_append]
          cases hvalues : m.decodeAll page.items with
          | error e =>
              rw [hvalues] at hrun
              exact ⟨.error e, .failed hrun, rfl⟩
          | ok values =>
              rw [hvalues] at hrun
              obtain ⟨rest, hrest, hall⟩ := ih _ (hrank ▸ hlower) (some key) (some text) w'
                (prepare_startAt hp hcursor hparallel hportable htext) rfl
              refine ⟨_, .more hrun rfl rfl hrest, ?_⟩
              rw [← hall]
              cases rest <;> rfl

/-! ### Page by page and at once -/

/-- All items of a listing without faults, whether or not an empty result is tried again. -/
theorem all_of_listing {q : Query} {p : PreparedRead} (hp : q.prepare = .ok p)
    (hlimit : p.read.limit = none) (hdeadline : q.deadline = none)
    (hpageSize : ∀ most, q.pageSize = some most → 1 ≤ most)
    (hparallel : p.read.isParallel = false) {l : Listing} {store : Store σ}
    (hserved : l.ServedBy store p.request fun _ => 0) (m : Model α) (w : World σ) :
    (q.all m store w).1 = m.decodeAll (Listing.matching (l.behind p.read.start)) := by
  obtain ⟨-, -, -, hpdeadline, hsize⟩ := prepare_spec hp
  let fetch := (p.request.pager store).items none (p.limits none) p.read.start
  have hfetch : ∀ w, (fetch w).1 = .ok (Listing.matching (l.behind p.read.start)) := by
    intro w
    have hperCall : ∀ most, (p.limits none).perCall = some most → 1 ≤ most := by
      rw [show (p.limits none).perCall = q.pageSize from hsize]
      exact hpageSize
    rcases Listing.items_spec hserved hperCall p.read.start w with hok | ⟨e, -, -, hfewer⟩
    · exact hok
    · exact absurd hfewer (Nat.lt_irrefl 0)
  obtain ⟨w', -, hrun⟩ := RetryPolicy.run_eq_try p.retry p.request.operation
    List.isEmpty fetch (I := fun _ => True) (fun _ _ _ _ => trivial)
    (w := w) trivial
  have hitems : (p.items store none w).1 = .ok (Listing.matching (l.behind p.read.start)) := by
    rw [← hfetch w', ← hrun, PreparedRead.items, hpdeadline, hdeadline]
  rw [all_eq hp hparallel, hlimit, reading_fst]
  exact congrArg (Except.bind · m.decodeAll) hitems

/-- **The pages hold what is read at once**: running a query page by page ends, and its pages
together hold all values of the query without a limit, or both have the same error. -/
theorem pages_hold_everything {q : Query} {store : Store σ} {l : Listing}
    (hcursor : q.cursor = none) (hdeadline : q.deadline = none)
    (hlimit : ∀ most, q.limit = some most → 1 ≤ most)
    (hpageSize : ∀ most, q.pageSize = some most → 1 ≤ most)
    (hparallel : ∀ p, q.prepare = .ok p → p.read.isParallel = false)
    (hpaged : ∀ p, q.prepare = .ok p → l.PagedBy store p.request)
    (hsettles : q.retry.onEmpty = true → store.Settles) (m : Model α) (w : World σ) :
    ∃ outcome, q.Paging m store none w outcome ∧
      (∀ other, q.Paging m store none w other → other = outcome) ∧
      (∀ w' : World σ, outcome.map (List.flatMap ResultPage.values) =
        (({ q with limit := none } : Query).all m store w').1) ∧
      ∀ pages, outcome = .ok pages → ∀ page ∈ pages, page.hasMore = true ↔ page.next ≠ none := by
  have hunlimited := prepare_limit hcursor none
  have hmore : ∀ page : ResultPage α, page.hasMore = true ↔ page.next ≠ none := fun page =>
    Option.isSome_iff_ne_none
  cases hp : q.prepare with
  | error e =>
      rw [hp] at hunlimited
      have hfails : q.Paging m store none w (.error e) := by
        have hpage : q.page m store w = (.error e, w) := by simp only [Query.page, run, hp]
        exact .failed hpage
      refine ⟨.error e, hfails, fun other h => h.unique hfails, fun w' => ?_,
        fun pages h => by cases h⟩
      simp only [Query.all, run, hunlimited, Except.map]
  | ok p =>
      rw [hp] at hunlimited
      have hsize : ∀ most, q.limit.or q.pageSize = some most → 1 ≤ most := by
        intro most hmost
        cases hcases : q.limit with
        | none => rw [hcases] at hmost; exact hpageSize most hmost
        | some bound => rw [hcases] at hmost; exact hlimit most (hcases.trans hmost)
      have hstart : p.read.start = none := start_of_planned (planned_of_prepare hp hcursor)
      obtain ⟨outcome, hpaging, hvalues⟩ := exists_paging hp hcursor hdeadline hsize
        (hparallel p hp) (hpaged p hp) hsettles m none none w (by
          rw [show p.startingAt none = p by rw [PreparedRead.startingAt, ← hstart]]
          exact hp)
      refine ⟨outcome, hpaging, fun other h => h.unique hpaging, fun w' => ?_,
        fun pages _ page _ => hmore page⟩
      rw [hvalues, ← hstart]
      exact (all_of_listing hunlimited rfl hdeadline hpageSize (hparallel p hp)
        (hpaged p hp).served m w').symm

end Query

/-! ### A library -/

namespace Library

/-- The catalogue has three entries, the second of which does not match.  A key names an entry by
as many letters as there are entries up to it. -/
def catalogue : Listing where
  records := [⟨[("owner", .text "a")], true⟩, ⟨[("owner", .text "aa")], false⟩,
    ⟨[("owner", .text "aaa")], true⟩]
  position
    | [(_, .text name)] => name.length
    | _ => 0

/-- The key of an entry. -/
def entryKey (n : Nat) : Item := [("owner", .text (String.ofList (List.replicate n 'a')))]

/-- The page with the next entry. -/
def nextEntry (start : Option Item) : Page :=
  { items := Listing.matching ((catalogue.behind start).take 1)
    count := 1
    scanned := 1
    last :=
      if 1 < (catalogue.behind start).length then some (entryKey (catalogue.offset start + 1))
      else none }

theorem next_nextEntry {start : Option Item} {key : Item}
    (h : (nextEntry start).next? = some key) :
    1 < (catalogue.behind start).length ∧ key = entryKey (catalogue.offset start + 1) := by
  unfold nextEntry at h
  split at h
  · next hmore =>
      simp only [Page.next?, Option.filter_eq_some_iff, Option.some.injEq] at h
      exact ⟨hmore, h.1.symm⟩
  · cases h

theorem position_entryKey (n : Nat) : catalogue.position (entryKey n) = n := by
  show (String.ofList (List.replicate n 'a')).length = n
  simp

theorem length_behind_nextEntry {start : Option Item} {key : Item}
    (h : (nextEntry start).next? = some key) :
    (catalogue.behind (some key)).length < (catalogue.behind start).length := by
  obtain ⟨hmore, rfl⟩ := next_nextEntry h
  unfold Listing.behind at hmore ⊢
  rw [List.length_drop] at hmore
  rw [List.length_drop, List.length_drop, Listing.offset, position_entryKey]
  omega

/-- The store of the catalogue shows one entry at a time, and nothing else. -/
def entries : Store Unit :=
  { closed with
    query := fun r s => ({ result := .ok (nextEntry r.start) }, s)
    scan := fun r s => ({ result := .ok (nextEntry r.start) }, s)
    rank := fun _ start _ => (catalogue.behind start).length
    rank_query := fun _ _ _ _ _ _ hok hnext => by cases hok; exact length_behind_nextEntry hnext
    rank_scan := fun _ _ _ _ _ _ hok hnext => by cases hok; exact length_behind_nextEntry hnext
    rank_scanSegment := fun _ _ _ _ _ _ hok _ => by cases hok }

theorem nextEntry_shows (start : Option Item) {limit : Option Int}
    (hlimit : ∀ most, limit = some most → 1 ≤ most) :
    catalogue.Shows start limit (nextEntry start) (min 1 (catalogue.behind start).length) where
  bound := Nat.min_le_right _ _
  advances hsome := by
    have hpos := List.length_pos_iff.2 hsome
    omega
  limited most hmost := by
    have hone := hlimit most hmost
    omega
  items := by
    show Listing.matching ((catalogue.behind start).take 1) = _
    rw [List.take_eq_take_min]
  remains hmore := by
    unfold nextEntry
    rw [if_pos (by omega)]
    rfl
  key key hkey := by
    obtain ⟨hmore, rfl⟩ := next_nextEntry hkey
    rw [position_entryKey]
    omega

theorem answer_entries (r : PageRequest) (start : Option Item) (limit : Option Int) (s : Unit) :
    (r.turn start limit).answer entries s = ({ result := .ok (nextEntry start) }, s) := by
  cases r <;> rfl

theorem catalogue_paged (r : PageRequest) : catalogue.PagedBy entries r where
  served :=
    { page := by
        intro start limit s page hlimit hok
        rw [answer_entries] at hok
        cases hok
        exact ⟨⟨_, nextEntry_shows start hlimit⟩, Nat.le_refl 0⟩
      fault := by
        intro start limit s text _ herror
        rw [answer_entries] at herror
        cases herror }
  isKey := by
    intro start limit s page key hok hnext
    rw [answer_entries] at hok
    cases hok
    obtain ⟨-, rfl⟩ := next_nextEntry hnext
    exact ⟨List.pairwise_singleton _ _, by simp [entryKey, Value.isKeyValue]⟩

/-- All entries that are not filtered out, one at a time. -/
def allEntries : Query :=
  { schema := { table := "library", partitionKey := "owner" }, limit := some 1
    retry := { max := 1, onEmpty := true } }

end Library

/-- The entries of the catalogue, read page by page; the second page is empty. -/
theorem library_pages_hold_everything :
    ∃ pages : List (ResultPage Datum),
      Library.allEntries.Paging (.dynamic "library" Library.allEntries.schema) Library.entries none
        { store := () } (.ok pages) ∧
      pages.flatMap ResultPage.values =
        [.map [(.text "owner", .text "a")], .map [(.text "owner", .text "aaa")]] := by
  obtain ⟨p, hp, hstart, hparallel⟩ : ∃ p, Library.allEntries.prepare = .ok p ∧
      p.read.start = none ∧ p.read.isParallel = false := ⟨_, rfl, rfl, rfl⟩
  have hsettles : Library.entries.Settles := fun r start key limit s => Nat.le_refl _
  obtain ⟨outcome, hpaging, -, hall, -⟩ := Query.pages_hold_everything (q := Library.allEntries)
    (l := Library.catalogue) rfl rfl
    (by intro most hmost; cases hmost; decide) (by intro most hmost; cases hmost)
    (by intro p' hp'; rw [hp] at hp'; cases hp'; exact hparallel)
    (fun p' _ => Library.catalogue_paged p'.request) (fun _ => hsettles)
    (.dynamic "library" Library.allEntries.schema) { store := () }
  have hvalues := hall { store := () }
  rw [Query.all_of_listing (p := { p with read := { p.read with limit := none } })
    ((Query.prepare_limit rfl none).trans (by rw [hp]; rfl)) rfl rfl
    (by intro most hmost; cases hmost) hparallel (Library.catalogue_paged _).served] at hvalues
  rw [hstart] at hvalues
  cases outcome with
  | error e => cases hvalues
  | ok pages => exact ⟨pages, hpaging, Except.ok.inj hvalues⟩

end Keyspace
