import Keyspace.Handle
import Keyspace.Proofs.Query.Deadline
import Keyspace.Proofs.World.Unsent
/-!
# Nothing is sent that is wrong

What is wrong with a query, an update or a batch in itself is found before its first call, whichever
way it is run: a call that fails with a local error leaves the world as it was.  A batch is put
together as a whole before any of it is sent, so one key that does not fit, or one value that cannot
be written, stops all of it.  Only a page may fail later, if the store tells a key that no cursor
can hold.

Main definitions:

* `Keyspace.Store.TellsKnownKeys` — a store whose pages end with keys that cursors can hold;
* `Keyspace.Key.Fits` — a key has a value for each key attribute.

Main results:

* `Keyspace.PreparedRead.items_avoids` and so on — reads have no local errors;
* `Keyspace.Query.all_refusesFirst` and so on — **a query that is wrong is not sent**;
* `Keyspace.Handle.batchGet_of_unfit`, `Keyspace.Handle.batchWrite_of_unfit` — one wrong element
  stops a batch;
* `Keyspace.local_errors_are_not_sent` — **local errors come before the first call**.
-/

set_option autoImplicit false

namespace Keyspace

variable {σ α β : Type}

/-! ### Reads -/

namespace PreparedRead

variable (p : PreparedRead) (store : Store σ)

section

variable {e : Error} (he : e.isLocal = true)
include he

theorem items_avoids (cap : Option Nat) : (p.items store cap).Avoids e :=
  .retry he (Pager.items_avoids he (PageRequest.fetch_avoids he store p.request) _ _) _ _ _

theorem page_avoids : (p.page store).Avoids e :=
  .retry he (PageRequest.fetch_avoids he store p.request _ _) _ _ _

theorem count_avoids : (p.count store).Avoids e :=
  .retry he (Pager.count_avoids he (PageRequest.fetch_avoids he store p.countRequest) _ _) _ _ _

theorem item_avoids (key : Item) : (p.item store key).Avoids e :=
  .retry he (.call _ (storeError_ne_local he .getItem)) _ _ _

/-- The failures of segments are not local errors. -/
theorem segmented_failures_ne_local {r : ScanRequest} (hr : p.request = .scan r) (segments : Int)
    {w : World σ} {s : Segmented Item} (h : (p.segmented store segments w).1 = .ok s) :
    ∀ f ∈ s.failures, f.error ≠ e := by
  rw [(failures_of_segmented hr store segments h).2]
  refine ScanRequest.forall_failures_segmented (P := fun cause => cause ≠ e) store r p.retry
    p.pageSize ?_ ?_
  · rintro k v - cause herror rfl
    exact mapError_segmentError_ne_local he k _ herror
  · rintro k rfl
    cases he

end

/-- **A read in segments** is refused if it is for a key, and else has no local errors. -/
theorem segmented_refusesFirst (segments : Int) : (p.segmented store segments).RefusesFirst := by
  cases hr : p.request with
  | query r =>
      intro w e _ _
      simp [segmented, hr]
  | scan r =>
      intro w e herror he
      cases hlate : w.elapsed p.deadline with
      | true => rw [segmented_late hr store segments hlate]
      | false =>
          rw [segmented_early hr store segments hlate] at herror
          cases herror

end PreparedRead

/-! ### Keys of pages -/

/-- A page ends with a key that a cursor can hold, unless it is the last. -/
def Page.TellsKnownKey (page : Page) : Prop := ∀ key, page.next? = some key → key.isKnown = true

/-- **A store whose pages end with keys that cursors can hold**, as long as it is in some states. -/
structure Store.TellsKnownKeys (store : Store σ) (Known : σ → Prop) : Prop where
  query : ∀ r s, Known s → Known (store.query r s).2 ∧
    ∀ page, (store.query r s).1.result = .ok page → page.TellsKnownKey
  scan : ∀ r s, Known s → Known (store.scan r s).2 ∧
    ∀ page, (store.scan r s).1.result = .ok page → page.TellsKnownKey

namespace Store.TellsKnownKeys

variable {store : Store σ} {Known : σ → Prop} (h : store.TellsKnownKeys Known)
include h

theorem fetch (r : PageRequest) (start : Option Item) (limit : Option Int) :
    ((r.pager store).fetch start limit).Yields Known Page.TellsKnownKey := by
  intro w hw
  cases r with
  | query q =>
      obtain ⟨hstate, hpage⟩ := h.query _ w.store hw
      exact ⟨hstate, fun page hok => hpage page (storeError_eq_ok hok)⟩
  | scan q =>
      obtain ⟨hstate, hpage⟩ := h.scan _ w.store hw
      exact ⟨hstate, fun page hok => hpage page (storeError_eq_ok hok)⟩

/-- The page of a read ends with such a key. -/
theorem page (p : PreparedRead) : (p.page store).Yields Known Page.TellsKnownKey :=
  (h.fetch p.request _ _).retry _ _ _ _

end Store.TellsKnownKeys

/-! ### Queries -/

namespace Query

variable (q : Query) {m : Model α} (hm : m.FailsAsMarshal) (store : Store σ)

section

include hm

theorem all_refusesFirst : (q.all m store).RefusesFirst := by
  refine .run fun p _ => .reading ?_ fun _ items _ e he => hm.decodeAll_ne_local he items
  split
  · next hparallel =>
      have hscan : p.read.plan.isScan = true := (Bool.and_eq_true_iff.1 hparallel).1
      obtain ⟨r, hr⟩ := PreparedRead.exists_request_of_isScan hscan
      refine (p.segmented_refusesFirst store _).reading fun w s hs e he herror => ?_
      unfold Segmented.toExcept at herror
      split at herror
      · cases herror
      · next failure rest hfailures =>
          exact p.segmented_failures_ne_local store he hr _ hs failure
            (by rw [hfailures]; exact List.mem_cons_self) (Except.error.inj herror)
  · exact .of_avoids fun e he => p.items_avoids store he _

theorem first_refusesFirst : (q.first m store).RefusesFirst := by
  refine .run fun p _ => .reading ?_ fun _ item _ e he => hm.decodeOption_ne_local he item
  split
  · exact .of_avoids fun e he => p.item_avoids store he _
  · exact .of_avoids fun e he => (p.items_avoids store he _).reading fun _ => by simp

theorem segmented_refusesFirst (segments : Int) :
    (q.segmented m store segments).RefusesFirst := by
  refine .run fun p _ => (p.segmented_refusesFirst store segments).reading ?_
  intro _ s _ e he
  exact bind_ne_error (hm.decodeAll_ne_local he s.items) fun values => by simp

/-- **A page that is refused** has done nothing, or the key with which it ends has no cursor. -/
theorem page_refused {w : World σ} {e : Error} (herror : (q.page m store w).1 = .error e)
    (he : e.isLocal = true) :
    (q.page m store w).2 = w ∨ e = .cursor .unknownValue ∧
      ∃ p page, (PreparedRead.page p store w).1 = .ok page ∧ ¬page.TellsKnownKey := by
  cases hprepare : q.prepare with
  | error cause => exact .inl (by simp [page, run, hprepare])
  | ok p =>
      cases hparallel : p.read.isParallel with
      | true => exact .inl (by simp [page, run, hprepare, hparallel])
      | false =>
          simp only [page, run, hprepare, hparallel, Bool.false_eq_true, if_false] at herror
          obtain ⟨page, hpage, hresult⟩ := (p.page_avoids store he).exists_of_reading herror
          cases hcursor : cursorAfter p.read page with
          | error cause =>
              rw [hcursor] at hresult
              obtain rfl : cause = e := Except.error.inj hresult
              obtain ⟨hunknown, key, hnext, hkey⟩ := cursorAfter_error hcursor
              refine .inr ⟨hunknown, p, page, hpage, fun htells => ?_⟩
              rw [htells key hnext] at hkey
              cases hkey
          | ok next =>
              rw [hcursor] at hresult
              refine absurd hresult (bind_ne_error (by simp) fun _ => ?_)
              exact bind_ne_error (hm.decodeAll_ne_local he page.items) fun values => by simp

end

theorem count_refusesFirst : (q.count store).RefusesFirst :=
  .run fun p _ => .of_avoids fun _ he => p.count_avoids store he

end Query

/-! ### Updates -/

namespace Update

variable (u : Update) {m : Model α} (store : Store σ)

theorem execute_refusesFirst (hm : m.FailsAsMarshal) : (u.execute m store).RefusesFirst := by
  unfold execute
  cases u.compile with
  | error cause => exact .nothing cause
  | ok r =>
      refine .reading (.of_avoids fun e he => ?_) fun _ item _ e he =>
        hm.decodeOption_ne_local he item
      exact .before he (.call _ (storeError_ne_local he .updateItem)) _ _

/-- **An update makes one call at most**, and that is for its own request. -/
theorem execute_sent (m : Model α) (w : World σ) :
    (u.execute m store w).2.sent = w.sent ∨
      ∃ r, u.compile = .ok r ∧
        (u.execute m store w).2.sent = w.sent ++ [⟨w.now, .update r⟩] := by
  unfold execute
  cases hcompile : u.compile with
  | error cause => exact .inl rfl
  | ok r =>
      cases hlate : w.elapsed u.deadline with
      | true => exact .inl (by simp [RetryPolicy.before, hlate])
      | false => exact .inr ⟨r, rfl, by simp [RetryPolicy.before, hlate, send]⟩

end Update

/-! ### Batches -/

namespace Batch

variable {e : Error} (he : e.isLocal = true) (store : Store σ) (config : Config)
  (deadline : Option Nat)
include he

/-- A batch of writes ends with a timeout or a remainder, if it fails. -/
theorem write_avoids (table : String) (writes : List Write) :
    Action.Avoids e (write store config table writes deadline) := by
  intro w herror
  unfold write at herror
  split at herror
  · cases herror
  · exact Error.timeout_ne_of_isLocal he _ _ (Except.error.inj herror)
  · obtain rfl := Except.error.inj herror
    cases he

/-- A batch of reads ends with a timeout or a remainder, if it fails. -/
theorem get_avoids (t : GetTemplate) (keys : List Item) :
    Action.Avoids e (get store config t keys deadline) := by
  intro w herror
  unfold get at herror
  split at herror
  · cases herror
  · exact Error.timeout_ne_of_isLocal he _ _ (Except.error.inj herror)
  · obtain rfl := Except.error.inj herror
    cases he

end Batch

/-- **A key fits a table** if it has a sort value exactly where the table has a sort key. -/
def Key.Fits (k : Key) (s : TableSchema) : Prop := k.sort.isSome = s.sortKey.isSome

instance (k : Key) (s : TableSchema) : Decidable (k.Fits s) :=
  inferInstanceAs (Decidable (k.sort.isSome = s.sortKey.isSome))

theorem Key.toItem_of_not_fits {k : Key} {s : TableSchema} (h : ¬k.Fits s) :
    ∃ e, k.toItem s = .error e := by
  unfold Fits at h
  unfold toItem
  split
  · next hsort hvalue => simp [hsort, hvalue] at h
  · exact ⟨_, rfl⟩
  · exact ⟨_, rfl⟩
  · next hsort hvalue => simp [hsort, hvalue] at h

/-- **One element that is wrong stops all of them**, wherever it stands. -/
theorem mapM_error_of_mem {f : α → Except Error β} {xs : List α} {x : α} (hx : x ∈ xs)
    (h : ∃ e, f x = .error e) : ∃ e, xs.mapM f = .error e := by
  induction xs with
  | nil => cases hx
  | cons y rest ih =>
      rw [List.mapM_cons]
      cases hy : f y with
      | error cause => exact ⟨cause, rfl⟩
      | ok b =>
          rcases List.mem_cons.1 hx with rfl | hx
          · obtain ⟨e, he⟩ := h
            rw [hy] at he
            cases he
          · obtain ⟨e, he⟩ := ih hx
            exact ⟨e, by rw [he]; rfl⟩

namespace Handle

variable (h : Handle) {m : Model α} (store : Store σ) (keys : List Key) (values : List α)
  (projection : List String) (deadline : Option Nat)

theorem batchGet_refusesFirst (hm : m.FailsAsMarshal) :
    (h.batchGet m store keys projection deadline).RefusesFirst := by
  intro w e herror he
  unfold batchGet at herror ⊢
  split at herror
  · rfl
  · next s items hitems =>
      have hget := Batch.get_avoids he store h.config deadline
        { table := s.table, projection := (Compiler.empty.projection projection).1
          consistent := false } items w
      refine absurd herror (bind_ne_error hget fun summary => ?_)
      exact bind_ne_error (hm.decodeAll_ne_local he summary.value) fun _ => by simp

theorem batchWrite_refusesFirst (m : Model α) :
    (h.batchWrite m store values keys deadline).RefusesFirst := by
  intro w e herror he
  unfold batchWrite at herror ⊢
  split at herror
  · rfl
  · next s writes hwrites =>
      exact absurd herror (Batch.write_avoids he store h.config deadline s.table writes w)

/-- **A key that does not fit stops a batch of reads**, wherever it stands. -/
theorem batchGet_of_unfit {k : Key} (hk : k ∈ keys)
    (hunfit : ∀ s, h.schema m = .ok s → ¬k.Fits s) (w : World σ) :
    ∃ e, h.batchGet m store keys projection deadline w = (.error e, w) := by
  have hitems : ∃ e, h.keyItems m keys = .error e := by
    unfold keyItems
    cases hs : h.schema m with
    | error cause => exact ⟨cause, rfl⟩
    | ok s =>
        obtain ⟨e, he⟩ := mapM_error_of_mem (f := fun key : Key => key.toItem s) hk
          (Key.toItem_of_not_fits (hunfit s hs))
        exact ⟨e, by simp [he, bind, Except.bind]⟩
  obtain ⟨e, he⟩ := hitems
  exact ⟨e, by simp [batchGet, he]⟩

/-- **A value that cannot be written, or a key that does not fit, stops a batch of writes**,
wherever it stands. -/
theorem batchWrite_of_unfit
    (hunfit : (∃ v ∈ values, ∃ e, m.encode v = .error e) ∨
      ∃ k ∈ keys, ∀ s, h.schema m = .ok s → ¬k.Fits s) (w : World σ) :
    ∃ e, h.batchWrite m store values keys deadline w = (.error e, w) := by
  have hwrites : ∃ e, h.writes m values keys = .error e := by
    unfold writes
    cases hs : h.schema m with
    | error cause => exact ⟨cause, rfl⟩
    | ok s =>
        cases hvalues : values.mapM m.encode with
        | error cause => exact ⟨cause, rfl⟩
        | ok items =>
            rcases hunfit with ⟨v, hv, hencode⟩ | ⟨k, hk, hfits⟩
            · obtain ⟨e, he⟩ := mapM_error_of_mem hv hencode
              rw [hvalues] at he
              cases he
            · obtain ⟨e, he⟩ := mapM_error_of_mem (f := fun key : Key => key.toItem s) hk
                (Key.toItem_of_not_fits (hfits s hs))
              exact ⟨e, by simp [he, bind, Except.bind]⟩
  obtain ⟨e, he⟩ := hwrites
  exact ⟨e, by simp [batchWrite, he]⟩

end Handle

/-! ### Everything together -/

/-- **Local errors come before the first call.**  Whichever way a query, an update or a batch is
run, it leaves the world as it was if it fails with a local error; only the key with which a page
ends may have no cursor.  An update makes one call at most, and one element that is wrong stops a
batch. -/
theorem local_errors_are_not_sent (h : Handle) (q : Query) (u : Update) {m : Model α}
    (hm : m.FailsAsMarshal) (store : Store σ) (segments : Int) (keys : List Key) (values : List α)
    (projection : List String) (deadline : Option Nat) :
    (q.all m store).RefusesFirst ∧ (q.first m store).RefusesFirst ∧
      (q.count store).RefusesFirst ∧ (q.segmented m store segments).RefusesFirst ∧
      -- a page, of a store that tells keys which cursors can hold, and of any store
      (∀ Known, store.TellsKnownKeys Known → ∀ w, Known w.store → ∀ e,
        (q.page m store w).1 = .error e → e.isLocal = true → (q.page m store w).2 = w) ∧
      (∀ w e, (q.page m store w).1 = .error e → e.isLocal = true →
        (q.page m store w).2 = w ∨ e = .cursor .unknownValue) ∧
      -- an update, and the calls that it makes
      (u.execute m store).RefusesFirst ∧
      (∀ w, (u.execute m store w).2.sent = w.sent ∨ ∃ r, u.compile = .ok r ∧
        (u.execute m store w).2.sent = w.sent ++ [⟨w.now, .update r⟩]) ∧
      -- batches, and what stops them
      (h.batchGet m store keys projection deadline).RefusesFirst ∧
      (h.batchWrite m store values keys deadline).RefusesFirst ∧
      ((∃ k ∈ keys, ∀ s, h.schema m = .ok s → ¬k.Fits s) → ∀ w, ∃ e,
        h.batchGet m store keys projection deadline w = (.error e, w)) ∧
      ((∃ v ∈ values, ∃ e, m.encode v = .error e) ∨
          (∃ k ∈ keys, ∀ s, h.schema m = .ok s → ¬k.Fits s) → ∀ w, ∃ e,
        h.batchWrite m store values keys deadline w = (.error e, w)) := by
  refine ⟨q.all_refusesFirst hm store, q.first_refusesFirst hm store, q.count_refusesFirst store,
    q.segmented_refusesFirst hm store segments, ?_, ?_, u.execute_refusesFirst store hm,
    u.execute_sent store m, h.batchGet_refusesFirst store keys projection deadline hm,
    h.batchWrite_refusesFirst store keys values deadline m, ?_, ?_⟩
  · intro Known hknown w hw e herror he
    obtain hsame | ⟨-, p, page, hpage, htells⟩ := q.page_refused hm store herror he
    · exact hsame
    · exact absurd ((hknown.page p w hw).2 page hpage) htells
  · intro w e herror he
    exact (q.page_refused hm store herror he).imp_right And.left
  · rintro ⟨k, hk, hunfit⟩ w
    exact h.batchGet_of_unfit store keys projection deadline hk hunfit w
  · intro hunfit w
    exact h.batchWrite_of_unfit store keys values deadline hunfit w

/-! ### Scripted stores -/

/-- The page that an entry answers a query or a scan with. -/
def ScriptEntry.page? : ScriptEntry → Option Page
  | .query ⟨_, .ok page⟩ => some page
  | .scan ⟨_, .ok page⟩ => some page
  | _ => none

namespace Script

/-- The pages of a script end with keys that cursors can hold. -/
def IsKnown (s : Script) : Prop := ∀ e ∈ s, ∀ page, e.page? = some page → page.TellsKnownKey

theorem take_sublist {α : Type} (pick : ScriptEntry → Option α) (s : Script) :
    (take pick s).2.Sublist s := by
  induction s with
  | nil => exact .slnil
  | cons e rest ih =>
      unfold take
      split
      · exact List.sublist_cons_self _ _
      · exact ih.cons_cons e

/-- What is taken from a known script, and what remains. -/
theorem takeD_known {pick : ScriptEntry → Option (Reply String Page)}
    (hpick : ∀ e reply page, pick e = some reply → reply.result = .ok page →
      e.page? = some page) {s : Script} (hs : s.IsKnown) :
    IsKnown (takeD pick emptyPage s).2 ∧
      ∀ page, (takeD pick emptyPage s).1.result = .ok page → page.TellsKnownKey := by
  refine ⟨fun e he => hs e ((take_sublist pick s).subset he), fun page hok => ?_⟩
  have hfirst := (take_eq pick s).1
  unfold takeD at hok
  cases htaken : (take pick s).1 with
  | none =>
      simp only [htaken, Option.getD_none, Except.ok.injEq] at hok
      subst hok
      rintro key ⟨⟩
  | some reply =>
      simp only [htaken, Option.getD_some] at hok
      rw [htaken] at hfirst
      obtain ⟨e, he, hreply⟩ := List.mem_filterMap.1 (List.mem_of_mem_head? hfirst.symm)
      exact hs e he page (hpick e reply page hreply hok)

/-- **A known script answers with known keys.** -/
theorem store_tellsKnownKeys : Script.store.TellsKnownKeys IsKnown where
  query _ s hs := by
    refine takeD_known (fun e reply page hreply hok => ?_) hs
    cases e with
    | query r =>
        obtain rfl := Option.some.inj hreply
        obtain ⟨delay, result⟩ := r
        obtain rfl : result = .ok page := hok
        rfl
    | _ => cases hreply
  scan _ s hs := by
    refine takeD_known (fun e reply page hreply hok => ?_) hs
    cases e with
    | scan r =>
        obtain rfl := Option.some.inj hreply
        obtain ⟨delay, result⟩ := r
        obtain rfl : result = .ok page := hok
        rfl
    | _ => cases hreply

end Script

/-! ### A library -/

namespace Library

/-- Loans from a place that nobody can read. -/
def misread : Query := { loans with cursor := some "?" }

/-- The keys of two loans, of which the second has a title, although owners have one loan each. -/
def mixedKeys : List Key := [⟨.text "ann", none⟩, ⟨.text "bob", some (.text "emma")⟩]

/-- A loan, and something that is none. -/
def mixedLoans : List Datum := [.map [(.text "owner", .text "eve")], .text "emma"]

theorem loanReplies_known : Script.IsKnown loanReplies := by
  intro e he page hpage
  rcases List.mem_cons.1 he with rfl | he
  · obtain rfl := Option.some.inj hpage
    rintro key ⟨⟩
    decide
  · obtain rfl := List.mem_singleton.1 he
    cases hpage

end Library

/-- Loans are not read from a cursor that is none, and neither read nor stored if the last of their
keys or values is wrong. -/
theorem library_sends_nothing_that_is_wrong :
    let m := Model.dynamic "loans" Library.loans.schema
    m.FailsAsMarshal ∧ Script.store.TellsKnownKeys Script.IsKnown ∧
      Script.IsKnown Library.loanReplies ∧
      (∃ e, (Library.misread.page m Script.store { store := Library.loanReplies }).1 = .error e ∧
        e.isCursor = true) ∧
      (Library.misread.page m Script.store { store := Library.loanReplies }).2 =
        { store := Library.loanReplies } ∧
      ∀ w : World Script,
        (∃ e, Handle.batchGet {} m Script.store Library.mixedKeys [] none w = (.error e, w)) ∧
        ∃ e, Handle.batchWrite {} m Script.store Library.mixedLoans [] none w = (.error e, w) := by
  intro m
  have hm : m.FailsAsMarshal := Model.dynamic_failsAsMarshal "loans" Library.loans.schema
  have hwrong : ∃ e, (Library.misread.page m Script.store { store := Library.loanReplies }).1 =
      .error e ∧ e.isCursor = true := ⟨.cursor .notBase64, rfl, rfl⟩
  obtain ⟨-, -, -, -, hpage, -, -, -, -, -, hget, hwrite⟩ := local_errors_are_not_sent {}
    Library.misread Library.renewal hm Script.store 1 Library.mixedKeys Library.mixedLoans [] none
  refine ⟨hm, Script.store_tellsKnownKeys, Library.loanReplies_known, hwrong, ?_, fun w => ⟨?_, ?_⟩⟩
  · obtain ⟨e, herror, he⟩ := hwrong
    exact hpage _ Script.store_tellsKnownKeys _ Library.loanReplies_known e herror
      (by simp [Error.isLocal, he])
  · refine hget ⟨_, List.mem_cons_of_mem _ List.mem_cons_self, fun s hs => ?_⟩ w
    obtain rfl : Library.loans.schema = s := Except.ok.inj hs
    decide
  · exact hwrite (.inl ⟨.text "emma", List.mem_cons_of_mem _ List.mem_cons_self, _, rfl⟩) w

end Keyspace
