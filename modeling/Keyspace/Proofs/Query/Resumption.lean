import Keyspace.Handle
import Keyspace.Proofs.Builder.Update
import Keyspace.Proofs.Query.Deadline
import Keyspace.Proofs.Query.Refusals
/-!
# Going on from a cursor

A query with a cursor goes on where the cursor says, whichever way it is run, or sends nothing at
all.  That is a matter of the first request: the requests after it start where the pages before them
end.

Main definitions:

* `Keyspace.Request.start?` — where a request starts;
* `Keyspace.World.OpenedSince`, `Keyspace.Action.Opens` — the first request has a property;
* `Keyspace.Query.Resumes` — a query goes on from a cursor, or is not sent.

Main results:

* `Keyspace.Action.Opens.retry`, `Keyspace.Pager.collect_opens` — **the first call opens a loop**;
* `Keyspace.Query.start_of_build` — the read of a query with a cursor;
* `Keyspace.cursors_are_resumed` — **a cursor is not ignored**, unless everything is read in one
  segment;
* `Keyspace.library_scan_starts_over` — a scan in one segment starts over.
-/

set_option autoImplicit false

namespace Keyspace

variable {σ α β : Type}

/-! ### The first request -/

/-- The key behind which a request starts, if it asks for a page of some. -/
def Request.start? : Request → Option Item
  | .query r => r.start
  | .scan r => r.start
  | _ => none

/-- Something was sent between two worlds, and the first of it has a property. -/
def World.OpenedSince (P : Request → Prop) (w w' : World σ) : Prop :=
  ∃ first more, w'.sent = w.sent ++ first :: more ∧ P first.request

namespace World.OpenedSince

variable {P : Request → Prop} {w w₁ w₂ : World σ}

theorem call {ε : Type} {r : Request} (answer : σ → Reply ε α × σ) (h : P r) :
    w.OpenedSince P (w.call r answer).2 := ⟨⟨w.now, r⟩, [], rfl, h⟩

/-- What is sent later does not matter. -/
theorem trans {Q : Sent → Prop} (h₁ : w.OpenedSince P w₁) (h₂ : w₁.SentSince Q w₂) :
    w.OpenedSince P w₂ := by
  obtain ⟨first, more, hsent, hfirst⟩ := h₁
  obtain ⟨later, hlater, -⟩ := h₂
  refine ⟨first, more ++ later, ?_, hfirst⟩
  rw [hlater, hsent, List.append_assoc, List.cons_append]

end World.OpenedSince

/-- An action adds to what was sent, and if it begins before a deadline it sends something, the
first of which has a property. -/
structure Action.Begun (deadline : Option Nat) (P : Request → Prop) (a : Action σ α) : Prop where
  early : ∀ w : World σ, w.elapsed deadline = false → w.OpenedSince P (a w).2
  sends : Action.SendsBefore deadline (fun _ => True) a

/-- **The first request of an action has a property**, unless a deadline has passed; then nothing is
done. -/
structure Action.Opens (deadline : Option Nat) (P : Request → Prop) (a : Action σ α) : Prop where
  early : ∀ w : World σ, w.elapsed deadline = false → w.OpenedSince P (a w).2
  late : ∀ w : World σ, w.elapsed deadline = true →
    ∃ operation, a w = (.error (.timeout operation 0), w)

variable {deadline : Option Nat} {P : Request → Prop}

/-- **The first try opens all of them.** -/
theorem Action.Opens.retry {a : Action σ α} (h : a.Begun deadline P) (p : RetryPolicy)
    (operation : Operation) (isEmpty : α → Bool) :
    Action.Opens deadline P (p.run deadline operation isEmpty a) where
  early w hearly := by
    unfold RetryPolicy.run
    cases p.max with
    | zero =>
        unfold RetryPolicy.runFrom
        rw [RetryPolicy.before_early operation _ a hearly]
        exact h.early w hearly
    | succ left =>
        unfold RetryPolicy.runFrom
        simp only [RetryPolicy.before_early operation _ a hearly]
        split
        · have hpause : ∀ duration,
              (a w).2.SentSince (fun _ => True) ((a w).2.sleep duration) :=
            fun _ => World.SentSince.of_eq rfl
          exact (h.early w hearly).trans ((hpause _).trans (Action.Sends.retryFrom h.sends _ _))
        · exact h.early w hearly
  late w hlate := ⟨operation, p.run_late operation isEmpty a hlate⟩

/-- What is made of an outcome does not matter. -/
theorem Action.Opens.reading {a : Action σ α} (h : a.Opens deadline P) (f : α → Except Error β) :
    Action.Opens deadline P (Query.reading f a) where
  early := h.early
  late w hlate := by
    obtain ⟨operation, htimeout⟩ := h.late w hlate
    exact ⟨operation, by simp [Query.reading, htimeout, Except.bind]⟩

namespace Pager

variable {p : Pager σ} {start : Option Item}

/-- **The first page opens all of them.** -/
theorem collect_opens (h : ∀ limit, (p.fetch start limit).Begun deadline P)
    (hsends : ∀ start limit, (p.fetch start limit).SendsBefore deadline fun _ => True)
    (c : Collector β) (calls : Nat) (sofar : β) {w : World σ}
    (hearly : w.elapsed deadline = false) :
    w.OpenedSince P (p.collect deadline c start calls sofar w).2 := by
  have hfirst : w.OpenedSince P (p.fetch start (c.limit sofar) w).2 := (h _).early w hearly
  unfold Pager.collect
  rw [if_neg (by simp [hearly])]
  split
  · next e w' fetched => rwa [fetched] at hfirst
  · next page w' fetched =>
      rw [fetched] at hfirst
      simp only
      split
      · exact hfirst
      · split
        · exact hfirst
        · exact hfirst.trans (collect_sends hsends c _ _ _ _)

end Pager

/-! ### Reads -/

namespace PreparedRead

/-- The calls for pages add to what was sent. -/
theorem pager_begun (deadline : Option Nat) (store : Store σ) (r : PageRequest) :
    ∀ start limit, ((r.pager store).fetch start limit).SendsBefore deadline fun _ => True :=
  pager_sends store fun _ _ _ _ => trivial

/-- The call for a page sends the request for it first. -/
theorem fetch_begun (store : Store σ) (r : PageRequest) (start : Option Item)
    (limit : Option Int) :
    ((r.pager store).fetch start limit).Begun deadline fun request => request.start? = start where
  early w _ := by
    cases r with
    | query q => exact World.OpenedSince.call (store.query _) rfl
    | scan q => exact World.OpenedSince.call (store.scan _) rfl
  sends := pager_begun deadline store r start limit

variable (p : PreparedRead) (store : Store σ)

theorem items_opens (cap : Option Nat) :
    (p.items store cap).Opens p.deadline fun request => request.start? = p.read.start := by
  have hsends := pager_begun p.deadline store p.request
  refine .retry ⟨fun w hearly => ?_,
    (Pager.items_sends (fun start _ => hsends start _) _).sendsBefore _⟩ _ _ _
  exact Pager.collect_opens (fetch_begun store p.request p.read.start) hsends _ 0 [] hearly

theorem count_opens :
    (p.count store).Opens p.deadline fun request => request.start? = p.read.start := by
  have hsends := pager_begun p.deadline store p.countRequest
  refine .retry ⟨fun w hearly => ?_,
    (Pager.count_sends (fun start => hsends start _) _).sendsBefore _⟩ _ _ _
  exact Pager.collect_opens (fetch_begun store p.countRequest p.read.start) hsends _ 0 0 hearly

theorem page_opens :
    (p.page store).Opens p.deadline fun request => request.start? = p.read.start :=
  .retry (fetch_begun store p.request p.read.start _) _ _ _

/-- A read that starts behind a key is not for one item. -/
theorem pointKey?_of_start {r : Read} {key : Item} (h : r.start = some key) :
    r.pointKey? = none := by
  unfold Read.pointKey?
  rw [if_pos]
  simp [h]

end PreparedRead

/-! ### Queries -/

namespace Query

/-- An error with which a query is not sent: it is wrong, or its cursor cannot be used, or the
deadline has passed, or one of its steps left the error that an operand cannot be written. -/
def Prevents (q : Query) (e : Error) : Prop :=
  e.isValidation = true ∨ e.isCursor = true ∨ e.isTimeout = true ∨
    q.error? = some e ∧ e.isMarshal = true

/-- **A query goes on from a cursor**: the first request starts behind the key that the cursor holds
under the query's own fingerprint, or nothing is sent. -/
def Resumes (q : Query) (text : String) (a : Action σ β) : Prop :=
  ∀ w : World σ,
    (∃ r key, q.build = .ok r ∧ Cursor.decode text r.fingerprint = .ok key ∧
      w.OpenedSince (fun request => request.start? = some key) (a w).2) ∨
    ∃ e, a w = (.error e, w) ∧ q.Prevents e

/-- The read of a query with a cursor starts behind the key of the cursor, and has one segment. -/
theorem start_of_build {q : Query} {text : String} {r : Read} (hcursor : q.cursor = some text)
    (h : q.build = .ok r) :
    r.isParallel = false ∧ ∃ key, r.start = some key ∧
      Cursor.decode text r.fingerprint = .ok key := by
  rw [build_eq, hcursor] at h
  obtain ⟨r', -, hresume⟩ := bind_eq_ok h
  unfold resume at hresume
  simp only at hresume
  split at hresume
  · cases hresume
  · next hparallel =>
    obtain ⟨key, hkey, hr⟩ := bind_eq_ok hresume
    cases hr
    exact ⟨Bool.eq_false_iff.2 hparallel, key, rfl, hkey⟩

/-- A query whose error, if it has one, says that something is wrong in itself or that an operand
cannot be written. -/
def Proper (q : Query) : Prop :=
  ∀ e, q.error? = some e → e.isValidation = true ∨ e.isMarshal = true

/-- A query that is not sent is wrong, or its cursor cannot be used, or an operand cannot be
written. -/
theorem Proper.prevents {q : Query} (hq : q.Proper) {e : Error} (h : q.prepare = .error e) :
    q.Prevents e := by
  obtain herror | hvalid | hcursor := Query.prepare_error h
  · obtain hvalid | hmarshal := hq e herror
    · exact .inl hvalid
    · exact .inr (.inr (.inr ⟨herror, hmarshal⟩))
  · exact .inl hvalid
  · exact .inr (.inl hcursor)

theorem run_of_prepared {q : Query} {p : PreparedRead} (hp : q.prepare = .ok p)
    (action : PreparedRead → Action σ β) (w : World σ) : q.run action w = action p w := by
  unfold run
  rw [hp]

/-- **A query goes on from its cursor** if its prepared read opens where it starts. -/
theorem run_resumes {q : Query} {text : String} (hq : q.Proper) (hcursor : q.cursor = some text)
    {action : PreparedRead → Action σ β}
    (h : ∀ p key, p.read.start = some key → p.read.isParallel = false →
      (action p).Opens p.deadline fun request => request.start? = some key) :
    q.Resumes text (q.run action) := by
  intro w
  unfold run
  cases hp : q.prepare with
  | error e => exact .inr ⟨e, rfl, hq.prevents hp⟩
  | ok p =>
      obtain ⟨hbuild, -⟩ := prepare_spec hp
      obtain ⟨hparallel, key, hstart, hdecode⟩ := start_of_build hcursor hbuild
      have hopens := h p key hstart hparallel
      cases hlate : w.elapsed p.deadline with
      | false => exact .inl ⟨p.read, key, hbuild, hdecode, hopens.early w hlate⟩
      | true =>
          obtain ⟨operation, htimeout⟩ := hopens.late w hlate
          exact .inr ⟨_, htimeout, .inr (.inr (.inl rfl))⟩

variable {q : Query} {text : String} (hq : q.Proper) (hcursor : q.cursor = some text)
include hq hcursor

theorem all_resumes (m : Model α) (store : Store σ) : q.Resumes text (q.all m store) := by
  refine run_resumes hq hcursor fun p key hstart hparallel => .reading ?_ _
  rw [if_neg (by simp [hparallel]), ← hstart]
  exact p.items_opens store _

theorem first_resumes (m : Model α) (store : Store σ) : q.Resumes text (q.first m store) := by
  refine run_resumes hq hcursor fun p key hstart hparallel => .reading ?_ _
  simp only [PreparedRead.pointKey?_of_start hstart]
  rw [← hstart]
  exact (p.items_opens store _).reading _

theorem count_resumes (store : Store σ) :
    ({ q with projection := [] } : Query).Resumes text (q.count store) := by
  refine run_resumes (q := { q with projection := [] }) hq hcursor fun p key hstart _ => ?_
  rw [← hstart]
  exact p.count_opens store

theorem page_resumes (m : Model α) (store : Store σ) : q.Resumes text (q.page m store) := by
  refine run_resumes hq hcursor fun p key hstart hparallel => ?_
  rw [if_neg (by simp [hparallel]), ← hstart]
  exact (p.page_opens store).reading _

end Query

/-! ### Several segments -/

namespace Query

/-- **A query that is divided into segments** has failed before, or fails because there are none, or
reads everything in that many. -/
theorem inSegments_cases (q : Query) (segments : Int) :
    (∃ e, q.error? = some e ∧ q.scan.inSegments segments = q) ∨
      segments < 1 ∧ q.scan.inSegments segments =
        { q with scans := true }.withError (.invalid (.segmentsNotPositive segments)) ∨
      1 ≤ segments ∧ q.scan.inSegments segments = { q with scans := true, segments } := by
  cases herror : q.error? with
  | some e =>
      have hfailed := failed_of_error herror
      refine .inl ⟨e, rfl, ?_⟩
      rw [scan, attempt_of_failed hfailed, inSegments, attempt_of_failed hfailed]
  | none =>
      have hscan : q.scan = { q with scans := true } := attempts.right q _ herror
      have hnone : ({ q with scans := true } : Query).error? = none := herror
      rw [hscan, inSegments]
      rcases Int.lt_or_le segments 1 with hfew | hmany
      · rw [if_pos hfew]
        exact .inr (.inl ⟨hfew, attempts.wrong _ _ hnone⟩)
      · rw [if_neg (Int.not_lt.2 hmany)]
        exact .inr (.inr ⟨hmany, attempts.right _ _ hnone⟩)

/-- The read of everything in several segments is parallel. -/
theorem isParallel_of_build {q : Query} {segments : Int} (hsegments : 1 < segments) {r : Read}
    (h : ({ q with scans := true, segments } : Query).build = .ok r) : r.isParallel = true := by
  obtain ⟨plan, start, hplan, rfl⟩ := build_spec h
  obtain ⟨i, rfl⟩ := TableSchema.scan_cases hplan
  simp [Read.isParallel, Plan.isScan, TableSchema.scanPlan, hsegments]

/-- **A query with a cursor is not read in several segments.** -/
theorem segmented_prevented {q : Query} {text : String} (hq : q.Proper)
    (hcursor : q.cursor = some text) (m : Model α) (store : Store σ) {segments : Int}
    (hsegments : segments ≠ 1) (w : World σ) :
    ∃ e, q.segmented m store segments w = (.error e, w) ∧ q.Prevents e := by
  obtain ⟨e, herror, -⟩ | ⟨-, hdivided⟩ | ⟨hmany, hdivided⟩ := inSegments_cases q segments
  · refine ⟨e, (refuses_of_error herror).segmented m store segments w, ?_⟩
    exact hq.prevents (refuses_of_error herror).prepare
  · refine ⟨.invalid (.segmentsNotPositive segments), ?_, .inl rfl⟩
    unfold segmented
    rw [hdivided]
    exact run_of_prepare (prepare_of_error rfl) _ w
  · unfold segmented
    rw [hdivided]
    cases hp : ({ q with scans := true, segments } : Query).prepare with
    | error e =>
        have hproper : ({ q with scans := true, segments } : Query).Proper := hq
        exact ⟨e, run_of_prepare hp _ w, hproper.prevents hp⟩
    | ok p =>
        obtain ⟨hbuild, -⟩ := prepare_spec hp
        have hone := (start_of_build (q := { q with scans := true, segments }) hcursor hbuild).1
        rw [isParallel_of_build (by omega) hbuild] at hone
        cases hone

end Query

/-! ### Chains of steps -/

/-- The schema of a model is refused only if it is wrong. -/
theorem Handle.schema_ne_error {e : Error} (he : e.isValidation = false) (h : Handle)
    (m : Model α) : h.schema m ≠ .error e := by
  unfold Handle.schema
  split
  · simp
  · refine bind_ne_error ?_ fun _ => by simp
    unfold TableSchema.validate
    split
    · exact fun h => Error.ne_invalid he _ (Except.error.inj h).symm
    · simp

/-- The query of a model is proper from the start. -/
theorem Handle.query_proper (h : Handle) (m : Model α) : (h.query m).Proper := by
  intro e herror
  unfold Handle.query at herror
  split at herror
  · cases herror
  · next e' hschema =>
    obtain rfl : e' = e := Option.some.inj herror
    exact .inl (kind_of_error (fun _ hother => schema_ne_error hother h m) hschema)

variable {ν : Type} [AsOperand ν]

/-- **A query stays proper** if its operands fail to be written with errors of encoding only. -/
theorem Query.Proper.stepsAt (hoperands : AsOperand.FailsAsMarshal ν) {q : Query} (hq : q.Proper)
    (ss : List (Nat × Query.Step ν)) : (q.stepsAt ss).Proper := by
  intro e herror
  cases hstart : q.error? with
  | some e' =>
      have hsame : q.stepsAt ss = q := takesSteps.stopsAtError.steps_failed hstart ss
      rw [hsame] at herror
      exact hq e herror
  | none =>
      obtain ⟨before, s, after, rfl, hbefore, hs⟩ :=
        takesSteps.stopsAtError.exists_first hstart herror
      obtain hvalid | ⟨value, hvalue⟩ := takesSteps.refuses hbefore hs
      · exact .inl hvalid
      · exact .inr (hoperands value e hvalue)

/-- **A cursor is not ignored.**  For every query of a model, whatever its steps are: all values,
the first one, their number and a page begin behind the key of the cursor, or nothing is sent; and
nothing is sent for the values of several segments.  Only a scan in one segment does not look at
the cursor.  The errors with which nothing is sent are those of `Prevents` if operands fail to be
written with errors of encoding only, as plain data do. -/
theorem cursors_are_resumed (hoperands : AsOperand.FailsAsMarshal ν) (h : Handle) (m : Model α)
    (ss : List (Nat × Query.Step ν)) {text : String}
    (hcursor : ((h.query m).stepsAt ss).cursor = some text) (store : Store σ) (segments : Int) :
    let q := (h.query m).stepsAt ss
    q.Resumes text (q.all m store) ∧ q.Resumes text (q.first m store) ∧
      -- the number is that of whole items, whose cursors are others
      ({ q with projection := [] } : Query).Resumes text (q.count store) ∧
      q.Resumes text (q.page m store) ∧
      (segments ≠ 1 → ∀ w, ∃ e, q.segmented m store segments w = (.error e, w) ∧ q.Prevents e) := by
  intro q
  have hq : q.Proper := (h.query_proper m).stepsAt hoperands ss
  exact ⟨Query.all_resumes hq hcursor m store, Query.first_resumes hq hcursor m store,
    Query.count_resumes hq hcursor store, Query.page_resumes hq hcursor m store,
    fun hsegments => Query.segmented_prevented hq hcursor m store hsegments⟩

/-! ### A library -/

namespace Library

/-- Books that are lent out. -/
def lendings : Model Datum := .dynamic "lendings" { table := "library", partitionKey := "owner" }

/-- Everything is read. -/
def browsing : Query := (Handle.query {} lendings).stepsAt (ν := Datum) [(0, .scan)]

/-- What is read then. -/
def browsed : PreparedRead :=
  { read := { plan := lendings.schema.scanPlan lendings.schema.baseIndex [] }
    expressions := {}, retry := { max := 0 }, deadline := none, pageSize := none }

/-- Where a reader stopped. -/
def bookmark : Item := [("owner", .text "ann")]

/-- The cursor of the bookmark. -/
def ticket : String := (Cursor.encode bookmark browsed.read.fingerprint).toOption.getD ""

theorem encode_bookmark : Cursor.encode bookmark browsed.read.fingerprint = .ok ticket := by
  have hknown : bookmark.isKnown = true := by decide
  unfold ticket Cursor.encode
  rw [if_pos hknown]
  rfl

theorem bookmark_portable : Cursor.Portable bookmark :=
  IsKey.portable ⟨List.pairwise_singleton _ _, by simp [bookmark, Value.isKeyValue]⟩
    (by simp [bookmark])

/-- Everything behind the bookmark is read. -/
def browsingOn : Query :=
  (Handle.query {} lendings).stepsAt (ν := Datum) [(0, .scan), (0, .startAt ticket)]

theorem browsingOn_eq : browsingOn = { browsing with cursor := some ticket } := by
  have hquery : browsingOn = browsing.startAt ticket := rfl
  have hempty : ticket.isEmpty = false :=
    String.isEmpty_eq_false_iff.2 (Cursor.ne_empty_of_encode encode_bookmark)
  rw [hquery, Query.startAt, Query.attempts.right _ _ rfl, hempty]
  rfl

theorem browsingOn_cursor : browsingOn.cursor = some ticket := by rw [browsingOn_eq]

theorem browsingOn_prepare :
    browsingOn.prepare = .ok (browsed.startingAt (some bookmark)) :=
  Query.prepare_startAt (q := browsing) (p := browsed) rfl rfl rfl bookmark_portable encode_bookmark

end Library

/-- A scan that goes on behind the bookmark, and one in two segments that is not sent. -/
theorem library_scan_goes_on :
    Library.browsingOn.cursor = some Library.ticket ∧
      ((Library.browsingOn.page Library.lendings Script.store { store := [] }).2.sent.map
        fun s => s.request.start?) = [some Library.bookmark] ∧
      ∃ e, Library.browsingOn.segmented Library.lendings Script.store 2 { store := [] } =
        (.error e, { store := [] }) ∧ Library.browsingOn.Prevents e := by
  obtain ⟨-, -, -, -, hsegmented⟩ := cursors_are_resumed Datum.failsAsMarshal {}
    Library.lendings
    [(0, .scan), (0, .startAt Library.ticket)] Library.browsingOn_cursor Script.store 2
  refine ⟨Library.browsingOn_cursor, ?_, hsegmented (by decide) _⟩
  rw [Query.page, Query.run_of_prepared Library.browsingOn_prepare]
  rfl

/-- **A scan in one segment starts over.**  The cursor of the query is right, and nobody looks at
it. -/
theorem library_scan_starts_over :
    Library.browsingOn.cursor = some Library.ticket ∧
      Cursor.decode Library.ticket Library.browsed.read.fingerprint = .ok Library.bookmark ∧
      ((Library.browsingOn.segmented Library.lendings Script.store 1 { store := [] }).2.sent.map
        fun s => (s.request.operation, s.request.start?.isNone)) = [(.scan, true)] := by
  obtain ⟨-, key, hstart, hdecode⟩ := Query.start_of_build Library.browsingOn_cursor
    (Query.prepare_spec Library.browsingOn_prepare).1
  have hsame : Library.browsingOn.scan.inSegments 1 = Library.browsingOn := by
    rw [Library.browsingOn_eq]
    rfl
  refine ⟨Library.browsingOn_cursor, ?_, ?_⟩
  · cases hstart
    exact hdecode
  · rw [Query.segmented, hsame, Query.run_of_prepared Library.browsingOn_prepare]
    decide +kernel

end Keyspace
