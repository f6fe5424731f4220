import Keyspace.Proofs.Model.Decoding
import Keyspace.Proofs.Query.Prepared
import Keyspace.Proofs.Read.AnyOrder
import Keyspace.Proofs.World.Deadline
import Keyspace.Update.Basic
/-!
# Deadlines of queries and updates

Whichever way a query is run, it keeps to its deadline, and so does an update; what a model makes
of the items has no part in it.  The workers of a scan in segments keep to it as well, in whatever
order they take their turns.

Main results:

* `Keyspace.PreparedRead.items_keepsTo` and so on — the ways to run a read;
* `Keyspace.PreparedRead.segmented_begun` — no segment fails with a timeout that counts no attempts;
* `Keyspace.calls_keep_to_their_deadline` — **nothing is sent at or after the deadline**.
-/

set_option autoImplicit false

namespace Keyspace

variable {σ α β : Type} {deadline : Option Nat}

/-! ### Reads -/

namespace PreparedRead

variable (p : PreparedRead) (store : Store σ)

theorem items_keepsTo (cap : Option Nat) : (p.items store cap).KeepsTo p.deadline True :=
  (Pager.items_begins (PageRequest.pager_isPrompt store p.request) _ _).retry _ _ _

theorem page_keepsTo : (p.page store).KeepsTo p.deadline True :=
  ((PageRequest.pager_isPrompt store p.request).begins _ _).retry _ _ _

theorem count_keepsTo : (p.count store).KeepsTo p.deadline True :=
  (Pager.count_begins (PageRequest.pager_isPrompt store p.countRequest) _ _).retry _ _ _

theorem item_keepsTo (key : Item) : (p.item store key).KeepsTo p.deadline True :=
  (Action.Begins.call _ (storeError_ne_timeout .getItem)).retry _ _ _

end PreparedRead

/-! ### Segments -/

/-- A worker reports a timeout only if its last try ended with it. -/
theorem mapError_segmentError_ne {segment attempts : Nat} {operation : Operation}
    {outcome : Except Error (List Item)} (h : outcome ≠ .error (.timeout operation attempts)) :
    outcome.mapError (segmentError segment) ≠ .error (.timeout operation attempts) := by
  cases outcome with
  | ok items => simp
  | error e =>
      intro htimeout
      cases e with
      | timeout operation' attempts' => exact h htimeout
      | _ => cases Except.error.inj htimeout

namespace ScanRequest

variable (store : Store σ) (r : ScanRequest) (retry : RetryPolicy) (pageSize : Option Int)

/-- A worker that begins before the deadline makes a call. -/
theorem worker_begun (segments segment : Nat) {w : World σ} (hearly : w.elapsed deadline = false)
    (operation : Operation) : (r.worker store retry deadline pageSize segments segment w).1 ≠
      .error (.timeout operation 0) := by
  have hitems : (((r.forSegment segment segments).pager store segment).items deadline
      { perCall := pageSize } none).Begins deadline :=
    Pager.items_begins (pager_isPrompt store segment _) _ none
  exact mapError_segmentError_ne
    (RetryPolicy.runFrom_begun hitems retry.max (Nat.le_refl _) w (fun _ => hearly) operation)

/-- **What holds of every outcome** holds of all reports. -/
theorem forall_mem_workers {P : Except Error (List Item) → Prop}
    {work : Nat → Action σ (List Item)} {begun : Nat}
    (h : ∀ k (w : World σ), w.now = begun → P (work k w).1) (left segment latest : Nat)
    (w : World σ) : ∀ report ∈ (workers work begun left segment latest w).1, P report.outcome := by
  induction left generalizing segment latest w with
  | zero => intro report hreport; cases hreport
  | succ left ih =>
      intro report hreport
      rcases List.mem_cons.1 hreport with rfl | hreport
      · exact h segment { w with now := begun } rfl
      · exact ih _ _ _ report hreport

/-- **What holds of every error of a worker**, and of lost segments, holds of all failures. -/
theorem forall_failures_segmented {P : Error → Prop} {segments : Nat} {w : World σ}
    (hwork : ∀ k (v : World σ), v.now = w.now → ∀ e,
      (r.worker store retry deadline pageSize segments k v).1 = .error e → P e)
    (hlost : ∀ k, P (lostSegment k)) :
    ∀ f ∈ (r.segmented store retry deadline pageSize segments w).1.failures, P f.error := by
  intro f hf
  rcases mem_failures_mergeReports hf with ⟨report, hmem, hreport⟩ | ⟨k, -, hk⟩
  · exact forall_mem_workers (P := fun outcome => ∀ e, outcome = .error e → P e) hwork
      segments 0 w.now w report hmem f.error hreport
  · rw [hk]
    exact hlost k

/-- **No segment fails with a timeout that counts no attempts**, if the scan begins before the
deadline. -/
theorem segmented_begun (segments : Nat) {w : World σ} (hearly : w.elapsed deadline = false) :
    ∀ f ∈ (r.segmented store retry deadline pageSize segments w).1.failures, ∀ operation,
      f.error ≠ .timeout operation 0 := by
  refine forall_failures_segmented (P := fun e => ∀ operation, e ≠ .timeout operation 0)
    store r retry pageSize ?_ fun k operation => by simp [lostSegment]
  rintro k v hv _ herror operation rfl
  exact worker_begun store r retry pageSize segments k
    ((World.elapsed_congr hv deadline).trans hearly) operation herror

end ScanRequest

/-- Items are read as something else, and failures stay. -/
theorem Segmented.mapItems_failures {s : Segmented α} {f : List α → Except Error (List β)}
    {s' : Segmented β} (h : s.mapItems f = .ok s') : s'.failures = s.failures := by
  unfold mapItems at h
  cases hf : f s.items with
  | error e => simp [hf, bind, Except.bind] at h
  | ok items =>
      simp only [hf, bind, Except.bind, Except.ok.injEq] at h
      rw [← h]

namespace PreparedRead

variable {p : PreparedRead} {r : ScanRequest}

/-- A read in segments that brings something begins before its deadline, and its failures are those
of its workers. -/
theorem failures_of_segmented (hr : p.request = .scan r) (store : Store σ) (segments : Int)
    {w : World σ} {s : Segmented Item} (h : (p.segmented store segments w).1 = .ok s) :
    w.elapsed p.deadline = false ∧ s.failures =
      (r.segmented store p.retry p.deadline p.pageSize (max segments 1).toNat w).1.failures := by
  cases hlate : w.elapsed p.deadline with
  | true =>
      rw [segmented_late hr store segments hlate] at h
      cases h
  | false =>
      rw [segmented_early hr store segments hlate] at h
      cases h
      exact ⟨rfl, rfl⟩

theorem segmented_failures (hr : p.request = .scan r) (store : Store σ) (segments : Int)
    {w : World σ} {s : Segmented Item} (h : (p.segmented store segments w).1 = .ok s) :
    ∀ f ∈ s.failures, ∀ operation, f.error ≠ .timeout operation 0 := by
  obtain ⟨hearly, hfailures⟩ := failures_of_segmented hr store segments h
  rw [hfailures]
  exact ScanRequest.segmented_begun store r p.retry p.pageSize _ hearly

/-- **A read in segments** keeps to its deadline, if it is a scan. -/
theorem segmented_keepsTo (store : Store σ) (segments : Int) :
    (p.segmented store segments).KeepsTo p.deadline (∃ r, p.request = .scan r) where
  sends := segmented_sends store segments fun _ _ _ hbefore _ _ _ => hbefore
  late := by
    rintro ⟨r, hr⟩ w hlate
    exact ⟨.scan, segmented_late hr store segments hlate⟩
  unsent w operation htimeout := by
    cases hr : p.request with
    | query q => simp [segmented, hr]
    | scan r =>
        cases hlate : w.elapsed p.deadline with
        | true => rw [segmented_late hr store segments hlate]
        | false =>
            rw [segmented_early hr store segments hlate] at htimeout
            cases htimeout

/-- The request of a scan is one for all items. -/
theorem exists_request_of_isScan (hscan : p.read.plan.isScan = true) :
    ∃ r, p.request = .scan r := by
  unfold request Read.request
  rw [hscan]
  exact ⟨_, rfl⟩

end PreparedRead

/-! ### Queries -/

namespace Query

variable {q : Query}

/-- **A query keeps to its deadline** as its prepared read does. -/
theorem run_keepsTo {action : PreparedRead → Action σ β} {valid : PreparedRead → Prop}
    (h : ∀ p, q.prepare = .ok p → (action p).KeepsTo p.deadline (valid p)) :
    (q.run action).KeepsTo q.deadline (∃ p, q.prepare = .ok p ∧ valid p) := by
  have hdeadline : ∀ p, q.prepare = .ok p → (action p).KeepsTo q.deadline (valid p) := by
    intro p hp
    obtain ⟨_, _, _, hsame, _⟩ := prepare_spec hp
    rw [← hsame]
    exact h p hp
  unfold run
  cases hprepare : q.prepare with
  | error e => exact .nothing (by simp) e
  | ok p =>
      refine (hdeadline p hprepare).imp ?_
      rintro ⟨p', hp', hvalid⟩
      cases hp'
      exact hvalid

/-- So it is with a read for which nothing more has to be right. -/
theorem run_keepsTo_of_prepared {action : PreparedRead → Action σ β}
    (h : ∀ p, q.prepare = .ok p → (action p).KeepsTo p.deadline True) :
    (q.run action).KeepsTo q.deadline (∃ p, q.prepare = .ok p) :=
  (run_keepsTo h).imp fun ⟨p, hp⟩ => ⟨p, hp, trivial⟩

theorem all_keepsTo (q : Query) {m : Model α} (hm : m.NeverLate) (store : Store σ) :
    (q.all m store).KeepsTo q.deadline (∃ p, q.prepare = .ok p) := by
  refine run_keepsTo_of_prepared fun p _ => ?_
  refine Action.KeepsTo.reading ?_ fun _ items _ operation => hm.decodeAll items operation 0
  cases hparallel : p.read.isParallel with
  | false => exact p.items_keepsTo store _
  | true =>
      have hscan : p.read.plan.isScan = true := by
        unfold Read.isParallel at hparallel
        exact (Bool.and_eq_true _ _ ▸ hparallel).1
      obtain ⟨r, hr⟩ := PreparedRead.exists_request_of_isScan hscan
      refine ((p.segmented_keepsTo store _).imp fun _ => ⟨r, hr⟩).reading ?_
      intro w s hs operation htimeout
      unfold Segmented.toExcept at htimeout
      split at htimeout
      · cases htimeout
      · next failure rest hfailures =>
          exact PreparedRead.segmented_failures hr store _ hs failure
            (by rw [hfailures]; exact List.mem_cons_self) operation (Except.error.inj htimeout)

theorem first_keepsTo (q : Query) {m : Model α} (hm : m.NeverLate) (store : Store σ) :
    (q.first m store).KeepsTo q.deadline (∃ p, q.prepare = .ok p) := by
  refine run_keepsTo_of_prepared fun p _ => ?_
  refine Action.KeepsTo.reading ?_ fun _ item _ operation => hm.decodeOption item operation 0
  split
  · exact p.item_keepsTo store _
  · exact (p.items_keepsTo store _).reading fun _ _ _ _ => by simp

theorem count_keepsTo (q : Query) (store : Store σ) :
    (q.count store).KeepsTo q.deadline
      (∃ p, ({ q with projection := [] } : Query).prepare = .ok p) :=
  run_keepsTo_of_prepared (q := { q with projection := [] }) fun p _ => p.count_keepsTo store

/-- A key that has no cursor has an unknown value. -/
theorem cursorAfter_error {r : Read} {page : Page} {e : Error}
    (h : cursorAfter r page = .error e) :
    e = .cursor .unknownValue ∧ ∃ key, page.next? = some key ∧ key.isKnown = false := by
  unfold cursorAfter at h
  cases hnext : page.next? with
  | none => rw [hnext] at h; cases h
  | some key =>
      rw [hnext] at h
      cases hknown : key.isKnown with
      | true => simp [Cursor.encode, hknown, Functor.map, Except.map] at h
      | false =>
          have hencode : Cursor.encode key r.fingerprint = .error (.cursor .unknownValue) := by
            simp [Cursor.encode, hknown]
          rw [Option.mapM_some, hencode] at h
          cases h
          exact ⟨rfl, key, rfl, hknown⟩

/-- A key without a cursor is no matter of time. -/
theorem cursorAfter_ne_timeout (r : Read) (page : Page) (operation : Operation) (attempts : Nat) :
    cursorAfter r page ≠ .error (.timeout operation attempts) := by
  intro htimeout
  cases (cursorAfter_error htimeout).1

theorem page_keepsTo (q : Query) {m : Model α} (hm : m.NeverLate) (store : Store σ) :
    (q.page m store).KeepsTo q.deadline
      (∃ p, q.prepare = .ok p ∧ p.read.isParallel = false) := by
  refine run_keepsTo fun p _ => ?_
  cases hparallel : p.read.isParallel with
  | true => exact .nothing (by simp) _
  | false =>
      refine ((p.page_keepsTo store).imp fun _ => trivial).reading fun _ page _ operation => ?_
      refine bind_ne_error (cursorAfter_ne_timeout p.read page operation 0) fun next => ?_
      exact bind_ne_error (hm.decodeAll page.items operation 0) fun values => by simp

/-- A step keeps the deadline if it does so where it is right. -/
theorem attempt_deadline {q : Query} {step : Except Error Query}
    (h : ∀ r, step = .ok r → r.deadline = q.deadline) :
    (q.attempt step).deadline = q.deadline :=
  attempt_keeps (P := fun r => r.deadline = q.deadline) rfl (fun _ => rfl) h

/-- A query that did not fail took its last step. -/
theorem exists_of_attempt {q : Query} {step : Except Error Query}
    (h : (q.attempt step).failed = false) :
    q.failed = false ∧ ∃ r, step = .ok r ∧ q.attempt step = r := by
  unfold attempt at h ⊢
  cases hfailed : q.failed with
  | true => simp [hfailed] at h
  | false =>
      cases step with
      | ok r => exact ⟨rfl, r, rfl, rfl⟩
      | error e =>
          have hkept : (q.conditions.fail e).failed = true := by
            unfold ConditionSet.fail ConditionSet.attempt
            rw [show q.conditions.failed = false from hfailed]
            rfl
          rw [hfailed] at h
          exact absurd (hkept.symm.trans h) (by decide)

/-- A query that can be built did not fail. -/
theorem failed_of_build {q : Query} {r : Read} (h : q.build = .ok r) : q.failed = false := by
  cases herror : q.conditions.error with
  | none => simp [failed, ConditionSet.failed, herror]
  | some e => simp [build, ConditionSet.parts, herror, bind, Except.bind] at h

/-- Dividing a query into segments leaves its deadline as it is. -/
theorem inSegments_deadline (q : Query) (segments : Int) :
    (q.scan.inSegments segments).deadline = q.deadline := by
  have hscan : q.scan.deadline = q.deadline := attempt_deadline fun r hr => by cases hr; rfl
  refine (attempt_deadline fun r hr => ?_).trans hscan
  split at hr
  · cases hr
  · cases hr
    rfl

/-- A query that is divided into segments reads everything. -/
theorem inSegments_scans {segments : Int} (h : (q.scan.inSegments segments).failed = false) :
    (q.scan.inSegments segments).scans = true := by
  obtain ⟨hscan, divided, hdivided, hsegments⟩ := exists_of_attempt h
  obtain ⟨_, scanned, hscanned, hscans⟩ := exists_of_attempt hscan
  have hquery : q.scan = scanned := hscans
  cases hscanned
  unfold inSegments
  split at hdivided
  · cases hdivided
  · rw [hsegments, ← Except.ok.inj hdivided, hquery]

/-- The request of a query that is divided into segments is one for all items. -/
theorem exists_request_of_inSegments {segments : Int} {p : PreparedRead}
    (h : (q.scan.inSegments segments).prepare = .ok p) : ∃ r, p.request = .scan r := by
  obtain ⟨hbuild, _⟩ := prepare_spec h
  obtain ⟨plan, start, hplan, hread⟩ := build_spec hbuild
  refine PreparedRead.exists_request_of_isScan ?_
  rw [planOf, inSegments_scans (failed_of_build hbuild), if_pos rfl] at hplan
  obtain ⟨i, rfl⟩ := TableSchema.scan_cases hplan
  rw [hread]
  rfl

theorem segmented_keepsTo (q : Query) {m : Model α} (hm : m.NeverLate) (store : Store σ)
    (segments : Int) : (q.segmented m store segments).KeepsTo q.deadline
      (∃ p, (q.scan.inSegments segments).prepare = .ok p) := by
  rw [← inSegments_deadline q segments]
  refine run_keepsTo_of_prepared fun p hp => ?_
  have hrequest := exists_request_of_inSegments hp
  refine ((p.segmented_keepsTo store segments).imp fun _ => hrequest).reading ?_
  intro _ s _ operation
  exact bind_ne_error (hm.decodeAll s.items operation 0) fun values => by simp

/-- No segment of a query fails with a timeout that counts no attempts. -/
theorem segmented_failures (q : Query) (m : Model α) (store : Store σ) (segments : Int)
    {w : World σ} {s : Segmented α} (h : (q.segmented m store segments w).1 = .ok s) :
    ∀ f ∈ s.failures, ∀ operation, f.error ≠ .timeout operation 0 := by
  unfold segmented run at h
  cases hp : (q.scan.inSegments segments).prepare with
  | error e => simp [hp] at h
  | ok p =>
      obtain ⟨r, hr⟩ := exists_request_of_inSegments hp
      simp only [hp, reading_fst] at h
      cases hs : (p.segmented store segments w).1 with
      | error e => simp [hs, Except.bind] at h
      | ok s' =>
          have hbegun := PreparedRead.segmented_failures hr store segments hs
          rw [hs] at h
          rw [Segmented.mapItems_failures h]
          exact hbegun

end Query

/-! ### Updates -/

/-- **An update keeps to its deadline.** -/
theorem Update.execute_keepsTo (u : Update) {m : Model α} (hm : m.NeverLate) (store : Store σ) :
    (u.execute m store).KeepsTo u.deadline (∃ r, u.compile = .ok r) := by
  unfold execute
  cases hcompile : u.compile with
  | error e => exact .nothing (by simp) e
  | ok r =>
      have hsend : (send store r).Begins u.deadline :=
        Action.Begins.call _ (storeError_ne_timeout .updateItem)
      exact ((hsend.before .updateItem).imp fun _ => trivial).reading
        fun _ item _ operation => hm.decodeOption item operation 0

/-! ### Everything together -/

/-- **Nothing is sent at or after the deadline**, whichever way a query is run or an update is
executed; after the deadline a call that is right in itself is a timeout that counts no attempts;
and such a timeout means that nothing was sent, for a segment as for a call. -/
theorem calls_keep_to_their_deadline (q : Query) (u : Update) {m : Model α} (hm : m.NeverLate)
    (store : Store σ) (n : Int) :
    (q.all m store).KeepsTo q.deadline (∃ p, q.prepare = .ok p) ∧
    (q.first m store).KeepsTo q.deadline (∃ p, q.prepare = .ok p) ∧
    (q.count store).KeepsTo q.deadline
      (∃ p, ({ q with projection := [] } : Query).prepare = .ok p) ∧
    (q.page m store).KeepsTo q.deadline (∃ p, q.prepare = .ok p ∧ p.read.isParallel = false) ∧
    (q.segmented m store n).KeepsTo q.deadline (∃ p, (q.scan.inSegments n).prepare = .ok p) ∧
    (u.execute m store).KeepsTo u.deadline (∃ r, u.compile = .ok r) ∧
    -- the segments that failed, and the workers in whatever order they take their turns
    (∀ w s, (q.segmented m store n w).1 = .ok s →
      ∀ f ∈ s.failures, ∀ operation, f.error ≠ .timeout operation 0) ∧
    ∀ p r, (q.scan.inSegments n).prepare = .ok p → p.request = .scan r →
      ∀ (w : World σ) (schedule : List Nat) (k : Nat),
        w.SentSince (fun s => IsBefore q.deadline s.time)
          (((p.split store r n.toNat).run schedule w).view k) := by
  refine ⟨q.all_keepsTo hm store, q.first_keepsTo hm store, q.count_keepsTo store,
    q.page_keepsTo hm store, q.segmented_keepsTo hm store n, u.execute_keepsTo hm store, ?_, ?_⟩
  · intro w s hs
    exact q.segmented_failures m store n hs
  · intro p r hp hr w schedule k
    obtain ⟨_, _, _, hdeadline, _⟩ := Query.prepare_spec hp
    rw [Query.inSegments_deadline] at hdeadline
    refine SplitScan.run_sends (fun i _ start v hearly => ?_) k w
    rw [← hdeadline]
    exact World.isBefore_now hearly

/-! ### A library -/

namespace Library

/-- What ann has borrowed, with three more tries, and no request from 50 on. -/
def loans : Query :=
  { schema := { table := "library", partitionKey := "owner" }
    conditions := { conditions := [⟨"owner", .eq, [.text "ann"]⟩] }
    retry := { max := 3, initial := 10 }, deadline := some 50 }

/-- Nothing is done with a book after 50. -/
def renewal : Update :=
  { schema := { table := "library", partitionKey := "owner" }, partition := some (.text "ann")
    changes := [.apply .set "due" (.number "60")], deadline := some 50 }

/-- A page at 30, and then a fault at 55. -/
def loanReplies : Script :=
  [.query ⟨30, .ok { items := [[("owner", .text "ann")]], count := 1, scanned := 1
                     last := some [("owner", .text "ann")] }⟩,
    .query ⟨25, .error "throttled"⟩]

end Library

/-- Loans that are read until the deadline has come, and loans that nobody begins to read. -/
theorem library_loans_are_read_in_time :
    (Model.dynamic "loans" Library.loans.schema).NeverLate ∧
      (Library.loans.prepare.isOk = true) ∧
      ((Library.loans.all (.dynamic "loans" Library.loans.schema) Script.store
        { store := Library.loanReplies }).2.sent.map Sent.time = [0, 30]) ∧
      (match (Library.loans.all (.dynamic "loans" Library.loans.schema) Script.store
          { store := Library.loanReplies }).1 with
        | .ok _ => ""
        | .error e => e.message) =
        "deadline elapsed before Query could be sent (after 1 attempt(s))" ∧
      ∃ operation, Library.loans.all (.dynamic "loans" Library.loans.schema) Script.store
          { store := Library.loanReplies, now := 50 } =
        (.error (.timeout operation 0), { store := Library.loanReplies, now := 50 }) := by
  have hm := Model.dynamic_neverLate "loans" Library.loans.schema
  have hok : Library.loans.prepare.isOk = true := by decide +kernel
  obtain ⟨hall, _⟩ := calls_keep_to_their_deadline Library.loans Library.renewal hm Script.store 1
  refine ⟨hm, hok, by decide +kernel, by decide +kernel, hall.late ?_ _ rfl⟩
  cases hprepare : Library.loans.prepare with
  | error e => simp [hprepare, Except.isOk, Except.toBool] at hok
  | ok p => exact ⟨p, rfl⟩

end Keyspace
