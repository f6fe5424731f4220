import Keyspace.Proofs.Builder.Known
import Keyspace.Proofs.Query.Resumption
import Keyspace.Proofs.Read.Listing
import Keyspace.Proofs.Request.Whole
import Keyspace.Proofs.World.Abreast
import Keyspace.Script
/-!
# Counting instead of reading

A count drops the projection of a query before anything else, and reads what the query for whole
items reads: it has the same errors, takes the same cursors, and sends the same requests, but for
the selection.  The query itself may be planned on another index, for the same conditions; it is on
the same one if its own shows whole items.  Wherever a store counts what it shows, a count is the
number of the items that are read without a limit.

Main definitions:

* `Keyspace.PreparedRead.CountedBy` — a read and the one that counts its items;
* `Keyspace.Store.Counts` — a store that counts what it shows;
* `Keyspace.Query.readBy` — the read of a query that has a plan.

Main results:

* `Keyspace.PreparedRead.CountedBy.count_abreast` — **counting brings the number of the items**;
* `Keyspace.Query.exists_prepare_whole`, `Keyspace.Query.error_of_prepare_whole` — which queries can
  be counted;
* `Keyspace.Query.count_startAt` — which cursors a count takes;
* `Keyspace.library_count_reads_another_index` — a count on another index than that of its query;
* `Keyspace.Query.count_reads_whole_items` — **what a count reads**.
-/

set_option autoImplicit false

namespace Keyspace

variable {σ α β : Type}

/-! ### Reads that are counted -/

namespace PreparedRead

/-- **A read counted by another one**: that one does not project anything, and so it may have
another plan, but for the same conditions; everything else is the same. -/
structure CountedBy (p p' : PreparedRead) : Prop where
  plan : p.read.plan.Beside p'.read.plan
  others : p' = { p with
    read := { p.read with plan := p'.read.plan, projection := [] }, expressions := p'.expressions }

/-- A read is counted without its projection. -/
theorem countedBy_whole (p : PreparedRead) : p.CountedBy p.whole := ⟨.refl _, rfl⟩

namespace CountedBy

variable {p p' : PreparedRead} (h : p.CountedBy p')
include h

theorem start : p'.read.start = p.read.start := by rw [h.others]

theorem retry : p'.retry = p.retry := by rw [h.others]

theorem deadline : p'.deadline = p.deadline := by rw [h.others]

theorem pageSize : p'.pageSize = p.pageSize := by rw [h.others]

/-- Both are made up of the same calls. -/
theorem operation : p.request.operation = p'.countRequest.operation := by
  have hscan : p'.read.plan.isScan = p.read.plan.isScan := by
    rw [Plan.isScan, Plan.isScan, h.plan.access]
  unfold request countRequest Read.request
  rw [hscan]
  split
  · rfl
  · rfl

end CountedBy

end PreparedRead

/-! ### Stores that count -/

/-- **A page counted**: another one says how many items it has, and ends with the same key, or both
are the same fault. -/
inductive CountedAlike : Except String Page → Except String Page → Prop where
  | page {page page' : Page} (hcount : page'.count = page.items.length)
      (hnext : page.next? = page'.next?) : CountedAlike (.ok page) (.ok page')
  | fault (text : String) : CountedAlike (.error text) (.error text)

/-- **A store that counts what it shows**, page by page, from related states on: asked by `r'` it
counts the items that it shows if it is asked by `r`. -/
structure Store.Counts (store : Store σ) (R : σ → σ → Prop) (deadline : Option Nat)
    (r r' : PageRequest) : Prop where
  page : ∀ start limit s t, R s t →
    CountedAlike ((r.turn start limit).answer store s).1.result
      ((r'.turn start limit).answer store t).1.result
  state : ∀ start limit s t, R s t →
    R ((r.turn start limit).answer store s).2 ((r'.turn start limit).answer store t).2
  /-- If there is a deadline both answers take the same time. -/
  delay : deadline ≠ none → ∀ start limit s t, R s t →
    ((r.turn start limit).answer store s).1.delay = ((r'.turn start limit).answer store t).1.delay

/-- The call for a page. -/
theorem PageRequest.send_eq_call (r : PageRequest) (store : Store σ) (w : World σ) :
    r.send store w = (storeError r.operation (r.answer store w.store).1.result,
      (w.call r.toRequest (r.answer store)).2) := by
  cases r with
  | query q => rfl
  | scan q => rfl

/-- Going on does not change the call. -/
theorem PageRequest.operation_turn (r : PageRequest) (start : Option Item) (limit : Option Int) :
    (r.turn start limit).operation = r.operation := by
  cases r with
  | query q => rfl
  | scan q => rfl

/-- **Pages are read and counted side by side.** -/
theorem Store.Counts.abreast {store : Store σ} {R : σ → σ → Prop} {deadline : Option Nat}
    {r r' : PageRequest} (h : store.Counts R deadline r r') (hcall : r.operation = r'.operation) :
    (r.pager store).Abreast (r'.pager store) R deadline
      (fun page page' => page'.count = page.items.length ∧ page.next? = page'.next?) where
  operation := hcall
  fetch start limit w v habreast := by
    show AlikeOutcomes _ ((r.turn start limit).send store w).1
      ((r'.turn start limit).send store v).1 ∧ World.Abreast R deadline
        ((r.turn start limit).send store w).2 ((r'.turn start limit).send store v).2
    rw [PageRequest.send_eq_call, PageRequest.send_eq_call, PageRequest.operation_turn,
      PageRequest.operation_turn, ← hcall]
    refine ⟨?_, habreast.call (h.state start limit _ _ habreast.store)
      fun hdeadline => h.delay hdeadline start limit _ _ habreast.store⟩
    have hpage := h.page start limit _ _ habreast.store
    revert hpage
    generalize ((r.turn start limit).answer store w.store).1.result = answer
    generalize ((r'.turn start limit).answer store v.store).1.result = answer'
    rintro (⟨hcount, hnext⟩ | ⟨text⟩)
    · exact .ok ⟨hcount, hnext⟩
    · exact .error _
  next _ _ hpages := hpages.2

/-- Without a cap pages are put together as their counts are. -/
theorem PageLimits.collector_abreast {l : PageLimits} (hcap : l.cap = none) :
    l.collector.Abreast (countCollector l.perCall)
      (fun page page' => page'.count = page.items.length ∧ page.next? = page'.next?)
      (fun items n => items.length = n) where
  limit items n _ := by
    show l.next items.length = l.perCall
    unfold next missing
    rw [hcap]
    cases l.perCall <;> simp
  add items n page page' hsofar hpages := by
    show (items ++ page.items).length = n + page'.count.toNat
    rw [List.length_append, hsofar, hpages.1, Int.toNat_natCast]
  full items n _ := by
    show l.reached items.length = false
    rw [reached, hcap]

/-- Without a cap nothing is cut off. -/
theorem Pager.items_eq_collect (p : Pager σ) (deadline : Option Nat) {l : PageLimits}
    (hcap : l.cap = none) (start : Option Item) (w : World σ) :
    p.items deadline l start w = p.collect deadline l.collector start 0 [] w := by
  have hcut : (l.cut : List Item → List Item) = id := by
    funext items
    rw [PageLimits.cut, hcap, id]
  unfold items
  rw [hcut]
  rcases p.collect deadline l.collector start 0 [] w with ⟨_ | _, w'⟩ <;> rfl

/-- **Counting brings the number of the items.** -/
theorem PreparedRead.CountedBy.count_abreast {p p' : PreparedRead} (h : p.CountedBy p')
    {store : Store σ} {R : σ → σ → Prop}
    (hcounts : store.Counts R p.deadline p.request p'.countRequest) {w : World σ}
    (hw : R w.store w.store) :
    AlikeOutcomes (fun items n => items.length = n) (p.items store none w).1
      (p'.count store w).1 := by
  have hcap : (p.limits none).cap = none := rfl
  unfold items count
  rw [h.retry, h.deadline, h.pageSize, h.start, ← h.operation]
  refine RetryPolicy.run_abreast (R := R) (fun w v habreast _ => ?_) ?_ (fun _ _ => .error _)
    ⟨hw, fun _ => rfl⟩
  · obtain ⟨houtcome, hafter⟩ := Pager.collect_abreast (hcounts.abreast h.operation)
      (PageLimits.collector_abreast hcap) p.read.start 0 (rfl : ([] : List Item).length = 0)
      habreast
    rw [Pager.items_eq_collect _ _ hcap]
    exact ⟨houtcome, fun _ => hafter⟩
  · rintro x y (_ | ⟨hlength⟩)
    · rfl
    · next items n =>
      show (p.retry.onEmpty && items.isEmpty) = (p.retry.onEmpty && n == 0)
      rw [← hlength]
      cases items <;> rfl

/-! ### Queries -/

namespace Query

variable {q : Query} {plan : Plan}

/-- The read of a query that has a plan and no cursor. -/
def readBy (q : Query) (plan : Plan) : Read :=
  { plan, fragments := q.conditions.fragments, projection := q.projection, order := q.order
    limit := q.limit, consistent := q.consistent, segments := if plan.isScan then q.segments else 1 }

/-- Whether a plan is ruled out: a global index cannot be read consistently. -/
def rulesOut (q : Query) (plan : Plan) : Bool :=
  q.consistent && plan.index.kind = .globalIndex

/-- **What is built of a plan** if there is no cursor. -/
theorem build_of_planOf (herror : q.error? = none) (hcursor : q.cursor = none)
    (hplan : q.planOf q.conditions.conditions = .ok plan) :
    q.build =
      if q.rulesOut plan then .error (.invalid (.consistentGlobalIndex plan.index.name))
      else .ok (q.readBy plan) := by
  have hparts : q.conditions.parts = .ok (q.conditions.conditions, q.conditions.fragments) := by
    have hnone : q.conditions.error = none := herror
    rw [ConditionSet.parts, hnone]
  unfold build
  simp only [hparts, hplan, hcursor, bind, Except.bind]
  rfl

/-- The plan of what was built. -/
theorem exists_plan_of_build {r : Read} (h : q.build = .ok r) (hcursor : q.cursor = none) :
    ∃ plan, q.planOf q.conditions.conditions = .ok plan ∧ q.rulesOut plan = false ∧
      r = q.readBy plan := by
  obtain ⟨plan, -, hplan, -⟩ := build_spec h
  rw [build_of_planOf (error_none_of_build h) hcursor hplan] at h
  split at h
  · cases h
  · next hallowed =>
      exact ⟨plan, hplan, Bool.eq_false_iff.2 hallowed, (Except.ok.inj h).symm⟩

/-- The read without the projection has another plan perhaps, and projects nothing. -/
theorem readBy_whole (q : Query) {plan plan' : Plan} (h : plan.Beside plan') :
    q.whole.readBy plan' = { q.readBy plan with plan := plan', projection := [] } := by
  have hscan : plan'.isScan = plan.isScan := by rw [Plan.isScan, Plan.isScan, h.access]
  unfold readBy
  rw [hscan]
  rfl

/-- The read of a query for whole items projects nothing. -/
theorem whole_of_prepare {p : PreparedRead} (hp : q.prepare = .ok p) (hnone : q.projection = []) :
    p.whole = p := by
  obtain ⟨hbuild, hcompile, -⟩ := prepare_spec hp
  obtain ⟨plan, start, -, hread⟩ := build_spec hbuild
  have hprojection : p.read.projection = [] := by rw [hread, hnone]
  have hexpression := (Read.compile_shape hcompile).2.2.2.1 hprojection
  unfold PreparedRead.whole Read.whole
  rw [← hprojection, ← hexpression]

/-- A read that was compiled is prepared. -/
theorem prepare_of_build {r : Read} (hbuild : q.build = .ok r) {e : Expressions}
    (hcompile : r.compile = .ok e) :
    q.prepare = .ok { read := r, expressions := e, retry := q.retry, deadline := q.deadline
                      pageSize := q.pageSize } := by
  rw [prepare_eq, hbuild]
  show r.compile.map _ = _
  rw [hcompile]
  rfl

/-- **A query that can be run can be counted**, by a read that has the same plan if that does not
depend on the projection. -/
theorem exists_prepare_whole {p : PreparedRead} (hp : q.prepare = .ok p)
    (hcursor : q.projection = [] ∨ q.cursor = none)
    (hkinds : q.consistent = true → ∀ i ∈ q.schema.indexes, i.kind ≠ .table) :
    ∃ p', q.whole.prepare = .ok p' ∧ p.CountedBy p' ∧
      (q.KeepsPlan q.conditions.conditions p.read.plan → p' = p.whole) := by
  rcases hcursor with hnone | hcursor
  · refine ⟨p.whole, ?_, p.countedBy_whole, fun _ => rfl⟩
    rw [whole_of_projection_nil hnone, whole_of_prepare hp hnone, hp]
  · obtain ⟨hbuild, hcompile, hretry, hdeadline, hpageSize⟩ := prepare_spec hp
    obtain ⟨plan, hplan, hallowed, hread⟩ := exists_plan_of_build hbuild hcursor
    obtain ⟨plan', hplan', hbeside, hkeeps⟩ :=
      (q.planOf_whole q.conditions.conditions).exists_of_ok hplan
    -- the index of the count is global only if that of the query is
    have hallowed' : q.whole.rulesOut plan' = false := by
      unfold rulesOut at hallowed ⊢
      show (q.consistent && _) = false
      cases hconsistent : q.consistent with
      | false => rfl
      | true =>
          have hkind : plan.index.kind ≠ .globalIndex := by simpa [hconsistent] using hallowed
          rw [hkeeps (keepsPlan_of_kind hplan (hkinds hconsistent) hkind)]
          simpa using hkind
    have herror : q.whole.error? = none := error_none_of_build (q := q) hbuild
    have hbuild' : q.whole.build = .ok { p.read with plan := plan', projection := [] } := by
      rw [build_of_planOf herror hcursor hplan', hallowed', q.readBy_whole hbeside, hread]
      rfl
    have hconditions : (plan'.keyConditions ++ plan'.filterConditions).Perm
        (p.read.plan.keyConditions ++ p.read.plan.filterConditions) := by
      rw [hread]
      exact hbeside.conditions
    obtain ⟨e', he'⟩ :
        ∃ e', Read.compile { p.read with plan := plan', projection := [] } = .ok e' :=
      Read.exists_compile_of_perm hconditions rfl rfl hcompile
    have hp' : q.whole.prepare = .ok { p with
        read := { p.read with plan := plan', projection := [] }, expressions := e' } := by
      rw [prepare_of_build hbuild' he', hretry, hdeadline, hpageSize]
      rfl
    refine ⟨_, hp', ⟨by rwa [hread], rfl⟩, fun hkeep => ?_⟩
    have hplan' : plan' = p.read.plan := by
      rw [hread] at hkeep ⊢
      exact hkeeps hkeep
    subst hplan'
    have hsame := (Read.compile_whole hcompile).symm.trans he'
    rw [← Except.ok.inj hsame]
    rfl

/-- **What can be wrong with a query that can be counted**: that a consistent read would be of a
global index, or that a fragment has a placeholder of the projection. -/
theorem error_of_prepare_whole {p' : PreparedRead} (hp' : q.whole.prepare = .ok p')
    (hcursor : q.projection = [] ∨ q.cursor = none) {e : Error} (he : q.prepare = .error e) :
    (∃ name, e = .invalid (.consistentGlobalIndex name)) ∨ ∃ x, e = .placeholderCollision x := by
  rcases hcursor with hnone | hcursor
  · rw [whole_of_projection_nil hnone, he] at hp'
    cases hp'
  · obtain ⟨hbuild', hcompile', -⟩ := prepare_spec hp'
    obtain ⟨plan', hplan', -, hread'⟩ := exists_plan_of_build hbuild' hcursor
    obtain ⟨plan, hplan, -⟩ :=
      (q.planOf_whole q.conditions.conditions).exists_left_of_ok hplan'
    have herror : q.error? = none := error_none_of_build (q := q.whole) hbuild'
    rw [prepare_eq, build_of_planOf herror hcursor hplan] at he
    split at he
    · exact .inl ⟨_, (Except.error.inj he).symm⟩
    · have hfragments : (q.readBy plan).fragments = p'.read.fragments := by
        rw [hread']
        rfl
      have hcompile : (q.readBy plan).compile = .error e := by
        cases hcompiled : (q.readBy plan).compile with
        | error cause =>
            simp only [Except.bind, hcompiled] at he
            exact congrArg Except.error (Except.error.inj he)
        | ok _ =>
            simp only [Except.bind, hcompiled] at he
            cases he
      exact .inr (Read.collision_of_compile_error hfragments.symm hcompile' hcompile)

/-- The count asks for pages of the largest size. -/
theorem count_asks (p : PreparedRead) (store : Store σ) :
    Action.Sends (fun sent => ∃ start,
      sent.request = (p.countRequest.turn start p.pageSize).toRequest) (p.count store) := by
  refine .retry (Action.Sends.sendsBefore (fun w => ?_) p.deadline)
  refine Pager.collect_sends_asked (fun start _ => ?_) p.read.start 0 0 w
  exact PageRequest.send_sends store fun _ _ => ⟨start, rfl⟩

/-! ### Cursors -/

/-- A cursor that belongs to a read of another shape is refused. -/
theorem prepare_startAt_otherShape {p : PreparedRead} (hp : q.prepare = .ok p)
    (hcursor : q.cursor = none) (hparallel : p.read.isParallel = false) {key : Item}
    (hkey : Cursor.Portable key) {shape : Fingerprint} {text : String}
    (htext : Cursor.encode key shape = .ok text) (hother : shape ≠ p.read.fingerprint) :
    (q.startAt text).prepare = .error (.cursor .otherShape) := by
  have hplanned := planned_of_prepare hp hcursor
  have hquery := startAt_of_encode (failed_of_planned hplanned) htext
  have hdecode : Cursor.decode text p.read.fingerprint = .error (.cursor .otherShape) := by
    have hblank : Text.isBlankText "" = true := rfl
    have hread := Cursor.read_of_encode hkey htext hblank hblank p.read.fingerprint
    rw [String.empty_append, String.append_empty, if_neg hother] at hread
    rw [Cursor.decode, hread]
    rfl
  have hresume : resume (some text) p.read = .error (.cursor .otherShape) := by
    simp only [resume, hparallel, hdecode]
    rfl
  rw [prepare_eq, hquery, build_eq]
  show (q.planned.bind (resume (some text))).bind _ = _
  rw [hplanned]
  show (resume (some text) p.read).bind _ = _
  rw [hresume]
  rfl

/-- A cursor is taken by the query for whole items, too. -/
theorem whole_startAt (q : Query) (text : String) :
    (q.startAt text).whole = q.whole.startAt text := by
  have hfailed : q.whole.failed = q.failed := rfl
  unfold startAt attempt
  rw [hfailed]
  split
  · rfl
  · rfl

/-- **The cursors that a count takes** are those of the query for whole items. -/
theorem count_startAt {p' : PreparedRead} (hp' : q.whole.prepare = .ok p')
    (hcursor : q.cursor = none) (hparallel : p'.read.isParallel = false) {key : Item}
    (hkey : Cursor.Portable key) {shape : Fingerprint} {text : String}
    (htext : Cursor.encode key shape = .ok text) (store : Store σ) :
    (q.startAt text).count store =
      if shape = p'.read.fingerprint then (p'.startingAt (some key)).count store
      else fun w => (.error (.cursor .otherShape), w) := by
  have hrun : (q.startAt text).count store =
      (q.whole.startAt text).run fun p => p.count store := by
    rw [← q.whole_startAt text]
    rfl
  rw [hrun]
  split
  · next hshape =>
      rw [hshape] at htext
      funext w
      exact run_of_prepared (prepare_startAt hp' hcursor hparallel hkey htext) _ w
  · next hother =>
      funext w
      exact run_of_prepare
        (prepare_startAt_otherShape hp' hcursor hparallel hkey htext hother) _ w

/-- **What a count reads.**  It reads what the query for whole items reads: with the same errors,
from the same cursors on, by the same requests but for the selection, in pages of the largest size.
The query itself can be run whenever it can be counted, unless its index is ruled out or a fragment
has a placeholder of the projection.  If it can be run it reads the same table in the same way under
the same conditions, and by the same plan if that does not depend on the projection; and if the
store counts what it shows, the count is the number of its items without a limit. -/
theorem count_reads_whole_items (q : Query) (m : Model α) (store : Store σ) :
    -- what is wrong with the query for whole items is wrong with the count
    (∀ e, q.whole.prepare = .error e → ∀ w,
      q.count store w = (.error e, w) ∧ q.whole.all m store w = (.error e, w)) ∧
    -- what is counted is what that query reads, from where its cursor says
    (∀ p', q.whole.prepare = .ok p' →
      p'.countRequest = p'.request.counting p'.expressions.names ∧
      Action.Sends (fun sent => ∃ start,
        sent.request = (p'.countRequest.turn start q.pageSize).toRequest) (q.count store) ∧
      -- a cursor is taken if it belongs to that query
      (q.cursor = none → p'.read.isParallel = false → ∀ key shape text, Cursor.Portable key →
        Cursor.encode key shape = .ok text →
          (q.startAt text).count store =
            if shape = p'.read.fingerprint then (p'.startingAt (some key)).count store
            else fun w => (.error (.cursor .otherShape), w)) ∧
      -- the projection can only make more wrong
      ((q.projection = [] ∨ q.cursor = none) → ∀ e, q.prepare = .error e →
        (∃ name, e = .invalid (.consistentGlobalIndex name)) ∨
          ∃ x, e = .placeholderCollision x)) ∧
    -- with the projection no other items are read; a consistent read takes only global indexes for
    -- those that may hide something
    ∀ p, q.prepare = .ok p → (q.projection = [] ∨ q.cursor = none) →
      (q.consistent = true → ∀ i ∈ q.schema.indexes, i.kind ≠ .table) →
      ∃ p', q.whole.prepare = .ok p' ∧ p.CountedBy p' ∧
        (q.KeepsPlan q.conditions.conditions p.read.plan →
          p' = p.whole ∧ p'.countRequest = p.request.counting p'.expressions.names) ∧
        (q.limit = none → p.read.isParallel = false → ∀ R,
          store.Counts R q.deadline p.request p'.countRequest → ∀ w : World σ,
            R w.store w.store → ∃ outcome : Except Error (List Item),
              (q.all m store w).1 = outcome.bind m.decodeAll ∧
              (q.count store w).1 = outcome.map List.length) := by
  have hcount : ∀ {p'}, q.whole.prepare = .ok p' → q.count store = p'.count store :=
    fun hp' => funext (run_of_prepared hp' fun p => p.count store)
  refine ⟨fun e he w => ⟨run_of_prepare he _ w, run_of_prepare he _ w⟩, fun p' hp' => ?_,
    fun p hp hcursor hkinds => ?_⟩
  · obtain ⟨-, hcompile', -, -, hpageSize'⟩ := prepare_spec hp'
    refine ⟨?_, ?_, fun hcursor hparallel key shape text hkey htext =>
      count_startAt hp' hcursor hparallel hkey htext store,
      fun hcursor e he => error_of_prepare_whole hp' hcursor he⟩
    · have hcounted := PreparedRead.countRequest_whole hcompile'
      rwa [whole_of_prepare hp' rfl] at hcounted
    · rw [hcount hp', show q.pageSize = p'.pageSize from hpageSize'.symm]
      exact count_asks p' store
  · obtain ⟨hbuild, hcompile, -, hdeadline, -⟩ := prepare_spec hp
    obtain ⟨p', hp', hcounted, hkeeps⟩ := exists_prepare_whole hp hcursor hkinds
    refine ⟨p', hp', hcounted, fun hkeep => ?_, fun hlimit hparallel R hcounts w hw => ?_⟩
    · rw [hkeeps hkeep]
      exact ⟨rfl, PreparedRead.countRequest_whole hcompile⟩
    · refine ⟨(p.items store none w).1, ?_, ?_⟩
      · have hnone : p.read.limit = none := by
          obtain ⟨plan, start, -, hread⟩ := build_spec hbuild
          rw [hread, hlimit]
        rw [all_eq hp hparallel, reading_fst, hnone]
        rfl
      · rw [hcount hp']
        rw [← hdeadline] at hcounts
        exact (hcounted.count_abreast hcounts hw).eq_map

end Query

/-! ### A library -/

/-- The index that a request reads. -/
def Request.index? : Request → Option String
  | .query r => r.index
  | .scan r => r.index
  | _ => none

namespace Library

/-- The owners of an author's books. -/
def owners : Query :=
  (Query.new authors {}).stepsAt
    [(0, .compare "author" .eq (Datum.text "austen")), (0, .select ["owner"])]

/-- The titles that somebody owns. -/
def ownedTitles : Query :=
  (Query.new authors {}).stepsAt
    [(0, .compare "owner" .eq (Datum.text "ann")), (0, .select ["title"])]

/-- The titles of books that are lent out, asked for with a placeholder of the projection. -/
def lentTitles : Query := ownedTitles.filter ⟨"attribute_exists(#n1)", [("#n1", "lent_to")], []⟩

/-- Two books. -/
def pair : List Item :=
  [[("owner", .text "ann"), ("title", .text "Emma")],
    [("owner", .text "ann"), ("title", .text "Persuasion")]]

/-- **A bookcase** shows all its books on one page, and says how many they are. -/
def bookcase (books : List Item) : Store Unit :=
  { closed with
    query := fun _ s =>
      ({ result := .ok { items := books, count := books.length, scanned := books.length
                         last := none } }, s)
    rank_query := fun _ _ _ _ _ _ hok hnext => by cases hok; cases hnext }

/-- A bookcase counts what it shows. -/
theorem bookcase_counts (books : List Item) (deadline : Option Nat) (r r' : PageRequest)
    (hcall : r.operation = r'.operation) :
    (bookcase books).Counts (fun _ _ => True) deadline r r' where
  page start limit s t _ := by
    cases r <;> cases r' <;> cases hcall
    · exact .page rfl rfl
    · exact .fault _
  state _ _ _ _ _ := trivial
  delay _ start limit s t _ := by
    cases r <;> cases r' <;> cases hcall <;> rfl

end Library

open Library

/-- **A count reads another index** than its query, and refuses the cursors of its pages; and
another query that is wrong can be counted. -/
theorem library_count_reads_another_index :
    let w : World Script := { store := [] }
    ((owners.all (.dynamic "books" authors) Script.store w).2.sent.map fun s => s.request.index?) =
        [some "author-keys"] ∧
      ((owners.count Script.store w).2.sent.map fun s => s.request.index?) =
        [some "author-books"] ∧
      (∃ p text, owners.prepare = .ok p ∧
        Cursor.encode bookmark p.read.fingerprint = .ok text ∧
        (owners.startAt text).prepare = .ok (p.startingAt (some bookmark)) ∧
        (owners.startAt text).count Script.store w = (.error (.cursor .otherShape), w)) ∧
      lentTitles.prepare = .error (.placeholderCollision "#n1") ∧
      (lentTitles.count Script.store w).2.sent.length = 1 := by
  intro w
  refine ⟨by decide +kernel, by decide +kernel, ?_, rfl, by decide +kernel⟩
  obtain ⟨p, hp, hsingle⟩ := Query.exists_prepare_of_any (q := owners)
    (f := fun p => p.read.isParallel == false) (by decide +kernel)
  obtain ⟨p', hp', hsingle'⟩ := Query.exists_prepare_of_any (q := owners.whole)
    (f := fun p => p.read.isParallel == false) (by decide +kernel)
  have hshapes : (owners.prepare.toOption.map fun p => p.read.fingerprint) ≠
      owners.whole.prepare.toOption.map fun p => p.read.fingerprint := by
    decide +kernel
  rw [hp, hp'] at hshapes
  obtain ⟨text, htext⟩ := Cursor.encode_of_portable bookmark_portable p.read.fingerprint
  refine ⟨p, text, hp, htext, Query.prepare_startAt hp rfl (beq_iff_eq.1 hsingle)
    bookmark_portable htext, ?_⟩
  rw [Query.count_startAt hp' rfl (beq_iff_eq.1 hsingle') bookmark_portable htext,
    if_neg fun hshape => hshapes (congrArg some hshape)]

/-- Two books are in a bookcase, and they are two. -/
theorem library_titles_are_counted :
    ∃ outcome : Except Error (List Item),
      (ownedTitles.all (.dynamic "books" authors) (bookcase pair) { store := () }).1 =
        outcome.bind (Model.dynamic "books" authors).decodeAll ∧
      (ownedTitles.count (bookcase pair) { store := () }).1 = outcome.map List.length ∧
      (ownedTitles.count (bookcase pair) { store := () }).1.toOption = some 2 := by
  obtain ⟨p, hp, hsingle⟩ := Query.exists_prepare_of_any (q := ownedTitles)
    (f := fun p => p.read.isParallel == false) (by decide +kernel)
  obtain ⟨-, -, hcounts⟩ := Query.count_reads_whole_items ownedTitles
    (.dynamic "books" authors) (bookcase pair)
  obtain ⟨p', -, hcounted, -, hnumber⟩ :=
    hcounts p hp (.inr rfl) fun hconsistent => by cases hconsistent
  obtain ⟨outcome, hall, hcount⟩ := hnumber rfl (beq_iff_eq.1 hsingle) _
    (bookcase_counts pair _ _ _ hcounted.operation) { store := () } trivial
  exact ⟨outcome, hall, hcount, by decide +kernel⟩

end Keyspace
