import Keyspace.Proofs.Batch.Sent
import Keyspace.Proofs.Query.Prepared
import Keyspace.Proofs.Request.Closed
import Keyspace.Script
/-!
# Every request that is sent is closed

Whichever way a query is run, an update is executed or keys are read in a batch: if all paths are
document paths and all conditions have the operands they need, every request that is sent declares
exactly the placeholders of its expressions, and no placeholder stands for two things.

Main definitions:

* `Keyspace.Query.IsRegular`, `Keyspace.Update.IsRegular` — queries and updates on document paths.

Main results:

* `Keyspace.Query.IsRegular.prepared` — the expressions of a regular query;
* `Keyspace.requests_are_closed` — **every request that is sent is closed**.
-/

set_option autoImplicit false

namespace Keyspace

variable {σ α : Type}

/-- A query whose conditions are regular and that projects document paths. -/
structure Query.IsRegular (q : Query) : Prop where
  conditions : ∀ c ∈ q.conditions.conditions, c.IsRegular
  projection : ∀ path ∈ q.projection, isDocumentPath path = true

/-- An update that changes document paths under regular conditions. -/
structure Update.IsRegular (u : Update) : Prop where
  changes : ∀ c ∈ u.changes, isDocumentPath c.path = true
  conditions : ∀ c ∈ u.conditions.conditions, c.IsRegular

/-! ### Queries -/

namespace Query

theorem IsRegular.prepared {q : Query} {p : PreparedRead} (hq : q.IsRegular)
    (h : q.prepare = .ok p) :
    p.expressions.Sound q.conditions.fragments ∧ p.read.compile = .ok p.expressions ∧
      (p.read.plan.isScan = true → p.read.plan.keyConditions = []) ∧
        p.read.projection = q.projection := by
  obtain ⟨hbuild, hcompile, _, _, _⟩ := prepare_spec h
  obtain ⟨plan, start, hplan, hread⟩ := build_spec hbuild
  have hregular : ∀ c ∈ plan.keyConditions ++ plan.filterConditions, c.IsRegular :=
    fun c hc => hq.conditions c ((planOf_perm hplan).mem_iff.1 hc)
  have hsound : p.expressions.Sound p.read.fragments := by
    refine Read.compile_sound hcompile ?_ ?_ ?_
    · rw [hread]
      exact fun c hc => hregular c (List.mem_append_left _ hc)
    · rw [hread]
      exact fun c hc => hregular c (List.mem_append_right _ hc)
    · rw [hread]
      exact hq.projection
  have hfragments : p.read.fragments = q.conditions.fragments := by rw [hread]
  have hprojection : p.read.projection = q.projection := by rw [hread]
  have hscan : p.read.plan.isScan = true → p.read.plan.keyConditions = [] := by
    rw [hread]
    exact planOf_keyConditions hplan
  rw [hfragments] at hsound
  exact ⟨hsound, hcompile, hscan, hprojection⟩

theorem IsRegular.request_closed {q : Query} {p : PreparedRead} (hq : q.IsRegular)
    (h : q.prepare = .ok p) (start : Option Item) (limit : Option Int) :
    (p.request.turn start limit).toRequest.IsClosed := by
  obtain ⟨hsound, hcompile, hscan, _⟩ := hq.prepared h
  exact (Read.request_closed hcompile hsound.closed hscan (Or.inr rfl)).turn start limit

theorem IsRegular.segment_closed {q : Query} {p : PreparedRead} (hq : q.IsRegular)
    (h : q.prepare = .ok p) {r : ScanRequest} (hr : p.request = .scan r) (segment total : Nat)
    (start : Option Item) (limit : Option Int) :
    (Request.scan ((r.forSegment segment total).turn start limit)).IsClosed := by
  obtain ⟨hsound, hcompile, hscan, _⟩ := hq.prepared h
  have hclosed := Read.request_closed hcompile hsound.closed hscan (Or.inr rfl)
  have hfirst : p.read.request p.expressions none = .scan r := hr
  rw [hfirst] at hclosed
  exact Request.IsClosed.forSegment hclosed segment total start limit

theorem IsRegular.fail {q : Query} (hq : q.IsRegular) (e : Error) : (q.fail e).IsRegular := by
  refine ⟨?_, hq.projection⟩
  unfold Query.fail ConditionSet.fail ConditionSet.attempt
  split
  · exact hq.conditions
  · exact hq.conditions

theorem IsRegular.attempt {q : Query} (hq : q.IsRegular) {step : Except Error Query}
    (hstep : ∀ r, step = .ok r → r.IsRegular) : (q.attempt step).IsRegular :=
  attempt_keeps hq hq.fail hstep

/-- Dividing a query into segments leaves its conditions and projection as they are. -/
theorem IsRegular.inSegments {q : Query} (hq : q.IsRegular) (segments : Int) :
    (q.scan.inSegments segments).IsRegular := by
  have hscan : q.scan.IsRegular := by
    refine hq.attempt fun r hr => ?_
    cases hr
    exact ⟨hq.conditions, hq.projection⟩
  refine hscan.attempt fun r hr => ?_
  split at hr
  · cases hr
  · cases hr
    exact ⟨hscan.conditions, hscan.projection⟩

/-! ### Running a query -/

theorem IsRegular.items_sends {q : Query} {p : PreparedRead} (hq : q.IsRegular)
    (hp : q.prepare = .ok p) (store : Store σ) (cap : Option Nat) :
    Action.Sends (fun s => s.request.IsClosed) (p.items store cap) := by
  refine PreparedRead.items_sends store cap ?_
  intro time _ start n
  exact hq.request_closed hp start _

theorem IsRegular.parts_sends {q : Query} {p : PreparedRead} (hq : q.IsRegular)
    (hp : q.prepare = .ok p) (store : Store σ) (segments : Int) :
    Action.Sends (fun s => s.request.IsClosed) (p.segmented store segments) := by
  refine PreparedRead.segmented_sends store segments ?_
  intro r hr time _ segment total start
  exact hq.segment_closed hp hr segment total start _

theorem IsRegular.all_sends {q : Query} (hq : q.IsRegular) (m : Model α) (store : Store σ) :
    Action.Sends (fun s => s.request.IsClosed) (q.all m store) := by
  refine Query.all_sends m store ?_ ?_
  · exact fun p hp => hq.items_sends hp store
  · exact fun p hp => hq.parts_sends hp store

theorem IsRegular.first_sends {q : Query} (hq : q.IsRegular) (m : Model α) (store : Store σ) :
    Action.Sends (fun s => s.request.IsClosed) (q.first m store) := by
  refine Query.first_sends m store (fun p hp => hq.items_sends hp store) fun p hp key => ?_
  obtain ⟨hsound, hcompile, _, _⟩ := hq.prepared hp
  refine PreparedRead.item_sends store ?_
  intro time _
  exact Read.getRequest_closed hcompile hsound.closed key

theorem IsRegular.count_sends {q : Query} (hq : q.IsRegular) (store : Store σ) :
    Action.Sends (fun s => s.request.IsClosed) (q.count store) := by
  refine Query.run_sends fun p hp => PreparedRead.count_sends store ?_
  intro time _ start
  have hregular : ({ q with projection := [] } : Query).IsRegular :=
    ⟨hq.conditions, fun path hpath => by cases hpath⟩
  obtain ⟨hsound, hcompile, hscan, hprojection⟩ := hregular.prepared hp
  -- the selection asks for a number only, so there must be no projection to go with it
  exact (Read.request_closed hcompile hsound.closed hscan (Or.inl hprojection)).turn start _

theorem IsRegular.page_sends {q : Query} (hq : q.IsRegular) (m : Model α) (store : Store σ) :
    Action.Sends (fun s => s.request.IsClosed) (q.page m store) := by
  refine Query.page_sends m store fun p hp => PreparedRead.page_sends store ?_
  intro time _
  exact hq.request_closed hp _ _

theorem IsRegular.segmented_sends {q : Query} (hq : q.IsRegular) (m : Model α)
    (store : Store σ) (segments : Int) :
    Action.Sends (fun s => s.request.IsClosed) (q.segmented m store segments) := by
  refine Query.run_sends fun p hp => Action.Sends.reading ?_
  exact (hq.inSegments segments).parts_sends hp store segments

end Query

/-! ### Updates and batches -/

theorem Update.IsRegular.execute_sends {u : Update} (hu : u.IsRegular) (m : Model α)
    (store : Store σ) : Action.Sends (fun s => s.request.IsClosed) (u.execute m store) := by
  intro w
  unfold Update.execute
  split
  · exact World.SentSince.refl w
  · next r hr =>
      have hsend : Action.Sends (fun s => s.request.IsClosed) (Update.send store r) := by
        intro w
        exact World.SentSince.call w (store.update r)
          (Update.compile_closed hr hu.changes hu.conditions)
      exact Action.Sends.before (hsend.sendsBefore u.deadline) w

theorem Handle.batchGet_sends (h : Handle) (m : Model α) (store : Store σ) (keys : List Key)
    {projection : List String} (hpaths : ∀ path ∈ projection, isDocumentPath path = true)
    (deadline : Option Nat) :
    Action.Sends (fun s => s.request.IsClosed) (h.batchGet m store keys projection deadline) := by
  intro w
  unfold Handle.batchGet
  split
  · exact World.SentSince.refl w
  · refine Batch.get_sends (fun time keys => ?_) _ deadline w
    exact Batch.GetTemplate.request_closed rfl hpaths keys

/-! ### Everything together -/

/-- **Every request that is sent is closed**, and the dictionaries it is sent with keep what every
expression and every fragment says about its placeholders. -/
theorem requests_are_closed {q : Query} {u : Update} (h : Handle) {projection : List String}
    (hq : q.IsRegular) (hu : u.IsRegular)
    (hpaths : ∀ path ∈ projection, isDocumentPath path = true) (m : Model α) (store : Store σ)
    (segments : Int) (keys : List Key) (deadline : Option Nat) :
    (Action.Sends (fun s => s.request.IsClosed) (q.all m store) ∧
      Action.Sends (fun s => s.request.IsClosed) (q.first m store) ∧
      Action.Sends (fun s => s.request.IsClosed) (q.count store) ∧
      Action.Sends (fun s => s.request.IsClosed) (q.page m store) ∧
      Action.Sends (fun s => s.request.IsClosed) (q.segmented m store segments) ∧
      Action.Sends (fun s => s.request.IsClosed) (u.execute m store) ∧
      Action.Sends (fun s => s.request.IsClosed)
        (h.batchGet m store keys projection deadline)) ∧
    (∀ p, q.prepare = .ok p →
      p.expressions.Keeps q.conditions.fragments ∧ ∀ select,
        (p.read.request p.expressions select).toRequest.names = p.expressions.names ∧
        (p.read.request p.expressions select).toRequest.values = p.expressions.values) ∧
    (∀ r, u.compile = .ok r → ∃ e : Expressions,
      u.expressions u.conditions.conditions u.conditions.fragments = .ok e ∧
        e.Keeps u.conditions.fragments ∧ r.names = e.names ∧ r.values = e.values) := by
  refine ⟨⟨hq.all_sends m store, hq.first_sends m store, hq.count_sends store,
    hq.page_sends m store, hq.segmented_sends m store segments, hu.execute_sends m store,
    h.batchGet_sends m store keys hpaths deadline⟩, ?_, ?_⟩
  · intro p hp
    obtain ⟨hsound, _⟩ := hq.prepared hp
    refine ⟨hsound.keeps, fun select => ?_⟩
    unfold Read.request
    split
    · exact ⟨rfl, rfl⟩
    · exact ⟨rfl, rfl⟩
  · intro r hr
    obtain ⟨e, he, _, _, hnames, hvalues⟩ := Update.compile_spec hr
    exact ⟨e, he, (Update.expressions_sound he hu.changes hu.conditions).keeps, hnames, hvalues⟩

/-! ### A library -/

namespace Library

/-- The books that people own. -/
def schema : TableSchema := { table := "library", partitionKey := "owner" }

/-- Books with many tags. -/
def manyTags : Fragment :=
  { expression := "size(#t) > :m", names := [("#t", "tags")], values := [(":m", .number "3")] }

/-- Where somebody's books with many tags are, and what their first tag is. -/
def query : Query :=
  { schema, retry := { max := 1 }, projection := ["shelf.room", "tags[0]"]
    conditions :=
      { conditions :=
          [⟨"owner", .eq, [.text "ann"]⟩, ⟨"tags[1]", .between, [.text "a", .text "m"]⟩]
        fragments := [manyTags] } }

/-- The first tag is removed if there are many. -/
def update : Update :=
  { schema, partition := some (.text "ann"), changes := [.remove "tags[0]"]
    conditions := { fragments := [manyTags] } }

end Library

/-- A query that is sent, and an update. -/
theorem library_requests_are_closed :
    Library.query.IsRegular ∧ Library.update.IsRegular ∧
      (Library.query.page (.dynamic "library" Library.schema) Script.store
        { store := [] }).2.sent.length = 1 ∧
      Action.Sends (fun s => s.request.IsClosed)
        (Library.query.page (.dynamic "library" Library.schema) Script.store) ∧
      Action.Sends (fun s => s.request.IsClosed)
        (Library.update.execute (.dynamic "library" Library.schema) Script.store) := by
  have hq : Library.query.IsRegular := by
    refine ⟨?_, by decide⟩
    simp only [Library.query, List.forall_mem_cons]
    exact ⟨⟨by decide, by decide⟩, ⟨by decide, by decide⟩, by simp⟩
  have hu : Library.update.IsRegular := ⟨by decide, by simp [Library.update]⟩
  have hpaths : ∀ path ∈ ["shelf.room"], isDocumentPath path = true := by decide
  obtain ⟨⟨_, _, _, hpage, _, hexecute, _⟩, _⟩ :=
    requests_are_closed {} hq hu hpaths (.dynamic "library" Library.schema) Script.store 4 [] none
  exact ⟨hq, hu, by decide +kernel, hpage, hexecute⟩

end Keyspace
