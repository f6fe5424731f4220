import Keyspace.Proofs.Query.OneKey
import Keyspace.Proofs.Read.Listing
import Keyspace.Proofs.Read.Meaning
import Keyspace.Proofs.Request.Closed
import Keyspace.Proofs.Request.Selection
import Keyspace.Proofs.World.Abreast
/-!
# The first value of a query

The first value of a query for one key is read with `GetItem`; every other query reads its first
page, and further pages as long as they hold nothing.  The two requests ask for the same: the key
expression of the one, read back, equates the attributes of the key of the other.  So a store that
answers both alike gives the same value, whichever way is taken, with all tries that there may be.

Main definitions:

* `Keyspace.QueryRequest.AsksFor` — **a query asks for the item that a get asks for**;
* `Keyspace.Query.firstOfPages` — the first value, read page by page;
* `Keyspace.FoundAlike`, `Keyspace.PreparedRead.FindsAlike` — a store finds by a query what it finds
  by a key;
* `Keyspace.SameButCall` — outcomes that differ at most in the call that an error names.

Main results:

* `Keyspace.PreparedRead.asksFor` — the two requests of a query for one key;
* `Keyspace.PreparedRead.item_sameButCall`, `Keyspace.PreparedRead.item_eq_items` — both ways find
  the same;
* `Keyspace.Query.first_reads_one_key` — **how a first value is read**.
-/

set_option autoImplicit false

namespace Keyspace

open Grammar

variable {σ α β : Type}

/-! ### Two requests for one item -/

/-- **A query asks for the item that a get asks for**: in the same table, by conditions that equate
the attributes of the key with their values.  The same is to be read of the item, as consistently,
and no item is left out. -/
structure QueryRequest.AsksFor (q : QueryRequest) (g : GetRequest) : Prop where
  table : q.table = g.table
  index : q.index = none
  key : ∃ cs, conditions? q.names q.values q.key = some cs ∧
    cs.Perm (g.key.map Condition.ofEntry)
  filter : q.filter = none
  start : q.start = none
  projection : q.projection = g.projection
  names : g.names.Within q.names
  selection : q.select =
    some (if q.projection.isSome then .specificAttributes else .allAttributes)
  consistent : q.consistent = g.consistent

/-- A name without `.` and `[` is a document path of one step. -/
theorem isDocumentPath_of_name {name : String}
    (h : '.' ∉ name.toList ∧ '[' ∉ name.toList) : isDocumentPath name = true := by
  have hsteps : pathSteps name = [⟨name, ""⟩] := by
    have hchars : PathStep.ofChars (name ++ "").toList = ⟨name, ""⟩ := ofChars_append h.2 rfl
    rw [String.append_empty] at hchars
    rw [pathSteps, splitPoints_of_not_mem h.1, List.map_singleton, hchars]
  rw [isDocumentPath, hsteps]
  rfl

namespace Read

variable {r : Read} {e : Expressions}

/-- **The expressions of a read without filter**, and what their united dictionaries show. -/
theorem compile_plain (h : r.compile = .ok e) (hfragments : r.fragments = [])
    (hfilter : r.plan.filterConditions = []) :
    e.key = (Compiler.empty.conditions r.plan.keyConditions).1 ∧ e.filter = none ∧
      (∀ x ∈ e.present, x.names.Within e.names) ∧ ∀ x ∈ e.present, x.values.Within e.values := by
  rw [r.compile_eq, hfragments, hfilter] at h
  let vs := r.plan.keyConditions.flatMap Condition.values
  rcases hkey : Compiler.empty.conditions r.plan.keyConditions with ⟨key, c⟩
  rcases hprojection : c.projection r.projection with ⟨projection, d⟩
  have hnothing : c.conditions [] = (none, c) := rfl
  simp only [hkey, hnothing, hprojection] at h
  obtain rfl : Expressions.mk key none projection none none = e := Except.ok.inj h
  have hgrows : Compiler.empty.Grows c vs.length := by
    have hgrows := Compiler.empty.conditions_grows r.plan.keyConditions
    rwa [hkey] at hgrows
  have hmore : c.Grows d 0 := by
    have hmore := c.projection_grows r.projection
    rwa [hprojection] at hmore
  have hcount : c.operandCount = vs.length := hgrows.operandCount.trans (Nat.zero_add _)
  have htaken : d.TakenIn d [] := Compiler.bringAll_spec rfl
  -- one compiler wrote both expressions, so no placeholder has two meanings
  have hshows : ∀ x ∈ (Expressions.mk key none projection none none).present,
      d.Shows vs [] x := by
    intro x hx
    have hcases : key = some x ∨ projection = some x := by
      simpa [Expressions.present, eq_comm] using hx
    rcases hcases with rfl | rfl
    · have hbinds := Compiler.conditions_binds (congrArg Prod.fst hkey)
      rw [hkey] at hbinds
      simpa using hbinds.shows hmore.attributes [] [] rfl []
    · have hbinds := Compiler.projection_binds (congrArg Prod.fst hprojection)
      rw [hprojection] at hbinds
      simpa using hbinds.shows (List.prefix_refl _) vs [] hcount.symm []
  refine ⟨rfl, rfl, Compiler.names_within_of_shows htaken hshows,
    Compiler.values_within_of_shows htaken (Nat.le_of_eq ?_) hshows⟩
  rw [hmore.operandCount, hcount, Nat.add_zero]

/-- The projection that is sent by default is the one that was compiled. -/
theorem sent_projection (h : r.compile = .ok e) :
    (if r.defaultSelection = .specificAttributes then e.projection.map Expression.text else none) =
      e.projection.map Expression.text := by
  split
  · rfl
  · next hother =>
      have hnone : r.projection = [] := by
        by_contra hsome
        exact hother (r.defaultSelection_eq_specific_iff.2 hsome)
      rw [(compile_shape h).2.2.2.1 hnone]
      rfl

end Read

/-- **The two requests of a read for one key** ask for the same item, however many items the query
looks at. -/
theorem PreparedRead.asksFor {p : PreparedRead} (hcompile : p.read.compile = .ok p.expressions)
    {entries : List (String × Value)} (haccess : p.read.plan.access = .query)
    (hbase : p.read.plan.index.isBase = true) (hfilter : p.read.plan.filterConditions = [])
    (hfragments : p.read.fragments = [])
    (hkey : p.read.plan.keyConditions = entries.map Condition.ofEntry) (hne : entries ≠ [])
    (hnodup : (entries.map Prod.fst).Nodup)
    (hnames : ∀ e ∈ entries, '.' ∉ e.1.toList ∧ '[' ∉ e.1.toList) (limit : Option Int) :
    ∃ q, p.request.turn none limit = .query q ∧
      q.AsksFor (p.read.getRequest p.expressions (Dict.ofList entries)) := by
  obtain ⟨hkeyed, hnofilter, hwithinNames, hwithinValues⟩ :=
    Read.compile_plain hcompile hfragments hfilter
  have hscan : p.read.plan.isScan = false := by simp [Plan.isScan, haccess]
  -- the request, field by field
  obtain ⟨q, hq, htable, hindex, hkeyText, hfilterText, hstart, hsent, hprojection, hnamed, hvalued,
      hselect, hconsistent⟩ : ∃ q, p.request.turn none limit = .query q ∧
      q.table = p.read.plan.table ∧ q.index = p.read.plan.index.requestName ∧
      q.key = (p.expressions.key.map Expression.text).getD "" ∧
      q.filter = p.expressions.filter.map Expression.text ∧ q.start = none ∧
      p.request.projection = q.projection ∧
      q.projection = p.expressions.projection.map Expression.text ∧
      q.names = p.expressions.names ∧ q.values = p.expressions.values ∧
      q.select = some p.read.defaultSelection ∧ q.consistent = p.read.consistent := by
    simp only [PreparedRead.request, Read.request, hscan, Bool.false_eq_true, if_false,
      PageRequest.turn]
    exact ⟨_, rfl, rfl, rfl, rfl, rfl, rfl, rfl, Read.sent_projection hcompile, rfl, rfl, rfl, rfl⟩
  have hregular : ∀ c ∈ p.read.plan.keyConditions, c.IsRegular := by
    rw [hkey]
    intro c hc
    obtain ⟨e, he, rfl⟩ := List.mem_map.1 hc
    exact ⟨isDocumentPath_of_name (hnames e he), rfl⟩
  have hgives := Compiler.gives_conditions hkeyed.symm hregular
    (fun x hx => hwithinNames x (Expressions.mem_present.2 (.inl hx)))
    fun x hx => hwithinValues x (Expressions.mem_present.2 (.inl hx))
  refine ⟨q, hq, htable, ?_, ⟨p.read.plan.keyConditions, ?_, ?_⟩, ?_, hstart, hprojection, ?_, ?_,
    hconsistent⟩
  · rw [hindex, Index.requestName, if_pos hbase]
  · rw [hnamed, hvalued, hkeyText]
    cases htext : p.expressions.key.map Expression.text with
    | none =>
        rw [htext, Gives, hkey, List.map_eq_nil_iff] at hgives
        exact absurd hgives hne
    | some text =>
        rw [htext] at hgives
        exact hgives.2
  · rw [hkey]
    exact (Dict.ofList_perm hnodup).symm.map Condition.ofEntry
  · rw [hfilterText, hnofilter]
    rfl
  · rw [hnamed]
    show Dict.Within ((p.expressions.projection.map Expression.names).getD []) p.expressions.names
    cases hpaths : p.expressions.projection with
    | none => exact fun n a hget => by cases hget
    | some x => exact hwithinNames x (by simp [Expressions.mem_present, hpaths])
  · have hsome : q.projection.isSome = true ↔ p.read.projection ≠ [] := by
      rw [← hsent]
      exact Read.default_projection hcompile
    rw [hselect, Read.defaultSelection, hbase]
    cases hpaths : p.read.projection with
    | nil =>
        have hnone : q.projection.isSome = false := by
          rw [← Bool.not_eq_true, hsome]
          simp [hpaths]
        simp [hnone]
    | cons path rest =>
        rw [hsome.2 (by simp [hpaths])]
        rfl

/-! ### What both find -/

/-- **A query and a get find alike**: both find one item, or none, or they meet the same fault. -/
inductive FoundAlike : Except String Page → Except String (Option Item) → Prop where
  | item {page : Page} {item : Item} (h : page.items = [item]) :
    FoundAlike (.ok page) (.ok (some item))
  | nothing {page : Page} (h : page.items = []) (hlast : page.next? = none) :
    FoundAlike (.ok page) (.ok none)
  | fault (text : String) : FoundAlike (.error text) (.error text)

/-- **A store finds by a query what it finds by a key**, from related states on. -/
structure PreparedRead.FindsAlike (p : PreparedRead) (store : Store σ) (R : σ → σ → Prop)
    (q : QueryRequest) (g : GetRequest) : Prop where
  found : ∀ s t, R s t → FoundAlike (store.query q t).1.result (store.getItem g s).1.result
  /-- Where there is a reason to try again, the states are still related, and if there is a deadline
  both answers took the same time. -/
  again : ∀ s t, R s t →
    p.retry.wantsMore Option.isNone (storeError .getItem (store.getItem g s).1.result) = true →
      R (store.getItem g s).2 (store.query q t).2 ∧
        (p.deadline ≠ none → (store.getItem g s).1.delay = (store.query q t).1.delay)

/-- **Outcomes that differ at most in the call that an error names**: the one is of a get, the other
of a query. -/
inductive SameButCall {γ : Type} : Except Error γ → Except Error γ → Prop where
  | same (outcome : Except Error γ) : SameButCall outcome outcome
  | timeout (attempts : Nat) :
    SameButCall (.error (.timeout .getItem attempts)) (.error (.timeout .query attempts))
  | fault (text : String) :
    SameButCall (.error (.store ⟨.getItem, text⟩)) (.error (.store ⟨.query, text⟩))

/-- What is made of an outcome does not matter. -/
theorem SameButCall.bind {x y : Except Error α} (h : SameButCall x y) (f : α → Except Error β) :
    SameButCall (x.bind f) (y.bind f) := by
  cases h with
  | same => exact .same _
  | timeout attempts => exact .timeout attempts
  | fault text => exact .fault text

/-- Nothing that is a reason to try again for the one is none for the other. -/
theorem SameButCall.wantsMore {x : Except Error (Option Item)} {y : Except Error (List Item)}
    (h : SameButCall x (y.map List.head?)) (p : RetryPolicy) :
    p.wantsMore Option.isNone x = p.wantsMore List.isEmpty y := by
  cases y with
  | ok items =>
      cases h with
      | same => cases items <;> rfl
  | error e =>
      cases h with
      | same => rfl
      | timeout _ => rfl
      | fault _ => rfl

namespace Pager

variable {p : Pager σ} {deadline : Option Nat} {w w' : World σ}
  (hearly : w.elapsed deadline = false) (l : PageLimits) {start : Option Item}
include hearly

/-- A fault of the first page is one of all. -/
theorem items_of_fault {e : Error} (h : p.fetch start (l.next 0) w = (.error e, w')) :
    p.items deadline l start w = (.error e, w') := by
  have hlimit : l.collector.limit [] = l.next 0 := rfl
  rw [items, collect_eq hearly, hlimit, h]
  rfl

/-- A page that is enough, or the last one, is all there is. -/
theorem items_of_page {page : Page} (h : p.fetch start (l.next 0) w = (.ok page, w'))
    (hlast : l.reached page.items.length = true ∨ page.next? = none) :
    p.items deadline l start w = (.ok (l.cut page.items), w') := by
  have hlimit : l.collector.limit [] = l.next 0 := rfl
  have hgot : l.collector.add [] page = page.items := rfl
  have hfull : l.collector.full page.items = l.reached page.items.length := rfl
  rw [items, collect_eq hearly, hlimit, h]
  simp only [hgot, hfull]
  split
  · rfl
  · next hmore =>
      rw [hlast.resolve_left hmore]
      rfl

end Pager

namespace PreparedRead

variable {p : PreparedRead} {store : Store σ} {R : σ → σ → Prop} {q : QueryRequest} {key : Item}

/-- The request for a page is for the same call as the first one. -/
theorem operation_of_turn {start : Option Item} {limit : Option Int}
    (h : p.request.turn start limit = .query q) : p.request.operation = .query := by
  cases hpages : p.request with
  | query r => rfl
  | scan r =>
      rw [hpages] at h
      cases h

/-- After tries that are a reason for others the worlds are still abreast. -/
theorem FindsAlike.abreast {g : GetRequest} (hfinds : p.FindsAlike store R q g) {w v : World σ}
    (h : w.Abreast R p.deadline v) (hagain : p.retry.wantsMore Option.isNone
      (storeError .getItem (store.getItem g w.store).1.result) = true) :
    (w.call (.getItem g) (store.getItem g)).2.Abreast R p.deadline
      (v.call (.query q) (store.query q)).2 := by
  obtain ⟨hstore, hdelay⟩ := hfinds.again w.store v.store h.store hagain
  exact h.call hstore hdelay

variable (hrequest : p.request.turn p.read.start ((p.limits (some 1)).next 0) = .query q)
  (hfinds : p.FindsAlike store R q (p.read.getRequest p.expressions key))
include hrequest hfinds

/-- **One try each way**: what the first page brings is what the get brings. -/
theorem try_spec {w v : World σ} (h : w.Abreast R p.deadline v)
    (hearly : w.elapsed p.deadline = false) {got : Except String (Option Item)}
    (hgot : (store.getItem (p.read.getRequest p.expressions key) w.store).1.result = got) :
    ∃ outcome, (p.request.pager store).items p.deadline (p.limits (some 1)) p.read.start v =
        (outcome, (v.call (.query q) (store.query q)).2) ∧
      SameButCall (storeError .getItem got) (outcome.map List.head?) ∧
      ∀ item, got = .ok item → .ok item = outcome.map List.head? := by
  have hlate : v.elapsed p.deadline = false := h.elapsed.symm.trans hearly
  have hfetched : (p.request.pager store).fetch p.read.start ((p.limits (some 1)).next 0) v =
      (storeError .query (store.query q v.store).1.result,
        (v.call (.query q) (store.query q)).2) := by
    show (p.request.turn _ _).send store v = _
    rw [hrequest]
    rfl
  have hfound := hfinds.found w.store v.store h.store
  rw [hgot] at hfound
  generalize (store.query q v.store).1.result = answer at hfound hfetched
  cases hfound with
  | item hpage =>
      refine ⟨_, Pager.items_of_page hlate _ hfetched (.inl (by rw [hpage]; rfl)), ?_⟩
      rw [hpage]
      exact ⟨.same _, fun _ h => congrArg Except.ok (Except.ok.inj h).symm⟩
  | nothing hpage hlast =>
      refine ⟨_, Pager.items_of_page hlate _ hfetched (.inr hlast), ?_⟩
      rw [hpage]
      exact ⟨.same _, fun _ h => congrArg Except.ok (Except.ok.inj h).symm⟩
  | fault text =>
      exact ⟨_, Pager.items_of_fault hlate _ hfetched, .fault text, fun _ h => by cases h⟩

/-- **All tries each way**: the outcomes differ at most in the call that an error names. -/
theorem item_sameButCall {w : World σ} (h : R w.store w.store) :
    SameButCall (p.item store key w).1 ((p.items store (some 1) w).1.map List.head?) := by
  unfold item items
  rw [operation_of_turn hrequest]
  refine RetryPolicy.run_abreast
    (S := fun x y => SameButCall x (y.map List.head?)) (R := R) (fun w v habreast hearly => ?_)
    (fun x y hxy => hxy.wantsMore p.retry) (fun _ attempts => .timeout attempts) ⟨h, fun _ => rfl⟩
  obtain ⟨outcome, hitems, hsame, -⟩ := try_spec hrequest hfinds habreast hearly rfl
  rw [hitems]
  exact ⟨hsame, fun hagain => hfinds.abreast habreast hagain⟩

/-- **Without deadline and faults both outcomes are the same.** -/
theorem item_eq_items (hdeadline : p.deadline = none)
    (hfaults : ∀ s t, R s t → ∃ item,
      (store.getItem (p.read.getRequest p.expressions key) s).1.result = .ok item)
    {w : World σ} (h : R w.store w.store) :
    (p.item store key w).1 = (p.items store (some 1) w).1.map List.head? := by
  unfold item items
  rw [operation_of_turn hrequest]
  refine RetryPolicy.run_abreast
    (S := fun x y => x = y.map List.head?) (R := R) (fun w v habreast hearly => ?_)
    (fun x y hxy => SameButCall.wantsMore (hxy ▸ .same _) p.retry)
    (fun hsome => absurd hdeadline hsome) ⟨h, fun _ => rfl⟩
  obtain ⟨found, hfound⟩ := hfaults w.store v.store habreast.store
  obtain ⟨outcome, hitems, -, hequal⟩ := try_spec hrequest hfinds habreast hearly hfound
  rw [hitems]
  refine ⟨?_, fun hagain => hfinds.abreast habreast hagain⟩
  show storeError .getItem (store.getItem _ w.store).1.result = _
  rw [hfound]
  exact hequal found rfl

end PreparedRead

/-- The item of a key is read with `GetItem`. -/
theorem PreparedRead.item_opens (p : PreparedRead) (store : Store σ) (key : Item) :
    (p.item store key).Opens p.deadline fun request =>
      request = .getItem (p.read.getRequest p.expressions key) := by
  refine .retry ⟨fun w _ => ?_, .call _ _ fun _ _ => trivial⟩ _ _ _
  exact ⟨⟨w.now, _⟩, [], rfl, rfl⟩

/-! ### Queries -/

namespace Query

/-- **The first value, read page by page**, whatever the query is for. -/
def firstOfPages (q : Query) (m : Model α) (store : Store σ) : Action σ (Option α) :=
  q.run fun p =>
    reading (fun item => item.mapM m.decode) <|
      reading (fun items => .ok items.head?) (p.items store (some 1))

/-- Pages are not read with `GetItem`. -/
theorem firstOfPages_sends (q : Query) (m : Model α) (store : Store σ) :
    Action.Sends (fun sent => sent.request.operation ≠ .getItem) (q.firstOfPages m store) := by
  refine run_sends fun p _ => .reading (.reading (p.items_sends store _ fun _ _ start n => ?_))
  cases p.request with
  | query r => exact Operation.noConfusion
  | scan r => exact Operation.noConfusion

variable {q : Query} {p : PreparedRead} (hp : q.prepare = .ok p) (m : Model α) (store : Store σ)
include hp

theorem firstOfPages_fst (w : World σ) :
    (q.firstOfPages m store w).1 =
      ((p.items store (some 1) w).1.map List.head?).bind fun item => item.mapM m.decode := by
  rw [firstOfPages, run_of_prepared hp, reading_fst, reading_fst]
  cases (p.items store (some 1) w).1 <;> rfl

/-- The first value of a query for one key is that of the item. -/
theorem first_eq_item {key : Item} (hkey : p.read.pointKey? = some key) :
    q.first m store = reading (fun item => item.mapM m.decode) (p.item store key) := by
  funext w
  rw [first, run_of_prepared hp]
  simp only [hkey]

/-- The first value of any other query is read page by page. -/
theorem first_eq_firstOfPages (hkey : p.read.pointKey? = none) :
    q.first m store = q.firstOfPages m store := by
  funext w
  rw [first_eq hp hkey, firstOfPages, run_of_prepared hp]

omit hp in
/-- **How a first value is read.**  A query for one key sends nothing but `GetItem`, for the key
that its conditions ask for; that asks for the same as the first request for a page.  From a store
that finds both alike it brings what the pages bring: the same if there is neither a deadline nor a
fault, and otherwise the same but for the call that an error names.  With a deadline `FindsAlike`
asks for answers that take the same time, because the tries left depend on it.  Every other query is
read page by page. -/
theorem first_reads_one_key {ν : Type} [AsOperand ν] (s : TableSchema)
    (hvalid : s.validate = .ok ())
    (hnames : ∀ name ∈ s.keyAttributes, '.' ∉ name.toList ∧ '[' ∉ name.toList) (config : Config)
    (ss : List (Nat × Step ν)) (m : Model α) (store : Store σ) :
    let q := (Query.new s config).stepsAt ss
    (∀ e, q.prepare = .error e → ∀ w, q.first m store w = (.error e, w)) ∧
    ∀ p, q.prepare = .ok p →
      (¬q.AsksForOneKey p.read.plan →
        q.first m store = q.firstOfPages m store ∧
          Action.Sends (fun sent => sent.request.operation ≠ .getItem) (q.first m store)) ∧
      (q.AsksForOneKey p.read.plan → ∃ key, s.IsKeyFor q.conditions.conditions key ∧
        let get := p.read.getRequest p.expressions key
        Action.Sends (fun sent => sent.request = .getItem get) (q.first m store) ∧
        (q.first m store).Opens p.deadline (fun request => request = .getItem get) ∧
        ∃ r, p.request.turn p.read.start ((p.limits (some 1)).next 0) = .query r ∧
          r.AsksFor get ∧
          ∀ R, p.FindsAlike store R r get → ∀ w : World σ, R w.store w.store →
            SameButCall (q.first m store w).1 (q.firstOfPages m store w).1 ∧
            (p.deadline = none →
              (∀ s t, R s t → ∃ item, (store.getItem get s).1.result = .ok item) →
                (q.first m store w).1 = (q.firstOfPages m store w).1)) := by
  intro q
  refine ⟨fun e he w => run_of_prepare he _ w, fun p hp => ?_⟩
  have herror : q.error? = none := error_none_of_build (prepare_spec hp).1
  have hschema : q.schema = s := (took_of_error_none herror).table.1
  have hvalid' : q.schema.validate = .ok () := hschema ▸ hvalid
  have hoperands := operand_of_equation herror
  refine ⟨fun hother => ?_, fun hone => ?_⟩
  · have hkey : p.read.pointKey? = none := by
      rw [← Option.not_isSome_iff_eq_none, pointKey?_isSome_iff hvalid' hp hoperands]
      exact hother
    rw [first_eq_firstOfPages hp m store hkey]
    exact ⟨rfl, q.firstOfPages_sends m store⟩
  · obtain ⟨entries, hkeyed, hfilter, hfields, hkey, hkeyFor⟩ :=
      hone.exists_key hvalid' hp hoperands
    rw [hschema] at hkeyFor hfields
    have hfirst := first_eq_item hp m store hkey
    have hstart : p.read.start = none := (start_eq_none_iff (prepare_spec hp).1).2 hone.cursor
    have hbase : p.read.plan.index.isBase = true := by
      rw [hone.index]
      rfl
    have hfragments : p.read.fragments = [] := (planOf_of_prepare hp).2.trans hone.fragments
    have hne : entries ≠ [] := by
      rintro rfl
      exact absurd hfields.length_eq (by simp [TableSchema.keyAttributes])
    obtain ⟨r, hr, hasks⟩ := PreparedRead.asksFor (prepare_spec hp).2.1 hone.access hbase hfilter
      hfragments hkeyed hne (hfields.nodup_iff.2 (TableSchema.nodup_keyAttributes hvalid))
      (fun e he => hnames e.1 (hfields.mem_iff.1 (List.mem_map_of_mem he)))
      ((p.limits (some 1)).next 0)
    rw [← hstart] at hr
    refine ⟨_, hkeyFor, ?_, ?_, r, hr, hasks,
      fun R hfinds w hw => ⟨?_, fun hdeadline hfaults => ?_⟩⟩
    · rw [hfirst]
      exact .reading (p.item_sends store fun _ _ => rfl)
    · rw [hfirst]
      exact (p.item_opens store _).reading _
    · rw [hfirst, reading_fst, firstOfPages_fst hp]
      exact (PreparedRead.item_sameButCall hr hfinds hw).bind _
    · rw [hfirst, reading_fst, firstOfPages_fst hp,
        PreparedRead.item_eq_items hr hfinds hdeadline hfaults hw]

end Query

/-! ### A library -/

namespace Library

/-- One card for each title that somebody owns. -/
def cards : TableSchema := { table := "library", partitionKey := "owner", sortKey := some "title" }

/-- Ann's copy of a title, sort key first. -/
def copyOfAnn (title : String) : List (Nat × Query.Step) :=
  [(0, .compare "title" .eq (.text title)), (0, .compare "owner" .eq (.text "ann")),
    (0, .consistently true), (0, .retrying { max := 1, onEmpty := true })]

/-- Whether a card has the text that an equation asks for. -/
def isOn (card : Item) (c : Condition) : Bool :=
  match card.get? c.field, c.operator, c.values with
  | some (.text written), .eq, [.text asked] => written == asked
  | _, _, _ => false

/-- The card that all equations of some conditions are about. -/
def cardFor (drawer : List Item) (cs : List Condition) : Option Item :=
  drawer.find? fun card => cs.all (isOn card)

/-- **A drawer of cards** answers queries and gets by the conditions that they state. -/
def cabinet (drawer : List Item) : Store Unit :=
  { closed with
    query := fun r s =>
      let found := (conditions? r.names r.values r.key).bind (cardFor drawer)
      ({ result := .ok { items := found.toList, count := 0, scanned := 0, last := none } }, s)
    getItem := fun r s => ({ result := .ok (cardFor drawer (r.key.map Condition.ofEntry)) }, s)
    rank_query := fun _ _ _ _ _ _ hok hnext => by cases hok; cases hnext }

/-- The order of the conditions does not matter. -/
theorem cardFor_perm (drawer : List Item) {cs ds : List Condition} (h : cs.Perm ds) :
    cardFor drawer cs = cardFor drawer ds := by
  unfold cardFor
  simp only [h.all_eq]

/-- A drawer finds by a query what it finds by a key. -/
theorem cabinet_findsAlike (drawer : List Item) (p : PreparedRead) {q : QueryRequest}
    {g : GetRequest} (h : q.AsksFor g) :
    p.FindsAlike (cabinet drawer) (fun _ _ => True) q g where
  found _ _ _ := by
    obtain ⟨cs, hcs, hperm⟩ := h.key
    have hsame : (conditions? q.names q.values q.key).bind (cardFor drawer) =
        cardFor drawer (g.key.map Condition.ofEntry) := by
      rw [hcs, Option.bind_some, cardFor_perm drawer hperm]
    show FoundAlike (.ok { items := Option.toList _, count := 0, scanned := 0, last := none })
      (.ok (cardFor drawer (g.key.map Condition.ofEntry)))
    rw [hsame]
    cases cardFor drawer (g.key.map Condition.ofEntry) with
    | none => exact .nothing rfl rfl
    | some card => exact .item rfl
  again _ _ _ _ := ⟨trivial, fun _ => rfl⟩

/-- Two cards. -/
def drawer : List Item :=
  [[("owner", .text "ann"), ("title", .text "Emma")],
    [("owner", .text "bob"), ("title", .text "Emma")]]

end Library

open Library

/-- One copy is found by its key as on a page, and of another one the page and the key say twice
that there is none. -/
theorem library_copies_are_found_by_key :
    cards.validate = .ok () ∧
      (∀ name ∈ cards.keyAttributes, '.' ∉ name.toList ∧ '[' ∉ name.toList) ∧
      ∀ title ∈ ["Emma", "Persuasion"],
        let q := (Query.new cards {}).stepsAt (copyOfAnn title)
        let w : World Unit := { store := () }
        (∃ p, q.prepare = .ok p ∧ q.AsksForOneKey p.read.plan) ∧
          ((q.first (.dynamic "cards" cards) (cabinet drawer) w).1.toOption.map Option.isSome =
            some (title == "Emma")) ∧
          (q.first (.dynamic "cards" cards) (cabinet drawer) w).1 =
            (q.firstOfPages (.dynamic "cards" cards) (cabinet drawer) w).1 := by
  have hvalid : cards.validate = .ok () := rfl
  have hnames : ∀ name ∈ cards.keyAttributes, '.' ∉ name.toList ∧ '[' ∉ name.toList := by decide
  refine ⟨hvalid, hnames, fun title htitle => ?_⟩
  intro q w
  have hpoint : (q.prepare.toOption.any fun p => p.read.pointKey?.isSome) = true := by
    revert title
    decide +kernel
  have hfound : (q.first (.dynamic "cards" cards) (cabinet drawer) w).1.toOption.map Option.isSome =
      some (title == "Emma") := by
    revert title
    decide +kernel
  obtain ⟨p, hp, hkey⟩ := Query.exists_prepare_of_any hpoint
  have herror : q.error? = none := Query.error_none_of_build (Query.prepare_spec hp).1
  have hone : q.AsksForOneKey p.read.plan :=
    (Query.pointKey?_isSome_iff hvalid hp (Query.operand_of_equation herror)).1 hkey
  obtain ⟨key, -, -, -, r, -, hasks, hsame⟩ :=
    ((Query.first_reads_one_key cards hvalid hnames {} (copyOfAnn title)
      (.dynamic "cards" cards) (cabinet drawer)).2 p hp).2 hone
  refine ⟨⟨p, hp, hone⟩, hfound, ?_⟩
  exact (hsame _ (cabinet_findsAlike drawer p hasks) w trivial).2
    (Query.prepare_spec hp).2.2.2.1 fun _ _ _ => ⟨_, rfl⟩

end Keyspace
