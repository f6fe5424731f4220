import Keyspace.Proofs.Builder.Known
import Keyspace.Proofs.Plan.Division
import Keyspace.Proofs.Query.Resumption
/-!
# Queries for one key

A query that equates each key attribute of its table with a value, and asks for nothing else, can
find one item only.  Which queries these are is decided by the plan: it looks the table itself up,
and the key answers all conditions.  Then the operands of the conditions make up the key.

Main definitions:

* `Keyspace.Query.AsksForOneKey` — **a query asks for one key**;
* `Keyspace.TableSchema.IsKeyFor` — a key holds what conditions ask for.

Main results:

* `Keyspace.Plan.Divides.answers_all_iff` — when the key of an index answers all conditions by
  equations;
* `Keyspace.Read.pointKey?_eq_some_iff` — the key of a read for one item;
* `Keyspace.Query.pointKey?_isSome_iff` — **the queries for one key**;
* `Keyspace.Query.AsksForOneKey.exists_key` — **their keys**.
-/

set_option autoImplicit false

namespace Keyspace

/-! ### Equations -/

/-- The equation of an attribute with its value. -/
def Condition.ofEntry (e : String × Value) : Condition := Condition.eq e.1 e.2

theorem Condition.map_field_ofEntry (entries : List (String × Value)) :
    (entries.map ofEntry).map field = entries.map Prod.fst := by
  rw [List.map_map]
  rfl

/-- Equations with one operand each are those of some attributes and values. -/
theorem Condition.exists_entries {cs : List Condition}
    (h : ∀ c ∈ cs, c.operator = .eq ∧ ∃ v, c.values = [v]) :
    ∃ entries : List (String × Value), cs = entries.map ofEntry := by
  induction cs with
  | nil => exact ⟨[], rfl⟩
  | cons c rest ih =>
      obtain ⟨⟨hoperator, v, hvalues⟩, hrest⟩ := List.forall_mem_cons.1 h
      obtain ⟨entries, rfl⟩ := ih hrest
      obtain ⟨field, operator, values⟩ := c
      cases hoperator
      cases hvalues
      exact ⟨(field, v) :: entries, rfl⟩

/-- **An equation that a step adds has one operand.** -/
theorem Query.Step.operand_of_equation {ν : Type} [AsOperand ν] {s : Step ν} {c : Condition}
    (h : s.condition? = some c) (heq : c.operator = .eq) : ∃ v, c.values = [v] := by
  cases s with
  | compare field op value =>
      obtain ⟨v, -, rfl⟩ := Option.map_eq_some_iff.1 h
      exact ⟨v, rfl⟩
  | between field low high =>
      obtain ⟨_, -, hrest⟩ := Option.bind_eq_some_iff.1 h
      obtain ⟨_, -, rfl⟩ := Option.map_eq_some_iff.1 hrest
      cases heq
  | oneOf field values =>
      obtain ⟨_, -, rfl⟩ := Option.map_eq_some_iff.1 h
      cases heq
  | condition field op value =>
      obtain ⟨op', -, hrest⟩ := Option.bind_eq_some_iff.1 h
      obtain ⟨v, -, rfl⟩ := Option.map_eq_some_iff.1 hrest
      obtain rfl : op' = .eq := heq
      exact ⟨v, rfl⟩
  | beginsWith _ _ | attributeExists _ | attributeNotExists _ =>
      obtain rfl := Option.some.inj h
      cases heq
  | _ => cases h

/-- So has every equation of a query. -/
theorem Query.operand_of_equation {ν : Type} [AsOperand ν] {s : TableSchema} {config : Config}
    {ss : List (Nat × Step ν)}
    (h : ((Query.new s config).stepsAt ss).error? = none) :
    ∀ c ∈ ((Query.new s config).stepsAt ss).conditions.conditions, c.operator = .eq →
      ∃ v, c.values = [v] := by
  intro c hc heq
  rw [(took_of_error_none h).conditions] at hc
  obtain ⟨step, -, hadds⟩ := List.mem_filterMap.1 hc
  exact Step.operand_of_equation hadds heq

/-! ### Plans whose key answers everything -/

/-- **The key answers all conditions by equations** exactly if they are one equation for each of its
attributes. -/
theorem Plan.Divides.answers_all_iff {p : Plan} {cs : List Condition} (h : p.Divides cs)
    (hkeys : p.index.sortKey ≠ some p.index.partitionKey) (haccess : p.access = .query) :
    (p.filterConditions = [] ∧ (∀ c ∈ p.keyConditions, c.operator = .eq) ∧
        ∀ name, p.index.sortKey = some name → name ∈ p.keyConditions.map Condition.field) ↔
      (∀ c ∈ cs, c.operator = .eq) ∧
        (cs.map Condition.field).Perm (p.index.partitionKey :: p.index.sortKey.toList) := by
  obtain ⟨c, ⟨⟨hfield, heq⟩, -⟩, hkeyed⟩ := h.keyed haccess
  constructor
  · rintro ⟨hfilter, hequations, hsort⟩
    have hperm : p.keyConditions.Perm cs := by simpa [hfilter] using h.all
    refine ⟨fun d hd => hequations d (hperm.mem_iff.2 hd), (hperm.map _).symm.trans ?_⟩
    rcases hkeyed with ⟨hkey, -⟩ | ⟨d, hkey, ⟨hsorts, -⟩, -⟩
    · rw [hkey] at hsort ⊢
      cases hname : p.index.sortKey with
      | none => rw [List.map_singleton, hfield]; exact .refl _
      | some name =>
          -- the only condition is on the partition key, which is not the sort key
          have hsame : name = c.field := by simpa using hsort name hname
          exact absurd (by rw [hname, hsame, hfield]) hkeys
    · rw [hkey, hsorts, List.map_cons, List.map_singleton, hfield]
      exact .refl _
  · rintro ⟨hequations, hfields⟩
    have hnumber : cs.length = p.index.sortKey.toList.length + 1 := by
      rw [← List.length_map Condition.field, hfields.length_eq, List.length_cons]
    have hlength := h.all.length_eq
    rw [List.length_append, hnumber] at hlength
    have hmem : ∀ d ∈ p.keyConditions, d ∈ cs := fun d hd =>
      h.all.mem_iff.1 (List.mem_append_left _ hd)
    rcases hkeyed with ⟨hkey, hnone⟩ | ⟨d, hkey, ⟨hsorts, -⟩, -⟩
    · have hsort : p.index.sortKey = none := by
        cases hname : p.index.sortKey with
        | none => rfl
        | some name =>
            -- the equation for the sort key would be one that the key answers
            obtain ⟨d, hd, hdfield⟩ := List.mem_map.1
              (hfields.mem_iff.2 (by rw [hname]; exact List.mem_cons_of_mem _ List.mem_cons_self))
            exact absurd ⟨by rw [hname, hdfield], by simp [hequations d hd]⟩ (hnone d hd)
      rw [hkey, hsort] at hlength
      refine ⟨List.length_eq_zero_iff.1 (by simpa using hlength), fun d hd =>
        hequations d (hmem d hd), fun name hname => ?_⟩
      rw [hsort] at hname
      cases hname
    · rw [hkey, hsorts] at hlength
      refine ⟨List.length_eq_zero_iff.1 (by simpa using hlength), fun d hd =>
        hequations d (hmem d hd), fun name hname => ?_⟩
      rw [hsorts] at hname
      rw [hkey, ← Option.some.inj hname]
      simp

/-! ### Reads for one item -/

namespace Read

/-- **The key that equations make up.** -/
theorem equatedKey?_ofEntry (entries : List (String × Value)) :
    equatedKey? (entries.map Condition.ofEntry) = some (Dict.ofList entries) := by
  have hall : (entries.map Condition.ofEntry).mapM (fun c : Condition =>
      if c.operator = .eq then c.values.head?.map fun v => (c.field, v) else none) =
        some entries := by
    induction entries with
    | nil => rfl
    | cons e rest ih =>
        rw [List.map_cons, List.mapM_cons, ih]
        rfl
  rw [equatedKey?, hall]
  rfl

/-- Nothing else makes up a key. -/
theorem operator_of_equatedKey? {cs : List Condition} {key : Item}
    (h : equatedKey? cs = some key) : ∀ c ∈ cs, c.operator = .eq := by
  obtain ⟨entries, hall, -⟩ := Option.map_eq_some_iff.1 h
  clear h
  induction cs generalizing entries with
  | nil => intro c hc; cases hc
  | cons c rest ih =>
      rw [List.mapM_cons, Option.bind_eq_bind, Option.bind_eq_some_iff] at hall
      obtain ⟨e, he, hall⟩ := hall
      obtain ⟨more, hmore, -⟩ := Option.bind_eq_some_iff.1 hall
      refine List.forall_mem_cons.2 ⟨?_, ih more hmore⟩
      split at he
      · assumption
      · cases he

/-- **The key of a read for one item**: everything that could find another item is left out. -/
theorem pointKey?_eq_some_iff {r : Read} {key : Item} :
    r.pointKey? = some key ↔
      r.plan.access = .query ∧ r.plan.index.isBase = true ∧ r.plan.filterConditions = [] ∧
        r.fragments = [] ∧ r.start = none ∧ equatedKey? r.plan.keyConditions = some key ∧
        ∀ name, r.plan.index.sortKey = some name → name ∈ key.names := by
  have haccess : r.plan.isScan = false ↔ r.plan.access = .query := by
    unfold Plan.isScan
    cases r.plan.access with
    | query => simp
    | scan => simp
  rw [← haccess]
  unfold pointKey?
  split
  · next hother =>
      simp only [Bool.or_eq_true, Bool.not_eq_true', List.isEmpty_eq_false_iff,
        Option.isSome_iff_ne_none] at hother
      refine ⟨fun h => absurd h (Option.some_ne_none key).symm, fun h => ?_⟩
      obtain ⟨hquery, hbase, hfilter, hfragments, hstart, -⟩ := h
      simp [hquery, hbase, hfilter, hfragments, hstart] at hother
  · next hpoint =>
      simp only [Bool.or_eq_true, not_or, Bool.not_eq_true, Bool.not_eq_false',
        List.isEmpty_iff, Option.isSome_eq_false_iff, Option.isNone_iff_eq_none] at hpoint
      obtain ⟨⟨⟨⟨hquery, hbase⟩, hfilter⟩, hfragments⟩, hstart⟩ := hpoint
      rw [Option.filter_eq_some_iff]
      simp only [hquery, hbase, hfilter, hfragments, hstart, true_and]
      cases r.plan.index.sortKey with
      | none => simp
      | some name => simp

end Read

/-! ### Queries for one key -/

/-- **A query asks for one key**: its plan looks the table itself up, its conditions are one
equation for each key attribute, and it has neither a fragment nor a cursor. -/
structure Query.AsksForOneKey (q : Query) (plan : Plan) : Prop where
  access : plan.access = .query
  index : plan.index = q.schema.baseIndex
  equations : ∀ c ∈ q.conditions.conditions, c.operator = .eq
  attributes : (q.conditions.conditions.map Condition.field).Perm q.schema.keyAttributes
  fragments : q.conditions.fragments = []
  cursor : q.cursor = none

/-- **A key holds what conditions ask for**: the key attributes of a table and nothing else, each
with the operand of its condition. -/
structure TableSchema.IsKeyFor (s : TableSchema) (cs : List Condition) (key : Item) : Prop where
  sorted : key.Sorted
  names : key.names.Perm s.keyAttributes
  operands : ∀ c ∈ cs, ∃ v, c.values = [v] ∧ key.get? c.field = some v

/-- The key attributes of a valid table differ. -/
theorem TableSchema.nodup_keyAttributes {s : TableSchema} (hvalid : s.validate = .ok ()) :
    s.keyAttributes.Nodup := by
  have hkeys : s.sortKey ≠ some s.partitionKey := keys_differ hvalid List.mem_cons_self
  unfold keyAttributes
  cases hsort : s.sortKey with
  | none => simp
  | some name =>
      have hne : s.partitionKey ≠ name := fun h => hkeys (by rw [hsort, h])
      simp [hne]

namespace Query

variable {q : Query} {p : PreparedRead}

/-- The plan of a query divides its conditions; if it reads by key, then by the key of the table or
of one of its indexes. -/
theorem divides_of_planOf (hvalid : q.schema.validate = .ok ()) {cs : List Condition} {plan : Plan}
    (h : q.planOf cs = .ok plan) :
    plan.Divides cs ∧
      (plan.access = .query → plan.index ∈ q.schema.baseIndex :: q.schema.indexes) := by
  unfold planOf at h
  split at h
  · obtain ⟨i, rfl⟩ := TableSchema.scan_cases h
    exact ⟨TableSchema.scanPlan_divides i cs, fun haccess => by cases haccess⟩
  · exact ⟨TableSchema.select_divides hvalid h, fun _ => TableSchema.index_mem_of_select h⟩

/-- A read starts behind a key exactly if the query has a cursor. -/
theorem start_eq_none_iff {r : Read} (h : q.build = .ok r) : r.start = none ↔ q.cursor = none := by
  cases hcursor : q.cursor with
  | some text =>
      obtain ⟨-, key, hstart, -⟩ := start_of_build hcursor h
      simp [hstart]
  | none =>
      rw [build_eq, hcursor] at h
      obtain ⟨planned, hplanned, hread⟩ := bind_eq_ok h
      obtain rfl := Except.ok.inj hread
      simp [start_of_planned hplanned]

/-- The plan of a prepared query is that of its conditions. -/
theorem planOf_of_prepare (hp : q.prepare = .ok p) :
    q.planOf q.conditions.conditions = .ok p.read.plan ∧
      p.read.fragments = q.conditions.fragments := by
  obtain ⟨plan, start, hplan, hread⟩ := build_spec (prepare_spec hp).1
  rw [hread]
  exact ⟨hplan, rfl⟩

variable (hvalid : q.schema.validate = .ok ()) (hp : q.prepare = .ok p)
  (hoperands : ∀ c ∈ q.conditions.conditions, c.operator = .eq → ∃ v, c.values = [v])
include hvalid hp hoperands

/-- If the key answers all conditions by equations, they are those of some attributes and values. -/
theorem exists_entries_of_prepare (hfilter : p.read.plan.filterConditions = [])
    (hequations : ∀ c ∈ p.read.plan.keyConditions, c.operator = .eq) :
    p.read.plan.keyConditions.Perm q.conditions.conditions ∧
      ∃ entries : List (String × Value),
        p.read.plan.keyConditions = entries.map Condition.ofEntry := by
  have hdivides := (divides_of_planOf hvalid (planOf_of_prepare hp).1).1
  have hperm : p.read.plan.keyConditions.Perm q.conditions.conditions := by
    simpa [hfilter] using hdivides.all
  exact ⟨hperm, Condition.exists_entries fun c hc =>
    ⟨hequations c hc, hoperands c (hperm.mem_iff.1 hc) (hequations c hc)⟩⟩

/-- **The keys of queries for one key.** -/
theorem AsksForOneKey.exists_key (h : q.AsksForOneKey p.read.plan) :
    ∃ entries : List (String × Value),
      p.read.plan.keyConditions = entries.map Condition.ofEntry ∧
      p.read.plan.filterConditions = [] ∧
      (entries.map Prod.fst).Perm q.schema.keyAttributes ∧
      p.read.pointKey? = some (Dict.ofList entries) ∧
      q.schema.IsKeyFor q.conditions.conditions (Dict.ofList entries) := by
  obtain ⟨hplan, hfragments⟩ := planOf_of_prepare hp
  obtain ⟨hdivides, hmem⟩ := divides_of_planOf hvalid hplan
  have hkeys := TableSchema.keys_differ hvalid (hmem h.access)
  have hattributes : (q.conditions.conditions.map Condition.field).Perm
      (p.read.plan.index.partitionKey :: p.read.plan.index.sortKey.toList) := by
    rw [h.index]
    exact h.attributes
  obtain ⟨hfilter, hequations, hsort⟩ :=
    (hdivides.answers_all_iff hkeys h.access).2 ⟨h.equations, hattributes⟩
  obtain ⟨hperm, entries, hentries⟩ :=
    exists_entries_of_prepare hvalid hp hoperands hfilter hequations
  have hfields : (entries.map Prod.fst).Perm q.schema.keyAttributes := by
    rw [← Condition.map_field_ofEntry, ← hentries]
    exact (hperm.map _).trans h.attributes
  have hnodup := hfields.nodup_iff.2 (TableSchema.nodup_keyAttributes hvalid)
  refine ⟨entries, hentries, hfilter, hfields, Read.pointKey?_eq_some_iff.2 ⟨h.access, ?_, hfilter,
    ?_, ?_, ?_, fun name hname => ?_⟩, Dict.sorted_ofList _, ?_, fun c hc => ?_⟩
  · rw [h.index]
    rfl
  · rw [hfragments, h.fragments]
  · exact (start_eq_none_iff (prepare_spec hp).1).2 h.cursor
  · rw [hentries, Read.equatedKey?_ofEntry]
  · rw [Dict.mem_names_ofList, ← Condition.map_field_ofEntry, ← hentries]
    exact hsort name hname
  · exact ((Dict.ofList_perm hnodup).map Prod.fst).trans hfields
  · obtain ⟨e, he, rfl⟩ := List.mem_map.1 (hentries ▸ hperm.mem_iff.2 hc)
    exact ⟨e.2, rfl,
      (Dict.sorted_ofList entries).get?_of_mem ((Dict.ofList_perm hnodup).mem_iff.2 he)⟩

/-- **A query is read by the key of one item exactly if it asks for one key.** -/
theorem pointKey?_isSome_iff :
    p.read.pointKey?.isSome = true ↔ q.AsksForOneKey p.read.plan := by
  constructor
  · intro h
    obtain ⟨key, hkey⟩ := Option.isSome_iff_exists.1 h
    obtain ⟨haccess, hbase, hfilter, hfragments, hstart, hequated, hsort⟩ :=
      Read.pointKey?_eq_some_iff.1 hkey
    obtain ⟨hplan, hsame⟩ := planOf_of_prepare hp
    obtain ⟨hdivides, hmem⟩ := divides_of_planOf hvalid hplan
    have hindex := (TableSchema.isBase_iff hvalid (hmem haccess)).1 hbase
    have hequations := Read.operator_of_equatedKey? hequated
    obtain ⟨-, entries, hentries⟩ :=
      exists_entries_of_prepare hvalid hp hoperands hfilter hequations
    have hnamed : ∀ name, p.read.plan.index.sortKey = some name →
        name ∈ p.read.plan.keyConditions.map Condition.field := by
      intro name hname
      have hmemName := hsort name hname
      rw [hentries, Read.equatedKey?_ofEntry] at hequated
      obtain rfl := Option.some.inj hequated
      rwa [hentries, Condition.map_field_ofEntry, ← Dict.mem_names_ofList]
    obtain ⟨hall, hattributes⟩ := (hdivides.answers_all_iff
      (TableSchema.keys_differ hvalid (hmem haccess)) haccess).1 ⟨hfilter, hequations, hnamed⟩
    rw [hindex] at hattributes
    exact ⟨haccess, hindex, hall, hattributes, hsame ▸ hfragments,
      (start_eq_none_iff (prepare_spec hp).1).1 hstart⟩
  · intro h
    obtain ⟨entries, -, -, -, hkey, -⟩ := h.exists_key hvalid hp hoperands
    rw [hkey]
    rfl

end Query

end Keyspace
