import Keyspace.Proofs.Plan.Positions
import Keyspace.Proofs.Plan.Selection
/-!
# Plans for whole items

A projection takes part in a plan: an index is preferred to others that are keyed as well if it
covers what is projected.  Without the projection whole items are wanted, and then another index may
be the first of the best.  The plan is the same if the index that was taken shows whole items.  In
any case both plans read by key or both read everything, and they have the same conditions.

Main definitions:

* `Keyspace.Query.whole` — a query without its projection;
* `Keyspace.Query.KeepsPlan` — a plan that does not depend on the projection;
* `Keyspace.Plan.Beside` — the plans of a query with and without its projection.

Main results:

* `Keyspace.TableSchema.best_of_whole` — the best index, if it shows whole items;
* `Keyspace.Query.planOf_whole` — **a query is planned with and without its projection**.
-/

set_option autoImplicit false

namespace Keyspace

/-! ### Indexes that show whole items -/

namespace TableSchema

variable {s : TableSchema} {cs : List Condition} {projection : List String}

/-- An index that covers whole items covers whatever is projected of them. -/
theorem Covers.of_whole {i : Index} (h : s.Covers i cs []) : s.Covers i cs projection := by
  rcases h with hlocal | ⟨-, hall⟩ | ⟨hne, -⟩
  · exact .inl hlocal
  · cases projection with
    | nil => exact .inr (.inl ⟨rfl, hall⟩)
    | cons path rest =>
        have hholds : ∀ name, s.Holds i name := fun _ => .inr (.inr (.inr (.inl hall)))
        exact .inr (.inr ⟨List.cons_ne_nil path rest, fun _ _ => hholds _, fun _ _ => hholds _⟩)
  · exact absurd rfl hne

/-- The table shows whole items. -/
theorem covers_baseIndex : s.Covers s.baseIndex cs [] := .inr (.inl ⟨rfl, rfl⟩)

/-- Two elements of a list neither of which stands before the other are the same. -/
theorem eq_of_not_mem_before {α : Type} {before after before' after' : List α} {x y : α}
    (h : before ++ x :: after = before' ++ y :: after') (hx : x ∉ before') (hy : y ∉ before) :
    x = y := by
  rcases List.append_eq_append_iff.1 h with ⟨more, rfl, hmore⟩ | ⟨more, rfl, hmore⟩
  · cases more with
    | nil => exact (List.cons.inj hmore).1
    | cons z rest =>
        obtain rfl := (List.cons.inj hmore).1
        exact absurd (List.mem_append_right _ List.mem_cons_self) hx
  · cases more with
    | nil => exact (List.cons.inj hmore).1.symm
    | cons z rest =>
        obtain rfl := (List.cons.inj hmore).1
        exact absurd (List.mem_append_right _ List.mem_cons_self) hy

/-- No candidate is better than the best, and those before it are worse. -/
theorem best_is_best {is : List Index} {i : Index} (h : best (s.rank cs projection) is = some i) :
    i ∈ is ∧ ∀ j ∈ is, s.merit cs projection j ≤ s.merit cs projection i := by
  obtain ⟨before, after, rfl, hbefore, hafter⟩ := best_spec h
  refine ⟨List.mem_append_right _ List.mem_cons_self, fun j hj => ?_⟩
  rcases List.mem_append.1 hj with hj | hj
  · exact (hbefore j hj).le
  · rcases List.mem_cons.1 hj with rfl | hj
    · exact le_rfl
    · exact hafter j hj

/-- **The best index is the best for whole items** if it shows them. -/
theorem best_of_whole {is : List Index} {i : Index} (h : best (s.rank cs projection) is = some i)
    (hwhole : s.Covers i cs []) : best (s.rank cs []) is = some i := by
  cases hbest : best (s.rank cs []) is with
  | none =>
      obtain rfl := best_eq_none hbest
      cases h
  | some j =>
      have hji := (best_is_best h).2 j (best_is_best hbest).1
      have hij := (best_is_best hbest).2 i (best_is_best h).1
      -- both are sorted alike, and so the second one shows whole items, too
      have hsorted : i.IsSortedBy cs ↔ j.IsSortedBy cs :=
        ⟨sorted_of_merit_le hij, sorted_of_merit_le hji⟩
      have hwhole' : s.Covers j cs [] := covers_of_merit_le hij hsorted.2 hwhole
      have hmerit : ∀ paths, s.merit cs paths i = s.merit cs paths j := by
        intro paths
        simp only [merit, hsorted, decide_eq_true hwhole.of_whole, decide_eq_true hwhole'.of_whole]
      obtain ⟨before, after, rfl, hbefore, -⟩ := best_spec h
      obtain ⟨before', after', his, hbefore', -⟩ := best_spec hbest
      rw [eq_of_not_mem_before his (fun hi => ?_) fun hj => ?_]
      · exact absurd (hmerit []) (hbefore' i hi).ne
      · exact absurd (hmerit projection).symm (hbefore j hj).ne

/-! ### Plans -/

end TableSchema

/-- **Two plans for the same conditions**, whatever they read by key: they read the same table, both
by key or both everything. -/
structure Plan.Beside (plan plan' : Plan) : Prop where
  table : plan'.table = plan.table
  access : plan'.access = plan.access
  conditions : (plan'.keyConditions ++ plan'.filterConditions).Perm
    (plan.keyConditions ++ plan.filterConditions)

theorem Plan.Beside.refl (plan : Plan) : plan.Beside plan := ⟨rfl, rfl, .refl _⟩

namespace TableSchema

/-- **An index is selected with and without a projection**, and it is the same if one is asked for,
or if the first one shows whole items. -/
theorem select_whole (s : TableSchema) (cs : List Condition) (index : Option String)
    (projection : List String) :
    AlikeOutcomes
      (fun plan plan' => plan.Beside plan' ∧
        (index ≠ none ∨ s.Covers plan.index cs [] → plan' = plan))
      (s.select cs index projection) (s.select cs index []) := by
  cases index with
  | some name =>
      exact .refl (fun plan => ⟨.refl plan, fun _ => rfl⟩) (s.select cs (some name) projection)
  | none =>
      unfold select
      simp only
      refine .ok ?_
      cases hbest : best (s.rank cs projection)
          ((s.baseIndex :: s.indexes).filter fun i => i.serves cs) with
      | none =>
          have hnone := best_eq_none hbest
          simp only [hnone, best]
          exact ⟨.refl _, fun _ => trivial⟩
      | some i =>
          cases hbest' : best (s.rank cs [])
              ((s.baseIndex :: s.indexes).filter fun i => i.serves cs) with
          | none =>
              rw [best_eq_none hbest'] at hbest
              cases hbest
          | some j =>
              refine ⟨⟨rfl, rfl, (s.queryPlan_perm j cs).trans (s.queryPlan_perm i cs).symm⟩, ?_⟩
              rintro (hne | hwhole)
              · exact absurd rfl hne
              · rw [best_of_whole hbest hwhole] at hbest'
                rw [Option.some.inj hbest']

end TableSchema

/-! ### Queries -/

namespace Query

/-- **The query for whole items.** -/
def whole (q : Query) : Query := { q with projection := [] }

/-- **A plan that does not depend on the projection of a query**: there is none, or the index was
asked for, or it shows whole items. -/
def KeepsPlan (q : Query) (cs : List Condition) (plan : Plan) : Prop :=
  q.projection = [] ∨ q.scans = true ∨ q.index ≠ none ∨ q.schema.Covers plan.index cs []

/-- A query without projection is for whole items. -/
theorem whole_of_projection_nil {q : Query} (h : q.projection = []) : q.whole = q := by
  cases q
  cases h
  rfl

/-- **A query is planned with and without its projection**, or there is the same error. -/
theorem planOf_whole (q : Query) (cs : List Condition) :
    AlikeOutcomes (fun plan plan' => plan.Beside plan' ∧ (q.KeepsPlan cs plan → plan' = plan))
      (q.planOf cs) (q.whole.planOf cs) := by
  by_cases hnone : q.projection = []
  · rw [whole_of_projection_nil hnone]
    exact .refl (fun plan => ⟨.refl plan, fun _ => rfl⟩) _
  · cases hscans : q.scans with
    | true =>
        have hsame : q.whole.planOf cs = q.planOf cs := by simp [planOf, whole, hscans]
        rw [hsame]
        exact .refl (fun plan => ⟨.refl plan, fun _ => rfl⟩) _
    | false =>
        have hselect : q.planOf cs = q.schema.select cs q.index q.projection := by
          simp [planOf, hscans]
        have hwhole : q.whole.planOf cs = q.schema.select cs q.index [] := by
          simp [planOf, whole, hscans]
        rw [hselect, hwhole]
        refine (q.schema.select_whole cs q.index q.projection).imp fun plan plan' _ h => ⟨h.1, ?_⟩
        intro hkeeps
        exact h.2 ((hkeeps.resolve_left hnone).resolve_left (by simp [hscans]))

/-- Only global indexes hide something: a plan on any other does not depend on the projection. -/
theorem keepsPlan_of_kind {q : Query} {cs : List Condition} {plan : Plan}
    (h : q.planOf cs = .ok plan) (hkinds : ∀ i ∈ q.schema.indexes, i.kind ≠ .table)
    (hkind : plan.index.kind ≠ .globalIndex) : q.KeepsPlan cs plan := by
  unfold planOf at h
  split at h
  · next hscans => exact .inr (.inl hscans)
  · refine .inr (.inr (.inr ?_))
    rcases List.mem_cons.1 (TableSchema.index_mem_of_select h) with hbase | hindex
    · rw [hbase]
      exact TableSchema.covers_baseIndex
    · refine .inl ?_
      cases hlocal : plan.index.kind with
      | localIndex => rfl
      | globalIndex => exact absurd hlocal hkind
      | table => exact absurd hlocal (hkinds _ hindex)

end Query

end Keyspace
