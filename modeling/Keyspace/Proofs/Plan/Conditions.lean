import Keyspace.Plan
/-!
# The conditions of a plan

A plan hands each condition either to the key or to the filter.  It drops none, adds none, and
takes none twice.

Main results:

* `Keyspace.Index.split_perm`, `Keyspace.Index.partitionFirst_perm` — dividing and reordering
  conditions;
* `Keyspace.TableSchema.select_perm`, `Keyspace.TableSchema.scan_perm` — **the conditions of a plan
  are the given ones**;
* `Keyspace.TableSchema.select_keyConditions` — a plan that reads everything leaves all of them to
  the filter.
-/

set_option autoImplicit false

namespace Keyspace

namespace Index

/-- The two parts of a divided list make up the list. -/
theorem partition_perm {α : Type} (p : α → Bool) (xs : List α) :
    ((xs.partition p).1 ++ (xs.partition p).2).Perm xs := by
  rw [List.partition_eq_filter_filter]
  exact List.filter_append_perm p xs

theorem split_perm (i : Index) (cs : List Condition) :
    ((i.split cs).1 ++ (i.split cs).2).Perm cs := by
  have hparts := (partition_perm (fun c : Condition × Nat =>
    [i.partitionCondition? cs, i.sortCondition? cs].contains (some c.2)) cs.zipIdx).map Prod.fst
  rw [List.map_append, List.zipIdx_map_fst] at hparts
  exact hparts

theorem partitionFirst_perm (i : Index) (cs : List Condition) : (i.partitionFirst cs).Perm cs :=
  partition_perm (fun c : Condition => c.field == i.partitionKey) cs

end Index

namespace TableSchema

theorem queryPlan_perm (s : TableSchema) (i : Index) (cs : List Condition) :
    ((s.queryPlan i cs).keyConditions ++ (s.queryPlan i cs).filterConditions).Perm cs :=
  ((i.partitionFirst_perm (i.split cs).1).append_right (i.split cs).2).trans (i.split_perm cs)

theorem scanPlan_perm (s : TableSchema) (i : Index) (cs : List Condition) :
    ((s.scanPlan i cs).keyConditions ++ (s.scanPlan i cs).filterConditions).Perm cs :=
  List.Perm.refl cs

/-- The two kinds of plans that are selected. -/
theorem select_cases {s : TableSchema} {cs : List Condition} {index : Option String}
    {projection : List String} {p : Plan} (h : s.select cs index projection = .ok p) :
    ∃ i, p = s.queryPlan i cs ∨ p = s.scanPlan i cs := by
  cases index with
  | some name =>
      cases hi : s.named name with
      | error e => simp [select, hi, bind, Except.bind] at h
      | ok i =>
          simp only [select, hi, bind, Except.bind, Except.ok.injEq] at h
          rw [← h]
          split
          · exact ⟨i, Or.inl rfl⟩
          · exact ⟨i, Or.inr rfl⟩
  | none =>
      simp only [select, Except.ok.injEq] at h
      rw [← h]
      split
      · exact ⟨_, Or.inl rfl⟩
      · exact ⟨_, Or.inr rfl⟩

/-- The only kind of plan for a scan. -/
theorem scan_cases {s : TableSchema} {cs : List Condition} {index : Option String} {p : Plan}
    (h : s.scan cs index = .ok p) : ∃ i, p = s.scanPlan i cs := by
  cases index with
  | some name =>
      cases hi : s.named name with
      | error e => simp [scan, hi, bind, Except.bind] at h
      | ok i =>
          simp only [scan, hi, bind, Except.bind, Except.ok.injEq] at h
          exact ⟨i, h.symm⟩
  | none =>
      simp only [scan, Except.ok.injEq] at h
      exact ⟨_, h.symm⟩

/-- **A selected plan has the given conditions.** -/
theorem select_perm {s : TableSchema} {cs : List Condition} {index : Option String}
    {projection : List String} {p : Plan} (h : s.select cs index projection = .ok p) :
    (p.keyConditions ++ p.filterConditions).Perm cs := by
  obtain ⟨i, rfl | rfl⟩ := select_cases h
  · exact s.queryPlan_perm i cs
  · exact s.scanPlan_perm i cs

/-- **The plan of a scan has the given conditions.** -/
theorem scan_perm {s : TableSchema} {cs : List Condition} {index : Option String} {p : Plan}
    (h : s.scan cs index = .ok p) : (p.keyConditions ++ p.filterConditions).Perm cs := by
  obtain ⟨i, rfl⟩ := scan_cases h
  exact s.scanPlan_perm i cs

/-- A plan that reads everything hands nothing to the key. -/
theorem select_keyConditions {s : TableSchema} {cs : List Condition} {index : Option String}
    {projection : List String} {p : Plan} (h : s.select cs index projection = .ok p)
    (hscan : p.isScan = true) : p.keyConditions = [] := by
  obtain ⟨i, rfl | rfl⟩ := select_cases h
  · have hquery : (s.queryPlan i cs).isScan = false := rfl
    rw [hquery] at hscan
    cases hscan
  · rfl

end TableSchema

end Keyspace
