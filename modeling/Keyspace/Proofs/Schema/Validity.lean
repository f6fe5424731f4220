import Keyspace.Schema
/-!
# Valid schemas

A schema is checked index by index, with the names seen so far.  What the check amounts to does
not depend on the order: every index is sound in itself, and no two have the same name.  So an
index of a valid schema is found under its name, and no request can mean another one.

Main definitions:

* `Keyspace.Index.IsSound` — an index has a name and keys of its own;
* `Keyspace.HasDistinctKeys`, `Keyspace.TableSchema.IsUnambiguous` — nothing in a schema can be
  taken for something else.

Main results:

* `Keyspace.TableSchema.validate_iff`, `Keyspace.TableSchema.validate_iff_isUnambiguous` — **the
  valid schemas**;
* `Keyspace.TableSchema.index?_of_mem` — an index is found under its name;
* `Keyspace.TableSchema.requestName_spec` — **the name under which a request asks for an index**.
-/

set_option autoImplicit false

namespace Keyspace

/-- **Keys that are not ambiguous**: both have a name, and not the same. -/
structure HasDistinctKeys (partitionKey : String) (sortKey : Option String) : Prop where
  partition : partitionKey ≠ ""
  sort : ∀ key, sortKey = some key → key ≠ "" ∧ key ≠ partitionKey

theorem invalidKeys?_eq_none_iff {owner partitionKey : String} {sortKey : Option String} :
    invalidKeys? owner partitionKey sortKey = none ↔ HasDistinctKeys partitionKey sortKey := by
  unfold invalidKeys?
  constructor
  · intro h
    split at h
    · cases h
    · next hpartition =>
        refine ⟨fun hempty => hpartition (String.isEmpty_iff.2 hempty), ?_⟩
        rintro key rfl
        by_cases hempty : key = ""
        · simp [hempty] at h
        · by_cases hsame : key = partitionKey
          · subst hsame
            simp [hempty] at h
          · exact ⟨hempty, hsame⟩
  · rintro ⟨hpartition, hsort⟩
    rw [if_neg fun hempty => hpartition (String.isEmpty_iff.1 hempty)]
    cases sortKey with
    | none => rfl
    | some key =>
        obtain ⟨hempty, hsame⟩ := hsort key rfl
        simp [hempty, hsame]

/-- Keys that are not ambiguous are two. -/
theorem HasDistinctKeys.ne {partitionKey : String} {sortKey : Option String}
    (h : HasDistinctKeys partitionKey sortKey) : sortKey ≠ some partitionKey :=
  fun hsame => (h.sort partitionKey hsame).2 rfl

/-- An index with a name and with keys that are not ambiguous; a local index shares the partition
key of its table. -/
structure Index.IsSound (i : Index) (s : TableSchema) : Prop where
  named : i.name ≠ ""
  keys : invalidKeys? i.name i.partitionKey i.sortKey = none
  partition : i.kind = .localIndex → i.partitionKey = s.partitionKey

namespace TableSchema

theorem invalidIndex?_eq_none_iff {s : TableSchema} {earlier : List String} {i : Index} :
    s.invalidIndex? earlier i = none ↔ i.IsSound s ∧ i.name ∉ earlier := by
  unfold invalidIndex?
  constructor
  · intro h
    split at h
    · cases h
    · next hnamed =>
        split at h
        · cases h
        · next hnew =>
            split at h
            · cases h
            · next hkeys =>
                split at h
                · cases h
                · next hlocal =>
                    have hpartition : i.kind = .localIndex → i.partitionKey = s.partitionKey :=
                      fun hkind => Decidable.byContradiction fun hne => hlocal ⟨hkind, hne⟩
                    exact ⟨⟨by simpa using hnamed, hkeys, hpartition⟩, by simpa using hnew⟩
  · rintro ⟨⟨hnamed, hkeys, hpartition⟩, hnew⟩
    rw [if_neg (by simpa using hnamed), if_neg (by simpa using hnew), hkeys]
    exact if_neg fun ⟨hkind, hne⟩ => hne (hpartition hkind)

/-- Some indexes are right after others if each is sound and all names differ. -/
theorem invalidIndexes?_eq_none_iff {s : TableSchema} {earlier : List String} {is : List Index} :
    s.invalidIndexes? earlier is = none ↔
      (∀ i ∈ is, i.IsSound s ∧ i.name ∉ earlier) ∧ (is.map Index.name).Nodup := by
  induction is generalizing earlier with
  | nil => simp [invalidIndexes?]
  | cons i rest ih =>
      unfold invalidIndexes?
      rw [List.forall_mem_cons, List.map_cons, List.nodup_cons]
      constructor
      · intro h
        split at h
        · cases h
        · next hfirst =>
            obtain ⟨hrest, hdistinct⟩ := ih.1 h
            refine ⟨⟨invalidIndex?_eq_none_iff.1 hfirst, ?_⟩, ?_, hdistinct⟩
            · intro j hj
              obtain ⟨hsound, hnew⟩ := hrest j hj
              exact ⟨hsound, fun hmem => hnew (List.mem_cons_of_mem _ hmem)⟩
            · intro hmem
              obtain ⟨j, hj, hname⟩ := List.mem_map.1 hmem
              exact (hrest j hj).2 (by rw [hname]; exact List.mem_cons_self)
      · rintro ⟨⟨hfirst, hrest⟩, hother, hdistinct⟩
        rw [invalidIndex?_eq_none_iff.2 hfirst]
        refine ih.2 ⟨?_, hdistinct⟩
        intro j hj
        obtain ⟨hsound, hnew⟩ := hrest j hj
        refine ⟨hsound, fun hmem => ?_⟩
        rcases List.mem_cons.1 hmem with hname | hmem
        · exact hother (List.mem_map.2 ⟨j, hj, hname⟩)
        · exact hnew hmem

/-- **A schema is valid** if the table has a name and keys that are not ambiguous, every index is
sound, and no two indexes have the same name. -/
theorem validate_iff {s : TableSchema} :
    s.validate = .ok () ↔
      s.table ≠ "" ∧ invalidKeys? s.table s.partitionKey s.sortKey = none ∧
        (∀ i ∈ s.indexes, i.IsSound s) ∧ (s.indexes.map Index.name).Nodup := by
  have hindexes : s.invalidIndexes? [] s.indexes = none ↔
      (∀ i ∈ s.indexes, i.IsSound s) ∧ (s.indexes.map Index.name).Nodup := by
    rw [invalidIndexes?_eq_none_iff]
    simp
  have hvalid : s.validate = .ok () ↔ s.invalid? = none := by
    unfold validate
    cases s.invalid? <;> simp
  rw [hvalid, ← hindexes]
  unfold invalid?
  by_cases htable : s.table = ""
  · simp [htable]
  · cases hkeys : invalidKeys? s.table s.partitionKey s.sortKey <;> simp [htable]

/-- **An index is found under its name** if no other has the same. -/
theorem index?_of_mem {s : TableSchema} (hdistinct : (s.indexes.map Index.name).Nodup) {i : Index}
    (hi : i ∈ s.indexes) : s.index? i.name = some i := by
  unfold index?
  revert hi hdistinct
  generalize s.indexes = is
  intro hdistinct hi
  induction is with
  | nil => cases hi
  | cons first rest ih =>
      rw [List.map_cons, List.nodup_cons] at hdistinct
      rcases List.mem_cons.1 hi with rfl | hi
      · simp
      · have hne : first.name ≠ i.name := by
          intro hname
          exact hdistinct.1 (List.mem_map.2 ⟨i, hi, hname.symm⟩)
        rw [List.find?_cons_of_neg (by simpa using hne)]
        exact ih hdistinct.2 hi

/-! ### What the check is for -/

/-- **A schema in which nothing can be taken for something else.** -/
structure IsUnambiguous (s : TableSchema) : Prop where
  table : s.table ≠ ""
  keys : HasDistinctKeys s.partitionKey s.sortKey
  named : ∀ i ∈ s.indexes, i.name ≠ ""
  distinct : (s.indexes.map Index.name).Nodup
  indexKeys : ∀ i ∈ s.indexes, HasDistinctKeys i.partitionKey i.sortKey
  shared : ∀ i ∈ s.indexes, i.kind = .localIndex → i.partitionKey = s.partitionKey

/-- **The valid schemas are the unambiguous ones.** -/
theorem validate_iff_isUnambiguous {s : TableSchema} :
    s.validate = .ok () ↔ s.IsUnambiguous := by
  rw [validate_iff]
  constructor
  · rintro ⟨htable, hkeys, hsound, hdistinct⟩
    exact
      { table := htable
        keys := invalidKeys?_eq_none_iff.1 hkeys
        named := fun i hi => (hsound i hi).named
        distinct := hdistinct
        indexKeys := fun i hi => invalidKeys?_eq_none_iff.1 (hsound i hi).keys
        shared := fun i hi => (hsound i hi).partition }
  · intro h
    refine ⟨h.table, invalidKeys?_eq_none_iff.2 h.keys, fun i hi => ?_, h.distinct⟩
    exact ⟨h.named i hi, invalidKeys?_eq_none_iff.2 (h.indexKeys i hi), h.shared i hi⟩

/-- Of the indexes of a valid table only the table itself has no name. -/
theorem isBase_iff {s : TableSchema} (hvalid : s.validate = .ok ()) {i : Index}
    (hi : i ∈ s.baseIndex :: s.indexes) : i.isBase = true ↔ i = s.baseIndex := by
  constructor
  · intro hbase
    rcases List.mem_cons.1 hi with hi | hi
    · exact hi
    · exact absurd (String.isEmpty_iff.1 hbase)
        ((validate_iff_isUnambiguous.1 hvalid).named i hi)
  · rintro rfl
    rfl

/-- **The name under which a request asks for an index** of a valid table: the table itself has
none, and every other index is found under its own. -/
theorem requestName_spec {s : TableSchema} (hvalid : s.validate = .ok ()) {i : Index}
    (hi : i ∈ s.baseIndex :: s.indexes) :
    (i.requestName = none ↔ i = s.baseIndex) ∧
      ∀ name, i.requestName = some name → i.name = name ∧ s.index? name = some i := by
  unfold Index.requestName
  split
  · next hbase =>
      refine ⟨⟨fun _ => (isBase_iff hvalid hi).1 hbase, fun _ => rfl⟩, ?_⟩
      rintro name ⟨⟩
  · next hbase =>
      have hne : i ≠ s.baseIndex := fun h => hbase ((isBase_iff hvalid hi).2 h)
      have hmem : i ∈ s.indexes := (List.mem_cons.1 hi).resolve_left hne
      refine ⟨⟨fun hnone => ?_, fun h => absurd h hne⟩, ?_⟩
      · cases hnone
      · rintro name ⟨⟩
        exact ⟨rfl, index?_of_mem (validate_iff_isUnambiguous.1 hvalid).distinct hmem⟩

end TableSchema

end Keyspace
