import Keyspace.Proofs.Plan.Conditions
import Mathlib.Data.Bool.Basic
import Mathlib.Data.Prod.Lex
/-!
# The index that is selected

Of the table and its indexes those can be read by key whose partition key some condition equates
with a value.  Among them the best has the greatest merit: first that a key can answer a condition
on its sort key, and then that it covers the read.  Of several that are equally good the first is
selected, the table before its indexes.

Main definitions:

* `Keyspace.Index.IsKeyedBy`, `Keyspace.Index.IsSortedBy` — conditions name the keys of an index;
* `Keyspace.TableSchema.Holds`, `Keyspace.TableSchema.Covers` — what can be read from an index;
* `Keyspace.TableSchema.merit` — how good an index is for a read;
* `Keyspace.Plan.IsLookup`, `Keyspace.Plan.IsFullScan` — the two kinds of plans.

Main results:

* `Keyspace.TableSchema.best_spec` — the first of the best;
* `Keyspace.TableSchema.select_spec`, `Keyspace.TableSchema.select_named_spec` — the two ways to
  select an index;
* `Keyspace.TableSchema.exists_index_of_select` — the index of a plan, whichever way;
* `Keyspace.TableSchema.takes_the_first_best_index` — **the plan of a read**.
-/

set_option autoImplicit false

namespace Keyspace

/-! ### Conditions on keys -/

namespace Index

/-- Some condition equates the partition key with a value. -/
def IsKeyedBy (i : Index) (cs : List Condition) : Prop :=
  ∃ c ∈ cs, c.field = i.partitionKey ∧ c.operator = .eq

/-- A key can answer some condition on the sort key: an equation, a comparison by order or a
prefix. -/
def IsSortedBy (i : Index) (cs : List Condition) : Prop :=
  ∃ c ∈ cs, i.sortKey = some c.field ∧
    c.operator ∈ [.eq, .lt, .le, .gt, .ge, .between, .beginsWith]

instance (i : Index) (cs : List Condition) : Decidable (i.IsKeyedBy cs) :=
  inferInstanceAs (Decidable (∃ c ∈ cs, c.field = i.partitionKey ∧ c.operator = .eq))

instance (i : Index) (cs : List Condition) : Decidable (i.IsSortedBy cs) :=
  inferInstanceAs (Decidable (∃ c ∈ cs, i.sortKey = some c.field ∧
    c.operator ∈ [.eq, .lt, .le, .gt, .ge, .between, .beginsWith]))

theorem servesSortKey_iff (op : Operator) :
    op.servesSortKey = true ↔ op ∈ [.eq, .lt, .le, .gt, .ge, .between, .beginsWith] := by
  cases op <;> decide

theorem serves_iff {i : Index} {cs : List Condition} : i.serves cs = true ↔ i.IsKeyedBy cs := by
  simp [serves, partitionCondition?, isPartitionCondition, IsKeyedBy]

theorem sortCondition?_isSome_iff {i : Index} {cs : List Condition} :
    (i.sortCondition? cs).isSome = true ↔ i.IsSortedBy cs := by
  simp only [sortCondition?, List.findIdx?_isSome, List.any_eq_true, isSortCondition,
    Bool.and_eq_true, beq_iff_eq, servesSortKey_iff, IsSortedBy]

end Index

/-! ### What an index shows -/

namespace TableSchema

/-- An attribute can be read from an index: it is one of the keys of the table or of the index, or
it is projected. -/
def Holds (s : TableSchema) (i : Index) (name : String) : Prop :=
  name ∈ s.keyAttributes ∨ i.partitionKey = name ∨ i.sortKey = some name ∨
    i.projection = .all ∨ ∃ attributes, i.projection = .including attributes ∧ name ∈ attributes

/-- **Everything that a read touches can be read from an index.**  A local index fetches what it
does not hold from the table, and who projects nothing wants everything. -/
def Covers (s : TableSchema) (i : Index) (cs : List Condition) (projection : List String) : Prop :=
  i.kind = .localIndex ∨ (projection = [] ∧ i.projection = .all) ∨
    (projection ≠ [] ∧ (∀ c ∈ cs, s.Holds i (rootAttribute c.field)) ∧
      ∀ path ∈ projection, s.Holds i (rootAttribute path))

theorem projects_iff {s : TableSchema} {i : Index} {name : String} :
    i.projects s.keyAttributes name = true ↔ s.Holds i name := by
  unfold Index.projects Holds
  cases i.projection with
  | all => simp
  | keysOnly => simp [or_assoc]
  | including attributes => simp [or_assoc]

instance (s : TableSchema) (i : Index) (name : String) : Decidable (s.Holds i name) :=
  decidable_of_iff _ projects_iff

theorem covers_iff {s : TableSchema} {i : Index} {cs : List Condition}
    {projection : List String} :
    s.covers i cs projection = true ↔ s.Covers i cs projection := by
  unfold covers Covers
  by_cases hkind : i.kind = .localIndex
  · simp [hkind]
  · cases projection with
    | nil => simp [hkind]
    | cons path rest =>
        simp [hkind, projects_iff]

instance (s : TableSchema) (i : Index) (cs : List Condition) (projection : List String) :
    Decidable (s.Covers i cs projection) :=
  decidable_of_iff _ covers_iff

/-! ### The first of the best -/

/-- **How good an index is for a read**: that a condition is on its sort key counts more than that
it covers the read. -/
def merit (s : TableSchema) (cs : List Condition) (projection : List String) (i : Index) :
    Bool ×ₗ Bool :=
  toLex (decide (i.IsSortedBy cs), decide (s.Covers i cs projection))

/-- A better rank is a greater pair. -/
theorem better_iff (r t : Rank) :
    r.better t = true ↔
      (toLex (t.sorted, t.covers) : Bool ×ₗ Bool) < toLex (r.sorted, r.covers) := by
  obtain ⟨sorted, covers⟩ := r
  obtain ⟨sorted', covers'⟩ := t
  revert sorted covers sorted' covers'
  decide

theorem merit_eq (s : TableSchema) (cs : List Condition) (projection : List String) (i : Index) :
    s.merit cs projection i =
      toLex ((s.rank cs projection i).sorted, (s.rank cs projection i).covers) := by
  have hsorted : decide (i.IsSortedBy cs) = (i.sortCondition? cs).isSome := by
    simp only [← Index.sortCondition?_isSome_iff, Bool.decide_eq_true]
  have hcovers : decide (s.Covers i cs projection) = s.covers i cs projection := by
    simp only [← covers_iff, Bool.decide_eq_true]
  rw [merit, hsorted, hcovers]
  rfl

theorem better_rank_iff {s : TableSchema} {cs : List Condition} {projection : List String}
    {i j : Index} :
    (s.rank cs projection i).better (s.rank cs projection j) = true ↔
      s.merit cs projection j < s.merit cs projection i := by
  rw [merit_eq, merit_eq, better_iff]

/-- An index that outranks another is sorted if that one is. -/
theorem sorted_of_merit_le {s : TableSchema} {cs : List Condition} {projection : List String}
    {i j : Index} (hmerit : s.merit cs projection j ≤ s.merit cs projection i)
    (hsorted : j.IsSortedBy cs) : i.IsSortedBy cs := by
  have hle := Prod.Lex.monotone_fst _ _ hmerit
  exact of_decide_eq_true (Bool.eq_true_of_true_le ((decide_eq_true hsorted).ge.trans hle))

/-- An index that outranks another covers the read if that one does, and is sorted as well. -/
theorem covers_of_merit_le {s : TableSchema} {cs : List Condition} {projection : List String}
    {i j : Index} (hmerit : s.merit cs projection j ≤ s.merit cs projection i)
    (hsorted : i.IsSortedBy cs → j.IsSortedBy cs) (hcovers : s.Covers j cs projection) :
    s.Covers i cs projection := by
  rcases Prod.Lex.toLex_le_toLex.1 hmerit with hlt | ⟨-, hle⟩
  · -- a condition is on the sort key of `i`, but none on that of `j`
    obtain ⟨hnone, hsome⟩ := Bool.lt_iff.1 hlt
    exact absurd (hsorted (of_decide_eq_true hsome)) (of_decide_eq_false hnone)
  · exact of_decide_eq_true (Bool.eq_true_of_true_le ((decide_eq_true hcovers).ge.trans hle))

/-- There is a best one unless there is none at all. -/
theorem best_eq_none {rank : Index → Rank} {is : List Index} (h : best rank is = none) :
    is = [] := by
  cases is with
  | nil => rfl
  | cons i rest =>
      unfold best at h
      split at h
      · split at h <;> cases h
      · cases h

/-- **The best index is the first of the greatest merit**: those before it are worse, and those
behind it are not better. -/
theorem best_spec {s : TableSchema} {cs : List Condition} {projection : List String}
    {is : List Index} {i : Index} (h : best (s.rank cs projection) is = some i) :
    ∃ before after, is = before ++ i :: after ∧
      (∀ j ∈ before, s.merit cs projection j < s.merit cs projection i) ∧
      ∀ j ∈ after, s.merit cs projection j ≤ s.merit cs projection i := by
  induction is generalizing i with
  | nil => cases h
  | cons first rest ih =>
      unfold best at h
      split at h
      · next j hj =>
          obtain ⟨before, after, hrest, hbefore, hafter⟩ := ih hj
          split at h
          · next hbetter =>
              obtain rfl := Option.some.inj h
              refine ⟨first :: before, after, by rw [hrest]; rfl, ?_, hafter⟩
              intro k hk
              rcases List.mem_cons.1 hk with rfl | hk
              · exact better_rank_iff.1 hbetter
              · exact hbefore k hk
          · next hworse =>
              -- `first` is as good as the best of the rest, and so as good as all of them
              obtain rfl := Option.some.inj h
              have hfirst : s.merit cs projection j ≤ s.merit cs projection first :=
                not_lt.1 fun hlt => hworse (better_rank_iff.2 hlt)
              refine ⟨[], rest, rfl, by simp, ?_⟩
              intro k hk
              rw [hrest] at hk
              rcases List.mem_append.1 hk with hk | hk
              · exact (hbefore k hk).le.trans hfirst
              · rcases List.mem_cons.1 hk with rfl | hk
                · exact hfirst
                · exact (hafter k hk).trans hfirst
      · next hnone =>
          obtain rfl := Option.some.inj h
          obtain rfl := best_eq_none hnone
          exact ⟨[], [], rfl, by simp, by simp⟩

/-- The best of some candidates among all indexes. -/
theorem best_filter_spec {s : TableSchema} {cs : List Condition} {projection : List String}
    {is : List Index} {i : Index}
    (h : best (s.rank cs projection) (is.filter fun j => j.serves cs) = some i) :
    ∃ before after, is = before ++ i :: after ∧ i.IsKeyedBy cs ∧
      (∀ j ∈ before, j.IsKeyedBy cs → s.merit cs projection j < s.merit cs projection i) ∧
      ∀ j ∈ after, j.IsKeyedBy cs → s.merit cs projection j ≤ s.merit cs projection i := by
  obtain ⟨good, others, hfilter, hgood, hothers⟩ := best_spec h
  obtain ⟨front, back, rfl, hfront, hback⟩ := List.filter_eq_append_iff.1 hfilter
  obtain ⟨between, after, rfl, hbetween, hi, hafter⟩ := List.filter_eq_cons_iff.1 hback
  refine ⟨front ++ between, after, by simp, Index.serves_iff.1 hi, ?_, ?_⟩
  · intro j hj hkeyed
    have hserves := Index.serves_iff.2 hkeyed
    rcases List.mem_append.1 hj with hj | hj
    · refine hgood j ?_
      rw [← hfront]
      exact List.mem_filter.2 ⟨hj, hserves⟩
    · exact absurd hserves (hbetween j hj)
  · intro j hj hkeyed
    refine hothers j ?_
    rw [← hafter]
    exact List.mem_filter.2 ⟨hj, Index.serves_iff.2 hkeyed⟩

end TableSchema

/-! ### Plans -/

/-- A plan reads an index by its key, and takes all conditions. -/
structure Plan.IsLookup (p : Plan) (s : TableSchema) (i : Index) (cs : List Condition) : Prop where
  table : p.table = s.table
  index : p.index = i
  access : p.access = .query
  keyed : p.fullScan = false
  conditions : (p.keyConditions ++ p.filterConditions).Perm cs

/-- A plan reads all of an index, says so, and leaves all conditions to the filter. -/
def Plan.IsFullScan (p : Plan) (s : TableSchema) (i : Index) (cs : List Condition) : Prop :=
  p =
    { table := s.table, index := i, access := .scan, keyConditions := [], filterConditions := cs
      fullScan := true }

namespace TableSchema

theorem queryPlan_isLookup (s : TableSchema) (i : Index) (cs : List Condition) :
    (s.queryPlan i cs).IsLookup s i cs :=
  ⟨rfl, rfl, rfl, rfl, s.queryPlan_perm i cs⟩

/-- The index of a name is the first that has it. -/
theorem index?_of_first {s : TableSchema} {name : String} {i : Index} {before after : List Index}
    (hindexes : s.indexes = before ++ i :: after) (hname : i.name = name)
    (hbefore : ∀ j ∈ before, j.name ≠ name) : s.index? name = some i := by
  refine List.find?_eq_some_iff_append.2 ⟨by simpa using hname, before, after, hindexes, ?_⟩
  intro j hj
  simpa using hbefore j hj

/-- Without an index that is asked for, the first of the best indexes is looked up, or else the
whole table is read. -/
theorem select_spec (s : TableSchema) (cs : List Condition) (projection : List String) :
    ∃ p, s.select cs none projection = .ok p ∧
      ((∃ before i after, s.baseIndex :: s.indexes = before ++ i :: after ∧ i.IsKeyedBy cs ∧
          (∀ j ∈ before, j.IsKeyedBy cs → s.merit cs projection j < s.merit cs projection i) ∧
          (∀ j ∈ after, j.IsKeyedBy cs → s.merit cs projection j ≤ s.merit cs projection i) ∧
          p.IsLookup s i cs) ∨
        (∀ i ∈ s.baseIndex :: s.indexes, ¬i.IsKeyedBy cs) ∧ p.IsFullScan s s.baseIndex cs) := by
  cases hbest : best (s.rank cs projection)
      ((s.baseIndex :: s.indexes).filter fun i => i.serves cs) with
  | some i =>
      obtain ⟨before, after, hall, hi, hbefore, hafter⟩ := best_filter_spec hbest
      refine ⟨s.queryPlan i cs, by simp only [select, hbest], Or.inl ?_⟩
      exact ⟨before, i, after, hall, hi, hbefore, hafter, s.queryPlan_isLookup i cs⟩
  | none =>
      refine ⟨s.scanPlan s.baseIndex cs, by simp only [select, hbest], Or.inr ⟨?_, rfl⟩⟩
      intro i hi hkeyed
      exact List.filter_eq_nil_iff.1 (best_eq_none hbest) i hi (Index.serves_iff.2 hkeyed)

/-- An index that is asked for is looked up if it can be, and read as a whole if not. -/
theorem select_named_spec {s : TableSchema} {name : String} {i : Index}
    (hnamed : s.named name = .ok i) (cs : List Condition) (projection : List String) :
    ∃ p, s.select cs (some name) projection = .ok p ∧
      (i.IsKeyedBy cs → p.IsLookup s i cs) ∧ (¬i.IsKeyedBy cs → p.IsFullScan s i cs) := by
  by_cases hkeyed : i.IsKeyedBy cs
  · refine ⟨s.queryPlan i cs, ?_, fun _ => s.queryPlan_isLookup i cs, absurd hkeyed⟩
    simp [select, hnamed, bind, Except.bind, Index.serves_iff.2 hkeyed]
  · have hserves : i.serves cs = false :=
      Bool.eq_false_iff.2 fun hserves => hkeyed (Index.serves_iff.1 hserves)
    refine ⟨s.scanPlan i cs, ?_, fun h => absurd h hkeyed, fun _ => rfl⟩
    simp [select, hnamed, bind, Except.bind, hserves]

/-- The index of a name is one of those of the table. -/
theorem mem_of_named {s : TableSchema} {name : String} {i : Index} (h : s.named name = .ok i) :
    i ∈ s.indexes := by
  unfold named at h
  split at h
  · next hi =>
      obtain rfl := Except.ok.inj h
      exact List.mem_of_find?_eq_some hi
  · cases h

/-- A selected plan reads the table or one of its indexes, by its key only if there is a condition
on the partition key. -/
theorem exists_index_of_select {s : TableSchema} {cs : List Condition} {index : Option String}
    {projection : List String} {p : Plan} (h : s.select cs index projection = .ok p) :
    ∃ i ∈ s.baseIndex :: s.indexes,
      (p = s.queryPlan i cs ∧ i.IsKeyedBy cs) ∨ p = s.scanPlan i cs := by
  cases index with
  | some name =>
      cases hi : s.named name with
      | error e => simp [select, hi, bind, Except.bind] at h
      | ok i =>
          simp only [select, hi, bind, Except.bind, Except.ok.injEq] at h
          refine ⟨i, List.mem_cons_of_mem _ (mem_of_named hi), ?_⟩
          rw [← h]
          split
          · next hserves => exact .inl ⟨rfl, Index.serves_iff.1 hserves⟩
          · exact .inr rfl
  | none =>
      simp only [select, Except.ok.injEq] at h
      rw [← h]
      split
      · next i hbest =>
          obtain ⟨before, after, hall, hkeyed, -⟩ := best_filter_spec hbest
          refine ⟨i, ?_, .inl ⟨rfl, hkeyed⟩⟩
          rw [hall]
          exact List.mem_append_right _ List.mem_cons_self
      · exact ⟨_, List.mem_cons_self, .inr rfl⟩

/-- The index of a plan that was selected is the table or one of its indexes. -/
theorem index_mem_of_select {s : TableSchema} {cs : List Condition} {index : Option String}
    {projection : List String} {p : Plan} (h : s.select cs index projection = .ok p) :
    p.index ∈ s.baseIndex :: s.indexes := by
  obtain ⟨i, hi, ⟨rfl, -⟩ | rfl⟩ := exists_index_of_select h
  · exact hi
  · exact hi

/-- **The plan of a read** without an index that is asked for looks up the first of the best
indexes, and reads the whole table only if there is none to be looked up.  An index that is asked
for is looked up if it can be, and read as a whole if not; one that is not known is an error. -/
theorem takes_the_first_best_index (s : TableSchema) (cs : List Condition)
    (projection : List String) :
    (∃ p, s.select cs none projection = .ok p ∧
      (p.access = .query ↔ ∃ i ∈ s.baseIndex :: s.indexes, i.IsKeyedBy cs) ∧
      ((∃ before i after, s.baseIndex :: s.indexes = before ++ i :: after ∧ i.IsKeyedBy cs ∧
          (∀ j ∈ before, j.IsKeyedBy cs → s.merit cs projection j < s.merit cs projection i) ∧
          (∀ j ∈ after, j.IsKeyedBy cs → s.merit cs projection j ≤ s.merit cs projection i) ∧
          p.IsLookup s i cs) ∨
        (∀ i ∈ s.baseIndex :: s.indexes, ¬i.IsKeyedBy cs) ∧ p.IsFullScan s s.baseIndex cs)) ∧
    (∀ name before i after, s.indexes = before ++ i :: after → i.name = name →
      (∀ j ∈ before, j.name ≠ name) →
        ∃ p, s.select cs (some name) projection = .ok p ∧
          (i.IsKeyedBy cs → p.IsLookup s i cs) ∧ (¬i.IsKeyedBy cs → p.IsFullScan s i cs)) ∧
    ∀ name, (∀ i ∈ s.indexes, i.name ≠ name) →
      s.select cs (some name) projection = .error (.invalid (.unknownIndex s.table name)) := by
  refine ⟨?_, ?_, ?_⟩
  · obtain ⟨p, hp, hplan⟩ := s.select_spec cs projection
    refine ⟨p, hp, ?_, hplan⟩
    rcases hplan with ⟨before, i, after, hall, hi, _, _, hlookup⟩ | ⟨hnone, hscan⟩
    · refine ⟨fun _ => ⟨i, ?_, hi⟩, fun _ => hlookup.access⟩
      rw [hall]
      exact List.mem_append_right _ List.mem_cons_self
    · constructor
      · intro hquery
        rw [hscan] at hquery
        cases hquery
      · rintro ⟨i, hi, hkeyed⟩
        exact absurd hkeyed (hnone i hi)
  · intro name before i after hindexes hname hbefore
    refine select_named_spec ?_ cs projection
    simp only [named, index?_of_first hindexes hname hbefore]
  · intro name hunknown
    have hnone : s.index? name = none := by
      refine List.find?_eq_none.2 fun i hi => ?_
      simpa using hunknown i hi
    simp [select, named, hnone, bind, Except.bind]

end TableSchema

/-! ### A library -/

namespace Library

/-- Books by their authors: first the keys alone, and then all of each book. -/
def authors : TableSchema :=
  { table := "library", partitionKey := "owner"
    indexes :=
      [⟨"author-keys", .globalIndex, "author", none, .keysOnly⟩,
        ⟨"author-year", .globalIndex, "author", some "year", .keysOnly⟩,
        ⟨"author-books", .globalIndex, "author", none, .all⟩] }

/-- The books of an author. -/
def ofAuthor : List Condition := [Condition.eq "author" (.text "austen")]

end Library

/-- Without a condition on the year, only the last of three indexes covers whole books; one that is
asked for is taken all the same, and the table itself has another key. -/
theorem library_takes_the_covering_index :
    (∃ p, Library.authors.select Library.ofAuthor none [] = .ok p ∧ p.access = .query ∧
      p.index.name = "author-books") ∧
    (∃ p, Library.authors.select Library.ofAuthor (some "author-keys") [] = .ok p ∧
      p.IsLookup Library.authors ⟨"author-keys", .globalIndex, "author", none, .keysOnly⟩
        Library.ofAuthor) ∧
    Library.authors.select Library.ofAuthor (some "author") [] =
      .error (.invalid (.unknownIndex "library" "author")) := by
  obtain ⟨⟨p, hp, hquery, _⟩, hnamed, hunknown⟩ :=
    TableSchema.takes_the_first_best_index Library.authors Library.ofAuthor []
  refine ⟨⟨p, hp, hquery.2 (by decide), ?_⟩, ?_, hunknown "author" (by decide)⟩
  · obtain rfl := Except.ok.inj hp
    decide
  · obtain ⟨q, hq, hlookup, _⟩ := hnamed "author-keys" [] _ _ rfl rfl (by decide)
    exact ⟨q, hq, hlookup (by decide)⟩

end Keyspace
