import Keyspace.Proofs.Plan.Division
/-!
# Key attributes in a filter

A store refuses to look up an index by its key if the filter compares a key attribute of that index.
A key answers one condition on each of its attributes at most.  So the filter is free of the key
attributes if there is one condition on the partition key, and on the sort key none but one that a
key can answer; and every other condition on them is left to the filter.

Main definitions:

* `Keyspace.Condition.on` — the conditions on an attribute.

Main results:

* `Keyspace.Plan.Divides.countP_eq` — conditions of any kind, counted;
* `Keyspace.library_filters_by_the_sort_key` — two bounds for a sort key are one too many;
* `Keyspace.TableSchema.filter_spares_keys_unless_repeated` — **when a filter is free of the key
  attributes**.
-/

set_option autoImplicit false

namespace Keyspace

/-- Whether a condition is on an attribute, if there is one. -/
def Condition.on (name : Option String) (c : Condition) : Bool := name == some c.field

theorem Condition.on_iff {name : Option String} {c : Condition} :
    c.on name = true ↔ name = some c.field := beq_iff_eq

/-! ### Counting -/

/-- Of elements that are counted once there is only one. -/
theorem eq_of_countP_le_one {α : Type} {q : α → Bool} {xs : List α} (h : xs.countP q ≤ 1)
    {x y : α} (hx : x ∈ xs) (hy : y ∈ xs) (hqx : q x = true) (hqy : q y = true) : x = y := by
  have hx' : x ∈ xs.filter q := List.mem_filter.2 ⟨hx, hqx⟩
  have hy' : y ∈ xs.filter q := List.mem_filter.2 ⟨hy, hqy⟩
  rw [List.countP_eq_length_filter] at h
  match hall : xs.filter q, h with
  | [], _ => rw [hall] at hx'; cases hx'
  | [z], _ =>
      rw [hall] at hx' hy'
      rw [List.mem_singleton.1 hx', List.mem_singleton.1 hy']

namespace Plan.Divides

variable {p : Plan} {cs : List Condition} (h : p.Divides cs)
include h

/-- Conditions of any kind are found in the key or in the filter. -/
theorem countP_eq (q : Condition → Bool) :
    cs.countP q = p.keyConditions.countP q + p.filterConditions.countP q := by
  rw [← h.all.countP_eq, List.countP_append]

theorem filter_free_iff (q : Condition → Bool) :
    (∀ c ∈ p.filterConditions, ¬q c = true) ↔ cs.countP q = p.keyConditions.countP q := by
  rw [← List.countP_eq_zero, h.countP_eq q]
  omega

variable (hquery : p.access = .query) (hkeys : p.index.sortKey ≠ some p.index.partitionKey)
include hquery hkeys

/-- The key answers one condition on the partition key. -/
theorem countP_partitionKey :
    p.keyConditions.countP (Condition.on (some p.index.partitionKey)) = 1 := by
  obtain ⟨c, ⟨⟨hfield, -⟩, -⟩, hkey⟩ := h.keyed hquery
  have hc : c.on (some p.index.partitionKey) = true := Condition.on_iff.2 (by rw [hfield])
  obtain ⟨hkey, -⟩ | ⟨d, hkey, ⟨hsort, -⟩, -⟩ := hkey
  · rw [hkey]
    simp [hc]
  · have hd : ¬d.on (some p.index.partitionKey) = true :=
      fun hon => hkeys (hsort.trans (Condition.on_iff.1 hon).symm)
    rw [hkey]
    simp [hc, hd]

/-- The key answers a condition on the sort key if it can answer any. -/
theorem countP_sortKey :
    p.keyConditions.countP (Condition.on p.index.sortKey) =
      if p.index.IsSortedBy cs then 1 else 0 := by
  obtain ⟨c, ⟨⟨hfield, -⟩, -⟩, hkey⟩ := h.keyed hquery
  have hc : ¬c.on p.index.sortKey = true :=
    fun hon => hkeys ((Condition.on_iff.1 hon).trans (by rw [hfield]))
  obtain ⟨hkey, hnone⟩ | ⟨d, hkey, hsorts, before, after, hcs, -⟩ := hkey
  · have hsorted : ¬p.index.IsSortedBy cs := fun ⟨d, hd, hsorts⟩ => hnone d hd hsorts
    rw [hkey, if_neg hsorted]
    simp [hc]
  · have hd : d.on p.index.sortKey = true := Condition.on_iff.2 hsorts.1
    have hsorted : p.index.IsSortedBy cs := ⟨d, by rw [hcs]; simp, hsorts⟩
    rw [hkey, if_pos hsorted]
    simp [hc, hd]

end Plan.Divides

/-- The conditions on the sort key are as many as a key answers if there is none but one that it can
answer. -/
theorem Index.countP_sortKey_iff {i : Index} {cs : List Condition} :
    cs.countP (Condition.on i.sortKey) = (if i.IsSortedBy cs then 1 else 0) ↔
      cs.countP (Condition.on i.sortKey) ≤ 1 ∧
        ∀ c ∈ cs, i.sortKey = some c.field → i.Sorts c := by
  have hpositive : ∀ c ∈ cs, i.sortKey = some c.field →
      0 < cs.countP (Condition.on i.sortKey) := by
    intro c hc hfield
    exact List.countP_pos_iff.2 ⟨c, hc, Condition.on_iff.2 hfield⟩
  by_cases hsorted : i.IsSortedBy cs
  · obtain ⟨d, hd, hsorts⟩ := hsorted
    have hone := hpositive d hd hsorts.1
    rw [if_pos ⟨d, hd, hsorts⟩]
    constructor
    · intro hcount
      refine ⟨hcount.le, fun c hc hfield => ?_⟩
      rwa [eq_of_countP_le_one hcount.le hc hd (Condition.on_iff.2 hfield)
        (Condition.on_iff.2 hsorts.1)]
    · rintro ⟨hcount, -⟩
      omega
  · rw [if_neg hsorted]
    constructor
    · intro hcount
      refine ⟨hcount.le.trans (Nat.zero_le 1), fun c hc hfield => ?_⟩
      have hone := hpositive c hc hfield
      omega
    · rintro ⟨-, hall⟩
      refine List.countP_eq_zero.2 fun c hc hon => hsorted ?_
      exact ⟨c, hc, hall c hc (Condition.on_iff.1 hon)⟩

/-! ### Filters -/

namespace TableSchema

variable {s : TableSchema} {cs : List Condition} {index : Option String}
  {projection : List String} {p : Plan}

/-- The filter of a plan by key is what is left when the conditions that the key answers are taken
out. -/
theorem filterConditions_of_select (hvalid : s.validate = .ok ())
    (h : s.select cs index projection = .ok p) (hquery : p.access = .query) :
    p.filterConditions =
      (cs.eraseP p.index.isPartitionCondition).eraseP p.index.isSortCondition := by
  obtain ⟨i, hi, ⟨rfl, -⟩ | rfl⟩ := exists_index_of_select h
  · exact Index.split_snd (keys_differ hvalid hi) cs
  · cases hquery

/-- **When a filter is free of the key attributes.**  The filter of a plan by key is what is left
when the first condition that equates the partition key and the first on the sort key that a key can
answer are taken out.  So it is free of the partition key if there is one condition on it, and of
the sort key if there is none on it but one that a key can answer. -/
theorem filter_spares_keys_unless_repeated (hvalid : s.validate = .ok ())
    (h : s.select cs index projection = .ok p) (hquery : p.access = .query) :
    p.filterConditions =
        (cs.eraseP p.index.isPartitionCondition).eraseP p.index.isSortCondition ∧
      ((∀ c ∈ p.filterConditions, c.field ≠ p.index.partitionKey) ↔
        cs.countP (Condition.on (some p.index.partitionKey)) = 1) ∧
      ((∀ c ∈ p.filterConditions, p.index.sortKey ≠ some c.field) ↔
        cs.countP (Condition.on p.index.sortKey) ≤ 1 ∧
          ∀ c ∈ cs, p.index.sortKey = some c.field → p.index.Sorts c) := by
  have hkeys : p.index.sortKey ≠ some p.index.partitionKey :=
    keys_differ hvalid (index_mem_of_select h)
  have hdivides : p.Divides cs := select_divides hvalid h
  refine ⟨filterConditions_of_select hvalid h hquery, ?_, ?_⟩
  · rw [← hdivides.countP_partitionKey hquery hkeys, ← hdivides.filter_free_iff]
    refine forall₂_congr fun c _ => not_congr ?_
    rw [Condition.on_iff, Option.some.injEq, eq_comm]
  · rw [← Index.countP_sortKey_iff, ← hdivides.countP_sortKey hquery hkeys,
      ← hdivides.filter_free_iff]
    exact forall₂_congr fun c _ => not_congr Condition.on_iff.symm

end TableSchema

/-! ### A library -/

namespace Library

/-- Books in the order of their titles. -/
def shelves : TableSchema :=
  { table := "library", partitionKey := "owner", sortKey := some "title" }

/-- Somebody's books from one title to another. -/
def range : List Condition :=
  [Condition.eq "owner" (.text "ann"), ⟨"title", .ge, [.text "a"]⟩, ⟨"title", .le, [.text "m"]⟩]

/-- Somebody's books from a title on, with a word in their summary. -/
def onwards : List Condition :=
  [⟨"summary", .contains, [.text "sea"]⟩, ⟨"title", .ge, [.text "a"]⟩,
    Condition.eq "owner" (.text "ann")]

end Library

/-- **Two bounds for a sort key are one too many**: the key takes the lower one, and the other is a
condition on the sort key in the filter. -/
theorem library_filters_by_the_sort_key :
    Library.shelves.validate = .ok () ∧
      ∃ p, Library.shelves.select Library.range none [] = .ok p ∧ p.access = .query ∧
        ∃ c ∈ p.filterConditions, p.index.sortKey = some c.field := by
  refine ⟨rfl, _, rfl, rfl, ⟨"title", .le, [.text "m"]⟩, ?_, rfl⟩
  exact List.mem_singleton.2 rfl

/-- With one condition on each key attribute, the filter is free of them. -/
theorem library_filter_spares_the_keys :
    Library.shelves.validate = .ok () ∧
      ∃ p, Library.shelves.select Library.onwards none [] = .ok p ∧ p.access = .query ∧
        p.filterConditions = [⟨"summary", .contains, [.text "sea"]⟩] ∧
        (∀ c ∈ p.filterConditions, c.field ≠ p.index.partitionKey) ∧
        ∀ c ∈ p.filterConditions, p.index.sortKey ≠ some c.field := by
  have hvalid : Library.shelves.validate = .ok () := rfl
  obtain ⟨p, hp⟩ : ∃ p, Library.shelves.select Library.onwards none [] = .ok p := ⟨_, rfl⟩
  have hquery : p.access = .query := by
    obtain rfl := Except.ok.inj hp
    decide
  obtain ⟨hfilter, hpartition, hsort⟩ :=
    TableSchema.filter_spares_keys_unless_repeated hvalid hp hquery
  have hindex : p.index = Library.shelves.baseIndex := by
    obtain rfl := Except.ok.inj hp
    rfl
  refine ⟨hvalid, p, hp, hquery, hfilter.trans ?_, hpartition.2 ?_, hsort.2 ?_⟩
  · rw [hindex]
    rfl
  · rw [hindex]
    decide
  · rw [hindex]
    decide

end Keyspace
