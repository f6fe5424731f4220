import Keyspace.Proofs.Plan.Selection
import Keyspace.Proofs.Schema.Validity
/-!
# The name of a plan's index

A plan was made for one index, and what is sent names that index or none.  In a valid schema the
name stands for this index alone: nothing is read in another place than the one that the plan was
made for.

Main results:

* `Keyspace.TableSchema.index_mem_of_scan` — the index of a plan that reads everything;
* `Keyspace.TableSchema.plans_name_their_index` — **the valid schemas, and the names of their
  plans' indexes**.
-/

set_option autoImplicit false

namespace Keyspace

namespace TableSchema

variable {s : TableSchema} {cs : List Condition} {index : Option String} {p : Plan}

/-- The index of a plan that reads everything is the table or one of its indexes. -/
theorem index_mem_of_scan (h : s.scan cs index = .ok p) : p.index ∈ s.baseIndex :: s.indexes := by
  cases index with
  | none =>
      obtain rfl := Except.ok.inj h
      exact List.mem_cons_self
  | some name =>
      cases hi : s.named name with
      | error e => simp [scan, hi, bind, Except.bind] at h
      | ok i =>
          simp only [scan, hi, bind, Except.bind, Except.ok.injEq] at h
          rw [← h]
          exact List.mem_cons_of_mem _ (mem_of_named hi)

/-- **The valid schemas are the unambiguous ones**, and every plan for such a schema has a name for
its index: none exactly if it reads the table itself, and otherwise a name under which its index is
found, and which no other index has. -/
theorem plans_name_their_index (s : TableSchema) :
    (s.validate = .ok () ↔ s.IsUnambiguous) ∧
    (s.IsUnambiguous → ∀ cs index projection p,
      s.select cs index projection = .ok p ∨ s.scan cs index = .ok p →
        (p.index.requestName = none ↔ p.index = s.baseIndex) ∧
        ∀ name, p.index.requestName = some name →
          s.index? name = some p.index ∧ ∀ i ∈ s.indexes, i.name = name → i = p.index) := by
  refine ⟨validate_iff_isUnambiguous, fun hs cs index projection p hp => ?_⟩
  have hvalid : s.validate = .ok () := validate_iff_isUnambiguous.2 hs
  have hmem : p.index ∈ s.baseIndex :: s.indexes := by
    rcases hp with hselect | hscan
    · exact index_mem_of_select hselect
    · exact index_mem_of_scan hscan
  obtain ⟨hbase, hnamed⟩ := requestName_spec hvalid hmem
  refine ⟨hbase, fun name hname => ?_⟩
  obtain ⟨-, hfound⟩ := hnamed name hname
  refine ⟨hfound, ?_⟩
  rintro i hi rfl
  have hother : s.index? i.name = some i := index?_of_mem hs.distinct hi
  rw [hfound] at hother
  exact (Option.some.inj hother).symm

end TableSchema

/-! ### A library -/

/-- A library with three indexes by author, whose books are looked up in the one that shows them
whole. -/
theorem library_authors_name_their_index :
    Library.authors.IsUnambiguous ∧
      ∃ p, Library.authors.select Library.ofAuthor none [] = .ok p ∧
        p.index.requestName = some "author-books" ∧
        Library.authors.index? "author-books" = some p.index ∧
        ∀ i ∈ Library.authors.indexes, i.name = "author-books" → i = p.index := by
  obtain ⟨hvalid, hplans⟩ := TableSchema.plans_name_their_index Library.authors
  have hs : Library.authors.IsUnambiguous := hvalid.1 rfl
  have hp : Library.authors.select Library.ofAuthor none [] =
      .ok (Library.authors.queryPlan
        ⟨"author-books", .globalIndex, "author", none, .all⟩ Library.ofAuthor) := rfl
  obtain ⟨-, hnamed⟩ := hplans hs _ _ _ _ (.inl hp)
  exact ⟨hs, _, hp, rfl, hnamed _ rfl⟩

end Keyspace
