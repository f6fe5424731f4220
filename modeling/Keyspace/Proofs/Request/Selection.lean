import Keyspace.Proofs.Plan.Answers
import Keyspace.Proofs.Request.Form
/-!
# What a request asks an index for

A global index may hide an attribute, and then it cannot be asked for it: the rule is to read what
the index projects.  But what a request asks for is decided when it is made, and by then it is
forgotten what the index shows.  Whoever projects attributes asks for them, of any index; so the
rule is kept exactly where the index can supply them.  Without an index that is asked for, one that
cannot is only looked up if no other that is keyed as well covers the read.

Main definitions:

* `Keyspace.TableSchema.Supplies` — an index shows all attributes of a projection;
* `Keyspace.PageRequest.Heeds` — a request asks only for what an index can supply.

Main results:

* `Keyspace.Read.default_selection`, `Keyspace.Read.default_projection` — what is asked for;
* `Keyspace.TableSchema.not_covers_of_select` — what it takes to look up an index that hides
  something;
* `Keyspace.library_asks_an_index_for_what_it_hides` — an index is asked for a title that it does
  not have;
* `Keyspace.TableSchema.request_heeds_iff_supplied` — **when a request asks for what there is**.
-/

set_option autoImplicit false

namespace Keyspace

/-! ### Requests -/

namespace PageRequest

/-- What a request asks for of each item. -/
def selection : PageRequest → Option Selection
  | .query r => r.select
  | .scan r => r.select

/-- The paths that a request asks for. -/
def projection : PageRequest → Option String
  | .query r => r.projection
  | .scan r => r.projection

end PageRequest

/-- **An index supplies a projection**: it shows the attribute at which each path starts. -/
def TableSchema.Supplies (s : TableSchema) (i : Index) (projection : List String) : Prop :=
  ∀ path ∈ projection, s.Sees i (rootAttribute path)

instance (s : TableSchema) (i : Index) (projection : List String) :
    Decidable (s.Supplies i projection) :=
  inferInstanceAs (Decidable (∀ path ∈ projection, s.Sees i (rootAttribute path)))

/-- **A request heeds what an index supplies.**  It asks for specific attributes only if the index
shows them all, and otherwise for what the index projects, without paths. -/
structure PageRequest.Heeds (q : PageRequest) (s : TableSchema) (i : Index)
    (projection : List String) : Prop where
  specific : q.selection = some .specificAttributes → s.Supplies i projection
  hidden : ¬s.Supplies i projection →
    q.selection = some .allProjectedAttributes ∧ q.projection = none

/-! ### What is asked for -/

namespace Read

theorem default_selection (r : Read) (e : Expressions) :
    (r.request e none).selection = some r.defaultSelection := by
  unfold request
  split
  · rfl
  · rfl

/-- Whoever projects attributes asks for them. -/
theorem defaultSelection_eq_specific_iff (r : Read) :
    r.defaultSelection = .specificAttributes ↔ r.projection ≠ [] := by
  unfold defaultSelection
  cases r.projection with
  | nil =>
      cases r.plan.index.isBase with
      | true => simp [Selection.specificAttributes, Selection.allAttributes]
      | false => simp [Selection.specificAttributes, Selection.allProjectedAttributes]
  | cons path rest => simp

/-- The default request sends the projection of a read. -/
theorem default_projection {r : Read} {e : Expressions} (he : r.compile = .ok e) :
    (r.request e none).projection.isSome = true ↔ r.projection ≠ [] := by
  have hsent : (r.request e none).projection =
      if r.defaultSelection = .specificAttributes then e.projection.map Expression.text
      else none := by
    unfold request
    split
    · rfl
    · rfl
  rw [hsent]
  rw [r.compile_eq] at he
  obtain ⟨merged, -, rfl⟩ := map_eq_ok he
  constructor
  · intro hsome hnone
    rw [if_neg fun hspecific => r.defaultSelection_eq_specific_iff.1 hspecific hnone] at hsome
    cases hsome
  · intro hne
    rw [if_pos (r.defaultSelection_eq_specific_iff.2 hne)]
    cases hpaths : r.projection with
    | nil => exact absurd hpaths hne
    | cons path rest => rfl

/-- **A read heeds what its index supplies** exactly if that is all that it projects. -/
theorem heeds_iff (r : Read) (e : Expressions) (s : TableSchema) :
    (r.request e none).Heeds s r.plan.index r.projection ↔
      s.Supplies r.plan.index r.projection := by
  constructor
  · intro hheeds path hpath
    have hspecific : (r.request e none).selection = some .specificAttributes := by
      rw [r.default_selection, r.defaultSelection_eq_specific_iff.2 (List.ne_nil_of_mem hpath)]
    exact hheeds.specific hspecific path hpath
  · intro hsupplied
    exact ⟨fun _ => hsupplied, fun hnot => absurd hsupplied hnot⟩

end Read

/-! ### Indexes that hide something -/

namespace TableSchema

variable {s : TableSchema} {cs : List Condition} {projection : List String}

/-- What covers a read supplies its projection. -/
theorem Covers.supplies {i : Index} (h : s.Covers i cs projection) : s.Supplies i projection := by
  intro path hpath hglobal
  rcases h with hlocal | ⟨rfl, -⟩ | ⟨-, -, hpaths⟩
  · rw [hlocal] at hglobal
    cases hglobal
  · cases hpath
  · exact hpaths path hpath

/-- **What it takes to look up an index that hides something**: none that is keyed as well covers
the read. -/
theorem not_covers_of_select {p : Plan} (h : s.select cs none projection = .ok p)
    (hquery : p.access = .query) (hhidden : ¬s.Supplies p.index projection) {j : Index}
    (hj : j ∈ s.baseIndex :: s.indexes) (hkeyed : j.IsKeyedBy cs)
    (hsorted : p.index.IsSortedBy cs → j.IsSortedBy cs) : ¬s.Covers j cs projection := by
  obtain ⟨q, hq, hplan⟩ := s.select_spec cs projection
  obtain rfl : p = q := Except.ok.inj (h.symm.trans hq)
  rcases hplan with ⟨before, i, after, hall, -, hbefore, hafter, hlookup⟩ | ⟨-, hscan⟩
  · rw [hlookup.index] at hhidden hsorted
    have hmerit : s.merit cs projection j ≤ s.merit cs projection i := by
      rw [hall] at hj
      rcases List.mem_append.1 hj with hj | hj
      · exact (hbefore j hj hkeyed).le
      · rcases List.mem_cons.1 hj with rfl | hj
        · exact le_refl _
        · exact hafter j hj hkeyed
    exact fun hcovers => hhidden (covers_of_merit_le hmerit hsorted hcovers).supplies
  · rw [hscan] at hquery
    cases hquery

/-- **When a request asks for what there is.**  The default request of a read asks for specific
attributes, and sends their paths, exactly if the read projects some.  So it heeds what the index
of the read supplies only if that is all that is projected.  Without an index that is asked for, one
that hides a part of that is looked up only if none that is keyed as well covers the read. -/
theorem request_heeds_iff_supplied {index : Option String} {r : Read}
    (h : s.select cs index r.projection = .ok r.plan) {e : Expressions}
    (he : r.compile = .ok e) :
    ((r.request e none).selection = some .specificAttributes ↔ r.projection ≠ []) ∧
      ((r.request e none).projection.isSome = true ↔ r.projection ≠ []) ∧
      (r.projection = [] → (r.request e none).selection =
        some (if r.plan.index.isBase then .allAttributes else .allProjectedAttributes)) ∧
      ((r.request e none).Heeds s r.plan.index r.projection ↔
        s.Supplies r.plan.index r.projection) ∧
      (index = none → r.plan.access = .query → ¬s.Supplies r.plan.index r.projection →
        ∀ i ∈ s.baseIndex :: s.indexes, i.IsKeyedBy cs →
          (r.plan.index.IsSortedBy cs → i.IsSortedBy cs) → ¬s.Covers i cs r.projection) := by
  refine ⟨?_, Read.default_projection he, fun hnone => ?_, r.heeds_iff e s, ?_⟩
  · rw [r.default_selection, Option.some.injEq, r.defaultSelection_eq_specific_iff]
  · rw [r.default_selection, Read.defaultSelection, hnone]
    rfl
  · rintro rfl hquery hhidden i hi hkeyed hsorted
    exact not_covers_of_select h hquery hhidden hi hkeyed hsorted

end TableSchema

/-! ### A library -/

namespace Library

/-- The titles of an author's books. -/
def titles (plan : Plan) : Read := { plan, projection := ["title"] }

end Library

/-- **An index is asked for what it hides**: it has the author and the owner of every book, but the
request asks it for titles. -/
theorem library_asks_an_index_for_what_it_hides :
    (Library.lending .keysOnly).validate = .ok () ∧
      ∃ p e, (Library.lending .keysOnly).select Library.ofAuthor none ["title"] = .ok p ∧
        (Library.titles p).compile = .ok e ∧ p.index.kind = .globalIndex ∧
        ¬(Library.lending .keysOnly).Holds p.index "title" ∧
        ((Library.titles p).request e none).selection = some .specificAttributes ∧
        ((Library.titles p).request e none).projection.isSome = true := by
  refine ⟨rfl, _, _, rfl, rfl, rfl, by decide, rfl, rfl⟩

/-- If the index holds the titles, the request asks for what there is. -/
theorem library_asks_an_index_for_its_titles :
    ∃ p e, (Library.lending (.including ["title"])).select Library.ofAuthor none ["title"] =
        .ok p ∧
      (Library.titles p).compile = .ok e ∧ p.index.name = "author-keys" ∧
      ((Library.titles p).request e none).selection = some .specificAttributes ∧
      ((Library.titles p).request e none).Heeds (Library.lending (.including ["title"])) p.index
        ["title"] := by
  obtain ⟨p, hp⟩ : ∃ p, (Library.lending (.including ["title"])).select Library.ofAuthor none
      ["title"] = .ok p := ⟨_, rfl⟩
  obtain ⟨e, he⟩ : ∃ e, (Library.titles p).compile = .ok e := by
    obtain rfl := Except.ok.inj hp
    exact ⟨_, rfl⟩
  obtain ⟨hspecific, -, -, hheeds, -⟩ :=
    TableSchema.request_heeds_iff_supplied (r := Library.titles p) hp he
  have hindex : p.index = ⟨"author-keys", .globalIndex, "author", none, .including ["title"]⟩ := by
    obtain rfl := Except.ok.inj hp
    rfl
  refine ⟨p, e, hp, he, by rw [hindex], hspecific.2 (List.cons_ne_nil _ _), hheeds.2 ?_⟩
  show (Library.lending (.including ["title"])).Supplies p.index ["title"]
  rw [hindex]
  decide

end Keyspace
