import Keyspace.Proofs.Plan.Selection
import Keyspace.Proofs.Schema.Validity
import Mathlib.Data.Multiset.Filter
/-!
# What a selected index answers

A secondary index holds the items that have its keys.  A global index shows of an item only what
it projects, and a comparison with an attribute that cannot be seen there fails.  So an index that
shows every attribute on which there is a condition answers like the table, whichever it is; an
index that does not show one of them answers nothing at all.

Main definitions:

* `Keyspace.Judge`, `Keyspace.Judge.meetsIn` — how a store decides whether an item, or an entry of
  an index, meets a condition;
* `Keyspace.TableSchema.Sees` — an attribute can be seen in an index;
* `Keyspace.TableSchema.entries` — what the store keeps under the name of an index;
* `Keyspace.Plan.answers`, `Keyspace.TableSchema.matching` — the keys that a plan brings, and those
  that are asked for.

Main results:

* `Keyspace.TableSchema.entries_requestName` — the store knows an index by its name;
* `Keyspace.TableSchema.answers_of_select` — what a selected plan brings, said of the table;
* `Keyspace.TableSchema.selected_answers` — **the answers of the selected index**;
* `Keyspace.library_author_keys_hide_the_borrower` — an index is selected that hides an attribute.
-/

set_option autoImplicit false

namespace Keyspace

/-! ### Conditions on items -/

/-- Whether an operator compares an attribute with operands, and does not ask for its presence. -/
def Operator.compares : Operator → Bool
  | .attributeExists | .attributeNotExists => false
  | _ => true

/-- **How a store decides whether an item meets a condition.** -/
structure Judge where
  meets : Condition → Item → Bool
  /-- Only the attribute counts at which the path of the condition starts. -/
  root_counts : ∀ (c : Condition) (a b : Item),
    a.get? (rootAttribute c.field) = b.get? (rootAttribute c.field) → meets c a = meets c b

/-! ### What an index holds -/

/-- Whether an item has the keys of an index. -/
def Index.admits (i : Index) (item : Item) : Bool :=
  item.contains i.partitionKey && i.sortKey.all fun name => item.contains name

namespace TableSchema

/-- An attribute can be seen in an index: only a global index hides what it does not project. -/
def Sees (s : TableSchema) (i : Index) (name : String) : Prop :=
  i.kind = .globalIndex → s.Holds i name

instance (s : TableSchema) (i : Index) (name : String) : Decidable (s.Sees i name) :=
  inferInstanceAs (Decidable (i.kind = .globalIndex → s.Holds i name))

/-- What an index shows of an item. -/
def shown (s : TableSchema) (i : Index) (item : Item) : Item :=
  if i.kind = .globalIndex then item.filter fun e => i.projects s.keyAttributes e.1 else item

/-- The primary key of an item. -/
def keyOf (s : TableSchema) (item : Item) : Item :=
  item.filter fun e => s.keyAttributes.contains e.1

/-- **What the store keeps under the name of an index** when the table has some content; without a
name it keeps the content itself. -/
def entries (s : TableSchema) (content : Multiset Item) : Option String → Multiset Item
  | none => content
  | some name =>
    match s.index? name with
    | some i => (content.filter fun item => i.admits item).map (s.shown i)
    | none => 0

end TableSchema

/-- Whether an entry of an index meets a condition.  A comparison with an attribute that cannot be
seen in the index fails. -/
def Judge.meetsIn (judge : Judge) (s : TableSchema) (i : Index) (c : Condition) (entry : Item) :
    Bool :=
  (!c.operator.compares || decide (s.Sees i (rootAttribute c.field))) && judge.meets c entry

/-- **The primary keys that are asked for**: those of the items that meet all conditions. -/
def TableSchema.matching (s : TableSchema) (judge : Judge) (cs : List Condition)
    (content : Multiset Item) : Multiset Item :=
  (content.filter fun item => cs.all fun c => judge.meets c item).map s.keyOf

/-- **The primary keys that a plan brings**: those of the entries of its index that meet its key
conditions and its filter conditions. -/
def Plan.answers (p : Plan) (s : TableSchema) (judge : Judge) (content : Multiset Item) :
    Multiset Item :=
  ((s.entries content p.index.requestName).filter fun entry =>
    (p.keyConditions ++ p.filterConditions).all fun c =>
      judge.meetsIn s p.index c entry).map s.keyOf

/-! ### Seeing an item in an index -/

theorem get?_filter (q : String → Bool) (item : Item) (name : String) :
    Dict.get? (item.filter fun e => q e.1) name = if q name then item.get? name else none := by
  induction item with
  | nil => simp
  | cons e rest ih =>
      obtain ⟨n, v⟩ := e
      rw [List.filter_cons, Dict.get?_cons]
      by_cases hname : name = n
      · subst hname
        cases hq : q name
        · simpa [hq] using ih
        · simp [Dict.get?_cons]
      · cases hq : q n
        · simpa [hname] using ih
        · simpa [Dict.get?_cons, hname] using ih

namespace TableSchema

variable {s : TableSchema} {i : Index}

/-- The primary key of an item can be seen in every index. -/
theorem keyOf_shown (item : Item) : s.keyOf (s.shown i item) = s.keyOf item := by
  unfold shown
  split
  · unfold keyOf
    rw [List.filter_filter]
    refine List.filter_congr fun e _ => ?_
    cases hkey : s.keyAttributes.contains e.1
    · rfl
    · have hprojects : i.projects s.keyAttributes e.1 = true :=
        projects_iff.2 (Or.inl (List.contains_iff_mem.1 hkey))
      rw [hprojects]
      rfl
  · rfl

theorem meetsIn_of_sees {judge : Judge} {c : Condition} (h : s.Sees i (rootAttribute c.field))
    (item : Item) : judge.meetsIn s i c (s.shown i item) = judge.meets c item := by
  have hsame : judge.meets c (s.shown i item) = judge.meets c item := by
    refine judge.root_counts c _ _ ?_
    unfold shown
    split
    · next hglobal => rw [get?_filter, if_pos (projects_iff.2 (h hglobal))]
    · rfl
  simp [Judge.meetsIn, h, hsame]

theorem meetsIn_of_not_sees {judge : Judge} {c : Condition}
    (hcompares : c.operator.compares = true) (h : ¬s.Sees i (rootAttribute c.field))
    (entry : Item) : judge.meetsIn s i c entry = false := by
  simp [Judge.meetsIn, hcompares, h]

/-- What covers a read shows every attribute on which there is a condition. -/
theorem Covers.sees {cs : List Condition} {projection : List String}
    (h : s.Covers i cs projection) : ∀ c ∈ cs, s.Sees i (rootAttribute c.field) := by
  intro c hc hglobal
  rcases h with hlocal | ⟨_, hall⟩ | ⟨_, hconditions, _⟩
  · rw [hlocal] at hglobal
    cases hglobal
  · exact Or.inr (Or.inr (Or.inr (Or.inl hall)))
  · exact hconditions c hc

/-! ### The answers of a plan -/

/-- **The store knows an index of a valid schema by its name**, and keeps every item there. -/
theorem entries_requestName (hvalid : s.validate = .ok ()) (hi : i ∈ s.baseIndex :: s.indexes)
    {content : Multiset Item}
    (hcontent : ∀ item ∈ content, ∀ j ∈ s.indexes, j.admits item = true) :
    s.entries content i.requestName = content.map (s.shown i) := by
  rcases List.mem_cons.1 hi with rfl | hi
  · have hshown : s.shown s.baseIndex = id := rfl
    rw [hshown, Multiset.map_id]
    rfl
  · obtain ⟨_, _, hsound, hdistinct⟩ := validate_iff.1 hvalid
    have hname : i.requestName = some i.name := by
      simp [Index.requestName, Index.isBase, (hsound i hi).named]
    have hadmits : (content.filter fun item => i.admits item) = content :=
      Multiset.filter_eq_self.2 fun item hitem => hcontent item hitem i hi
    rw [hname, entries, index?_of_mem hdistinct hi]
    simp only [hadmits]

/-- The keys that a selected plan brings are those of some items of the table. -/
theorem answers_of_select (hvalid : s.validate = .ok ()) {cs : List Condition}
    {projection : List String} {p : Plan} (h : s.select cs none projection = .ok p)
    (judge : Judge) {content : Multiset Item}
    (hcontent : ∀ item ∈ content, ∀ j ∈ s.indexes, j.admits item = true) :
    p.answers s judge content = (content.filter fun item =>
      ∀ c ∈ cs, judge.meetsIn s p.index c (s.shown p.index item) = true).map s.keyOf := by
  have hkeys : s.keyOf ∘ s.shown p.index = s.keyOf := funext fun item => keyOf_shown item
  unfold Plan.answers
  rw [entries_requestName hvalid (index_mem_of_select h) hcontent, Multiset.filter_map,
    Multiset.map_map, hkeys]
  congr 1
  refine Multiset.filter_congr fun item _ => ?_
  rw [Function.comp_apply, List.all_eq_true]
  exact ⟨fun hall c hc => hall c ((select_perm h).mem_iff.2 hc),
    fun hall c hc => hall c ((select_perm h).mem_iff.1 hc)⟩

/-- **The answers of the selected index.**  If it shows all attributes on which there are
conditions, and that does whatever covers the read, it brings exactly the keys that are asked for.
If not, it brings none. -/
theorem selected_answers (hvalid : s.validate = .ok ()) {cs : List Condition}
    (hcompares : ∀ c ∈ cs, c.operator.compares = true) (projection : List String) (judge : Judge)
    {content : Multiset Item}
    (hcontent : ∀ item ∈ content, ∀ j ∈ s.indexes, j.admits item = true) :
    ∃ p, s.select cs none projection = .ok p ∧
      ((∀ c ∈ cs, s.Sees p.index (rootAttribute c.field)) →
        p.answers s judge content = s.matching judge cs content) ∧
      ((∃ c ∈ cs, ¬s.Sees p.index (rootAttribute c.field)) → p.answers s judge content = 0) ∧
      (p.isScan = true ∨ s.Covers p.index cs projection →
        ∀ c ∈ cs, s.Sees p.index (rootAttribute c.field)) := by
  obtain ⟨p, hp, hplan⟩ := s.select_spec cs projection
  have hanswers := answers_of_select hvalid hp judge hcontent
  refine ⟨p, hp, ?_, ?_, ?_⟩
  · intro hsees
    rw [hanswers, matching]
    congr 1
    refine Multiset.filter_congr fun item _ => ?_
    rw [List.all_eq_true]
    exact forall₂_congr fun c hc => by rw [meetsIn_of_sees (hsees c hc)]
  · rintro ⟨c, hc, hhidden⟩
    have hnone : (content.filter fun item =>
        ∀ c ∈ cs, judge.meetsIn s p.index c (s.shown p.index item) = true) = 0 := by
      refine Multiset.filter_eq_nil.2 fun item _ hall => ?_
      have hmeets := hall c hc
      rw [meetsIn_of_not_sees (hcompares c hc) hhidden] at hmeets
      cases hmeets
    rw [hanswers, hnone]
    rfl
  · rintro (hscan | hcovers)
    · intro c _ hglobal
      rcases hplan with ⟨_, i, _, _, _, _, _, hlookup⟩ | ⟨_, htable⟩
      · rw [Plan.isScan, hlookup.access] at hscan
        cases hscan
      · rw [htable] at hglobal
        cases hglobal
    · exact hcovers.sees

end TableSchema

/-! ### A library -/

namespace Library

/-- A store that knows equations of texts. -/
def equations : Judge where
  meets c item :=
    match c.operator, c.values, item.get? (rootAttribute c.field) with
    | .eq, [.text wanted], some (.text found) => wanted == found
    | _, _, _ => false
  root_counts c a b h := by rw [h]

/-- Lent books, which can be found by their authors. -/
def lending (projection : Projection) : TableSchema :=
  { table := "library", partitionKey := "owner"
    indexes := [⟨"author-keys", .globalIndex, "author", none, projection⟩] }

/-- The books of an author that somebody has borrowed. -/
def borrowed : List Condition :=
  [Condition.eq "author" (.text "austen"), Condition.eq "borrower" (.text "bob")]

/-- A book that is lent, and one that is not. -/
def lentBooks : Multiset Item :=
  ↑[[("author", Value.text "austen"), ("borrower", .text "bob"), ("owner", .text "ann")],
    [("author", .text "austen"), ("owner", .text "eve")]]

theorem lentBooks_admitted (projection : Projection) :
    ∀ item ∈ lentBooks, ∀ i ∈ (lending projection).indexes, i.admits item = true := by
  intro item hitem i hi
  obtain rfl := List.mem_singleton.1 hi
  rcases List.mem_cons.1 hitem with rfl | hitem
  · rfl
  · obtain rfl := List.mem_singleton.1 hitem
    rfl

end Library

/-- **An index is selected that hides an attribute**: it holds the author of every book, but not who
has borrowed it, and so it brings nothing, although the table has such a book. -/
theorem library_author_keys_hide_the_borrower :
    (Library.lending .keysOnly).validate = .ok () ∧
      (∀ c ∈ Library.borrowed, c.operator.compares = true) ∧
      (∀ item ∈ Library.lentBooks, ∀ i ∈ (Library.lending .keysOnly).indexes,
        i.admits item = true) ∧
      ∃ p, (Library.lending .keysOnly).select Library.borrowed none [] = .ok p ∧
        p.index.name = "author-keys" ∧
        p.answers (Library.lending .keysOnly) Library.equations Library.lentBooks ≠
          (Library.lending .keysOnly).matching Library.equations Library.borrowed
            Library.lentBooks := by
  refine ⟨rfl, by decide, Library.lentBooks_admitted _, _, rfl, rfl, ?_⟩
  have hnone : ∀ p, (Library.lending .keysOnly).select Library.borrowed none [] = .ok p →
      p.answers (Library.lending .keysOnly) Library.equations Library.lentBooks = 0 := by
    intro p hp
    obtain rfl := Except.ok.inj hp
    rfl
  have hone : (Library.lending .keysOnly).matching Library.equations Library.borrowed
      Library.lentBooks = {[("owner", .text "ann")]} := rfl
  rw [hnone _ rfl, hone]
  exact (Multiset.singleton_ne_zero _).symm

/-- If the index holds who has borrowed a book, the book is found. -/
theorem library_projected_borrower_is_found :
    ∃ p, (Library.lending (.including ["borrower"])).select Library.borrowed none [] = .ok p ∧
      p.index.name = "author-keys" ∧
      p.answers (Library.lending (.including ["borrower"])) Library.equations Library.lentBooks =
        {[("owner", .text "ann")]} := by
  have hvalid : (Library.lending (.including ["borrower"])).validate = .ok () := rfl
  have hcompares : ∀ c ∈ Library.borrowed, c.operator.compares = true := by decide
  obtain ⟨p, hp, hsame, _⟩ := TableSchema.selected_answers hvalid hcompares []
    Library.equations (Library.lentBooks_admitted _)
  obtain rfl := Except.ok.inj hp
  exact ⟨_, rfl, rfl, (hsame (by decide)).trans rfl⟩

end Keyspace
