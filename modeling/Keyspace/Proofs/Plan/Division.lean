import Keyspace.Proofs.Plan.Positions
import Keyspace.Proofs.Plan.Selection
import Keyspace.Proofs.Request.Form
import Keyspace.Proofs.Schema.Validity
/-!
# Dividing conditions between key and filter

A key answers at most two conditions: the first that equates the partition key with a value, and the
first on the sort key that a key can answer.  They are found by their positions, and put in order
afterwards.  Whatever stands at another position is left to the filter, in the given order, and so
are further conditions on the same attributes.

Main definitions:

* `Keyspace.IsFirst` — the first element of a list with some property;
* `Keyspace.Index.Equates`, `Keyspace.Index.Sorts` — the conditions that a key can answer;
* `Keyspace.Plan.Divides` — a plan divides conditions between key and filter.

Main results:

* `Keyspace.Index.partitionFirst_split`, `Keyspace.Index.split_snd` — **what the key answers**, and
  what not;
* `Keyspace.TableSchema.keys_differ` — the keys of an index;
* `Keyspace.Read.key_ne_empty` — a key expression says something;
* `Keyspace.TableSchema.plan_divides_its_conditions` — **nothing is lost between key and filter**.
-/

set_option autoImplicit false

namespace Keyspace

/-! ### The first element -/

/-- **The first element with some property**: none of those before it has it. -/
def IsFirst {α : Type} (P : α → Prop) (xs : List α) (x : α) : Prop :=
  P x ∧ ∃ before after, xs = before ++ x :: after ∧ ∀ y ∈ before, ¬P y

/-- The position of the first element with some property, if positions are counted from `n` on. -/
def firstFrom {α : Type} (p : α → Bool) (xs : List α) (n : Nat) : Option Nat :=
  (xs.findIdx? p).map (· + n)

section

variable {α : Type} {p q : α → Bool}

theorem isFirst_of_find? {P : α → Prop} (h : ∀ x, p x = true ↔ P x) {xs : List α} {x : α}
    (hx : xs.find? p = some x) : IsFirst P xs x := by
  obtain ⟨hp, before, after, hxs, hbefore⟩ := List.find?_eq_some_iff_append.1 hx
  refine ⟨(h x).1 hp, before, after, hxs, fun y hy hP => ?_⟩
  have hnot := hbefore y hy
  rw [(h y).2 hP] at hnot
  cases hnot

theorem firstFrom_zero (xs : List α) : firstFrom p xs 0 = xs.findIdx? p := Option.map_id'

theorem firstFrom_cons (x : α) (rest : List α) (n : Nat) :
    firstFrom p (x :: rest) n = if p x then some n else firstFrom p rest (n + 1) := by
  unfold firstFrom
  rw [List.findIdx?_cons]
  split
  · simp
  · rw [Option.map_map]
    exact congrArg (Option.map · _) (funext fun k => by simp only [Function.comp_apply]; omega)

/-- No position behind another is the same. -/
theorem firstFrom_succ_ne (xs : List α) (n : Nat) : (some n == firstFrom p xs (n + 1)) = false := by
  unfold firstFrom
  cases xs.findIdx? p with
  | none => rfl
  | some k => rw [Option.map_some, beq_eq_false_iff_ne, Ne, Option.some.injEq]; omega

theorem ne_of_mem_zipIdx_succ {xs : List α} {n : Nat} {z : α × Nat} (h : z ∈ xs.zipIdx (n + 1)) :
    (some z.2 == some n) = false := by
  have hle := List.le_snd_of_mem_zipIdx h
  rw [beq_eq_false_iff_ne, Ne, Option.some.injEq]
  omega

/-- **The element at the first position.** -/
theorem filter_at_first (xs : List α) (n : Nat) :
    ((xs.zipIdx n).filter fun z => some z.2 == firstFrom p xs n).map Prod.fst =
      (xs.find? p).toList := by
  induction xs generalizing n with
  | nil => rfl
  | cons x rest ih =>
      rw [List.zipIdx_cons, firstFrom_cons, List.find?_cons]
      cases hx : p x with
      | true =>
          have hrest : ((rest.zipIdx (n + 1)).filter fun z => some z.2 == some n) = [] :=
            List.filter_eq_nil_iff.2 fun z hz => by rw [ne_of_mem_zipIdx_succ hz]; decide
          simp only [if_true, List.filter_cons, beq_self_eq_true, hrest]
          rfl
      | false =>
          simp only [Bool.false_eq_true, if_false, List.filter_cons, firstFrom_succ_ne]
          exact ih (n + 1)

/-- The elements at all positions but the first. -/
theorem filter_off_first (xs : List α) (n : Nat) :
    ((xs.zipIdx n).filter fun z => !(some z.2 == firstFrom p xs n)).map Prod.fst =
      xs.eraseP p := by
  induction xs generalizing n with
  | nil => rfl
  | cons x rest ih =>
      rw [List.zipIdx_cons, firstFrom_cons]
      cases hx : p x with
      | true =>
          have hrest : ((rest.zipIdx (n + 1)).filter fun z => !(some z.2 == some n)) =
              rest.zipIdx (n + 1) :=
            List.filter_eq_self.2 fun z hz => by rw [ne_of_mem_zipIdx_succ hz]; rfl
          simp only [if_true, List.filter_cons, beq_self_eq_true, hrest, List.eraseP_cons_of_pos hx]
          exact List.zipIdx_map_fst _ _
      | false =>
          rw [List.eraseP_cons_of_neg (by rw [hx]; decide)]
          simp only [Bool.false_eq_true, if_false, List.filter_cons, firstFrom_succ_ne]
          exact congrArg (x :: ·) (ih (n + 1))

/-- **The elements at all positions but two**, the first with one property and the first with
another, if no element has both. -/
theorem filter_off_both (hpq : ∀ x, p x = true → q x = false) (xs : List α) (n : Nat) :
    ((xs.zipIdx n).filter fun z =>
      !(some z.2 == firstFrom p xs n || some z.2 == firstFrom q xs n)).map Prod.fst =
      (xs.eraseP p).eraseP q := by
  induction xs generalizing n with
  | nil => rfl
  | cons x rest ih =>
      rw [List.zipIdx_cons, firstFrom_cons, firstFrom_cons]
      cases hp : p x with
      | true =>
          -- the first position is taken, and no other is the same
          have hrest : ((rest.zipIdx (n + 1)).filter fun z =>
              !(some z.2 == some n || some z.2 == firstFrom q rest (n + 1))) =
              (rest.zipIdx (n + 1)).filter fun z => !(some z.2 == firstFrom q rest (n + 1)) :=
            List.filter_congr fun z hz => by rw [ne_of_mem_zipIdx_succ hz, Bool.false_or]
          rw [List.eraseP_cons_of_pos hp]
          simp only [hpq x hp, Bool.false_eq_true, if_true, if_false, List.filter_cons,
            beq_self_eq_true, Bool.true_or, hrest]
          exact filter_off_first rest (n + 1)
      | false =>
          rw [List.eraseP_cons_of_neg (by rw [hp]; decide)]
          cases hq : q x with
          | true =>
              have hrest : ((rest.zipIdx (n + 1)).filter fun z =>
                  !(some z.2 == firstFrom p rest (n + 1) || some z.2 == some n)) =
                  (rest.zipIdx (n + 1)).filter fun z => !(some z.2 == firstFrom p rest (n + 1)) :=
                List.filter_congr fun z hz => by rw [ne_of_mem_zipIdx_succ hz, Bool.or_false]
              rw [List.eraseP_cons_of_pos hq]
              simp only [Bool.false_eq_true, if_true, if_false, List.filter_cons,
                beq_self_eq_true, Bool.or_true, hrest]
              exact filter_off_first rest (n + 1)
          | false =>
              rw [List.eraseP_cons_of_neg (by rw [hq]; decide)]
              simp only [Bool.false_eq_true, if_false, List.filter_cons, firstFrom_succ_ne,
                Bool.or_false]
              exact congrArg (x :: ·) (ih (n + 1))

end

/-! ### Conditions that a key answers -/

namespace Index

/-- A condition equates the partition key with a value. -/
def Equates (i : Index) (c : Condition) : Prop := c.field = i.partitionKey ∧ c.operator = .eq

/-- A condition on the sort key that a key can answer: an equation, a comparison by order or a
prefix. -/
def Sorts (i : Index) (c : Condition) : Prop :=
  i.sortKey = some c.field ∧ c.operator ∈ [.eq, .lt, .le, .gt, .ge, .between, .beginsWith]

instance (i : Index) (c : Condition) : Decidable (i.Sorts c) :=
  inferInstanceAs (Decidable (i.sortKey = some c.field ∧
    c.operator ∈ [.eq, .lt, .le, .gt, .ge, .between, .beginsWith]))

theorem isPartitionCondition_iff {i : Index} (c : Condition) :
    i.isPartitionCondition c = true ↔ i.Equates c := by
  simp [isPartitionCondition, Equates]

theorem isSortCondition_iff {i : Index} (c : Condition) :
    i.isSortCondition c = true ↔ i.Sorts c := by
  rw [isSortCondition, Bool.and_eq_true, beq_iff_eq, servesSortKey_iff, Sorts]

theorem find?_isPartitionCondition_isSome {i : Index} {cs : List Condition} :
    (cs.find? i.isPartitionCondition).isSome = true ↔ i.IsKeyedBy cs := by
  rw [List.find?_isSome]
  exact exists_congr fun c => and_congr_right fun _ => isPartitionCondition_iff c

section

variable {i : Index} {cs : List Condition} {z : Condition × Nat} (hz : z ∈ cs.zipIdx)
include hz

/-- What stands at the position of a condition on the partition key is on it. -/
theorem field_of_partitionCondition? (h : some z.2 = i.partitionCondition? cs) :
    z.1.field = i.partitionKey := by
  have hfound := List.of_findIdx?_eq_some h.symm
  rw [List.mem_zipIdx_iff_getElem?.1 hz] at hfound
  exact ((isPartitionCondition_iff _).1 hfound).1

/-- What stands at the position of a condition on the sort key is not on the partition key. -/
theorem field_of_sortCondition? (hkeys : i.sortKey ≠ some i.partitionKey)
    (h : some z.2 = i.sortCondition? cs) : z.1.field ≠ i.partitionKey := by
  have hfound := List.of_findIdx?_eq_some h.symm
  rw [List.mem_zipIdx_iff_getElem?.1 hz] at hfound
  obtain ⟨hsort, -⟩ := (isSortCondition_iff _).1 hfound
  rintro hfield
  exact hkeys (hfield ▸ hsort)

end

section

variable {i : Index} (hkeys : i.sortKey ≠ some i.partitionKey) (cs : List Condition)
include hkeys

/-- The two positions that are chosen are told apart by the attribute that stands there. -/
theorem chosen_iff {z : Condition × Nat} (hz : z ∈ cs.zipIdx) :
    ((z.1.field == i.partitionKey &&
        [i.partitionCondition? cs, i.sortCondition? cs].contains (some z.2)) =
      (some z.2 == i.partitionCondition? cs)) ∧
    ((!(z.1.field == i.partitionKey) &&
        [i.partitionCondition? cs, i.sortCondition? cs].contains (some z.2)) =
      (some z.2 == i.sortCondition? cs)) := by
  by_cases hp : some z.2 = i.partitionCondition? cs
  · have hfield := field_of_partitionCondition? hz hp
    have hs : some z.2 ≠ i.sortCondition? cs :=
      fun h => field_of_sortCondition? hz hkeys h hfield
    simp [hp, hfield, hp ▸ hs]
  · by_cases hs : some z.2 = i.sortCondition? cs
    · have hfield := field_of_sortCondition? hz hkeys hs
      simp [hs, hfield, hs ▸ hp]
    · simp [hp, hs]

/-- **What the key answers**: the first condition that equates the partition key, and then the first
on the sort key that it can answer. -/
theorem partitionFirst_split :
    i.partitionFirst (i.split cs).1 =
      (cs.find? i.isPartitionCondition).toList ++ (cs.find? i.isSortCondition).toList := by
  rw [(i.split_eq_placed cs).1, placed, List.map_append, List.filter_filter, List.filter_filter,
    ← filter_at_first cs 0, ← filter_at_first cs 0, firstFrom_zero, firstFrom_zero]
  congr 2
  · exact List.filter_congr fun z hz => (chosen_iff hkeys cs hz).1
  · exact List.filter_congr fun z hz => (chosen_iff hkeys cs hz).2

/-- **What the key does not answer**: all that is left without these two, in the given order. -/
theorem split_snd :
    (i.split cs).2 = (cs.eraseP i.isPartitionCondition).eraseP i.isSortCondition := by
  have hdisjoint : ∀ c, i.isPartitionCondition c = true → i.isSortCondition c = false := by
    intro c hpartition
    refine Bool.eq_false_iff.2 fun hsort => hkeys ?_
    rw [((isSortCondition_iff c).1 hsort).1, ((isPartitionCondition_iff c).1 hpartition).1]
  rw [(i.split_eq_placed cs).2, placed, ← filter_off_both hdisjoint cs 0, firstFrom_zero,
    firstFrom_zero]
  refine congrArg (List.map Prod.fst) (List.filter_congr fun z _ => ?_)
  rw [List.contains_cons, List.contains_cons, List.contains_nil, Bool.or_false]
  rfl

end

end Index

/-! ### Plans -/

/-- **A plan divides conditions between key and filter**: it loses none, and the key takes the first
that it can answer on each of its attributes. -/
structure Plan.Divides (p : Plan) (cs : List Condition) : Prop where
  all : (p.keyConditions ++ p.filterConditions).Perm cs
  /-- The filter keeps the given order. -/
  ordered : p.filterConditions.Sublist cs
  fullScan : p.fullScan = true ↔ p.access = .scan
  /-- A plan that reads everything leaves all conditions to the filter. -/
  scanned : p.access = .scan → p.keyConditions = []
  /-- A plan that reads by key has a condition on the partition key, and behind it one on the sort
  key if there is any that the key can answer. -/
  keyed : p.access = .query → ∃ c, IsFirst p.index.Equates cs c ∧
    ((p.keyConditions = [c] ∧ ∀ d ∈ cs, ¬p.index.Sorts d) ∨
      ∃ d, p.keyConditions = [c, d] ∧ IsFirst p.index.Sorts cs d)

namespace TableSchema

variable {s : TableSchema} {cs : List Condition} {index : Option String} {p : Plan}

/-- **The keys of an index differ** if the schema is valid. -/
theorem keys_differ (hvalid : s.validate = .ok ()) {i : Index}
    (hi : i ∈ s.baseIndex :: s.indexes) : i.sortKey ≠ some i.partitionKey := by
  have hs := validate_iff_isUnambiguous.1 hvalid
  rcases List.mem_cons.1 hi with rfl | hi
  · exact hs.keys.ne
  · exact (hs.indexKeys i hi).ne

theorem scanPlan_divides (i : Index) (cs : List Condition) : (s.scanPlan i cs).Divides cs where
  all := s.scanPlan_perm i cs
  ordered := .refl _
  fullScan := by simp [scanPlan]
  scanned _ := rfl
  keyed h := by cases h

theorem queryPlan_divides (i : Index) (hkeys : i.sortKey ≠ some i.partitionKey)
    (hkeyed : i.IsKeyedBy cs) : (s.queryPlan i cs).Divides cs where
  all := s.queryPlan_perm i cs
  ordered := by
    show (i.split cs).2.Sublist cs
    rw [Index.split_snd hkeys]
    exact List.eraseP_sublist.trans List.eraseP_sublist
  fullScan := by simp [queryPlan]
  scanned h := by cases h
  keyed _ := by
    obtain ⟨c, hc⟩ := Option.isSome_iff_exists.1 (Index.find?_isPartitionCondition_isSome.2 hkeyed)
    have hconditions : (s.queryPlan i cs).keyConditions =
        c :: (cs.find? i.isSortCondition).toList := by
      show i.partitionFirst (i.split cs).1 = _
      rw [Index.partitionFirst_split hkeys, hc]
      rfl
    refine ⟨c, isFirst_of_find? Index.isPartitionCondition_iff hc, ?_⟩
    rw [hconditions]
    cases hd : cs.find? i.isSortCondition with
    | none =>
        refine .inl ⟨rfl, fun d hmem hsorts => ?_⟩
        exact List.find?_eq_none.1 hd d hmem ((Index.isSortCondition_iff d).2 hsorts)
    | some d => exact .inr ⟨d, rfl, isFirst_of_find? Index.isSortCondition_iff hd⟩

theorem select_divides (hvalid : s.validate = .ok ()) {projection : List String}
    (h : s.select cs index projection = .ok p) : p.Divides cs := by
  obtain ⟨i, hi, ⟨rfl, hkeyed⟩ | rfl⟩ := exists_index_of_select h
  · exact queryPlan_divides i (keys_differ hvalid hi) hkeyed
  · exact scanPlan_divides i cs

theorem scan_divides (h : s.scan cs index = .ok p) : p.Divides cs := by
  obtain ⟨i, rfl⟩ := scan_cases h
  exact scanPlan_divides i cs

end TableSchema

/-! ### Key expressions -/

theorem Clause.text_ne_empty (y : Clause) : y.text ≠ "" := by
  obtain ⟨operator, path, operands⟩ := y
  intro h
  have hlist := congrArg String.toList h
  cases operator <;> simp [text] at hlist

/-- **A key expression says something**: where there are key conditions, its text is not empty. -/
theorem Read.key_ne_empty {r : Read} {e : Expressions} (h : r.compile = .ok e)
    (hne : r.plan.keyConditions ≠ []) : (e.key.map Expression.text).getD "" ≠ "" := by
  rw [r.compile_eq] at h
  obtain ⟨merged, -, rfl⟩ := map_eq_ok h
  obtain ⟨c, rest, hconditions⟩ := List.exists_cons_of_ne_nil hne
  rw [hconditions]
  show " AND ".intercalate (((Compiler.empty.clauses (c :: rest)).1).map Clause.text) ≠ ""
  rw [Compiler.clauses, List.map_cons, intercalate_cons]
  intro htext
  exact Clause.text_ne_empty _ (String.append_eq_empty_iff.1 htext).1

/-- Without fragments there is nothing that could be refused. -/
theorem Read.exists_compile {r : Read} (h : r.fragments = []) : ∃ e, r.compile = .ok e := by
  rw [r.compile_eq, h]
  exact ⟨_, rfl⟩

/-- A plan by key makes requests with a key expression, and one without key makes scans. -/
theorem Plan.Divides.request {p : Plan} {cs : List Condition} (h : p.Divides cs) {r : Read}
    (hr : r.plan = p) {e : Expressions} (he : r.compile = .ok e) (select : Option Selection) :
    (p.access = .query → ∃ q, r.request e select = .query q ∧ q.key ≠ "") ∧
      (p.access = .scan → ∃ q, r.request e select = .scan q) := by
  subst hr
  refine ⟨fun hquery => ?_, fun hscan => ?_⟩
  · have hisScan : r.plan.isScan = false := by simp [Plan.isScan, hquery]
    have hne : r.plan.keyConditions ≠ [] := by
      obtain ⟨c, -, ⟨hkey, -⟩ | ⟨d, hkey, -⟩⟩ := h.keyed hquery
      · simp [hkey]
      · simp [hkey]
    refine ⟨_, by simp only [Read.request, hisScan, Bool.false_eq_true, if_false]; rfl, ?_⟩
    exact Read.key_ne_empty he hne
  · have hisScan : r.plan.isScan = true := by simp [Plan.isScan, hscan]
    exact ⟨_, by simp only [Read.request, hisScan, if_true]; rfl⟩

/-- **Nothing is lost between key and filter.**  The plan of a selection or of a scan divides the
given conditions, and a plan by key makes requests whose key expression is not empty. -/
theorem TableSchema.plan_divides_its_conditions {s : TableSchema} (hvalid : s.validate = .ok ())
    {cs : List Condition} {index : Option String} {projection : List String} {p : Plan}
    (h : s.select cs index projection = .ok p ∨ s.scan cs index = .ok p) :
    p.Divides cs ∧ ∀ r : Read, r.plan = p →
      (r.fragments = [] → ∃ e, r.compile = .ok e) ∧
      ∀ e, r.compile = .ok e → ∀ select,
        (p.access = .query → ∃ q, r.request e select = .query q ∧ q.key ≠ "") ∧
        (p.access = .scan → ∃ q, r.request e select = .scan q) := by
  have hdivides : p.Divides cs := h.elim (select_divides hvalid) scan_divides
  exact ⟨hdivides, fun r hr =>
    ⟨Read.exists_compile, fun e he select => hdivides.request hr he select⟩⟩

/-! ### A library -/

namespace Library

/-- Conditions with two bounds for one year and two names for one author. -/
def twice : List Condition :=
  [⟨"year", .ge, [.number "1800"]⟩, Condition.eq "author" (.text "austen"),
    ⟨"year", .le, [.number "1820"]⟩, Condition.eq "author" (.text "eliot")]

end Library

/-- Of the conditions on the keys of an index, the key takes the first on the author and, behind it,
the first on the year; the others are left to the filter. -/
theorem library_divides_repeated_conditions :
    Library.authors.validate = .ok () ∧
      ∃ p, Library.authors.select Library.twice none [] = .ok p ∧ p.access = .query ∧
        p.Divides Library.twice ∧
        p.keyConditions =
          [Condition.eq "author" (.text "austen"), ⟨"year", .ge, [.number "1800"]⟩] ∧
        p.filterConditions =
          [⟨"year", .le, [.number "1820"]⟩, Condition.eq "author" (.text "eliot")] ∧
        ∃ e q, Read.compile { plan := p } = .ok e ∧
          Read.request { plan := p } e none = .query q ∧ q.key ≠ "" := by
  have hvalid : Library.authors.validate = .ok () := rfl
  obtain ⟨p, hp⟩ : ∃ p, Library.authors.select Library.twice none [] = .ok p := ⟨_, rfl⟩
  have hquery : p.access = .query := by
    obtain rfl := Except.ok.inj hp
    decide
  obtain ⟨hdivides, hrequests⟩ := TableSchema.plan_divides_its_conditions hvalid (.inl hp)
  obtain ⟨hcompiles, hrequest⟩ := hrequests { plan := p } rfl
  obtain ⟨e, he⟩ := hcompiles rfl
  obtain ⟨q, hq, hkey⟩ := (hrequest e he none).1 hquery
  refine ⟨hvalid, p, hp, hquery, hdivides, ?_, ?_, e, q, he, hq, hkey⟩
  · obtain rfl := Except.ok.inj hp
    rfl
  · obtain rfl := Except.ok.inj hp
    rfl

end Keyspace
