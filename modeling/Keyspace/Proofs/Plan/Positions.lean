import Keyspace.Proofs.Plan.Conditions
import Keyspace.Query.Basic
import Mathlib.Data.List.Forall2
/-!
# Plans by positions

Which conditions a plan hands to the key is a matter of where they stand in the list.  For that only
their attributes and operators count, and not their operands: conditions of the same form have the
same plan, with their own operands in it.

Main definitions:

* `Keyspace.AlikeOutcomes` — one error, or results that are related;
* `Keyspace.Condition.SameForm` — conditions that differ in their operands only;
* `Keyspace.pick` — the elements at some positions;
* `Keyspace.Outline`, `Keyspace.Outline.plan` — a plan by positions, and the plan for some
  conditions;
* `Keyspace.SameOutline` — one outline for two lists of conditions.

Main results:

* `Keyspace.Index.positions_alike` — the same positions for all conditions of one form;
* `Keyspace.TableSchema.select_alike`, `Keyspace.TableSchema.scan_alike`,
  `Keyspace.Query.planOf_alike` — **conditions of the same form have one outline**.
-/

set_option autoImplicit false

namespace Keyspace

/-! ### Outcomes -/

/-- **Two outcomes that are alike**: one error, or results that are related. -/
inductive AlikeOutcomes {α β : Type} (R : α → β → Prop) :
    Except Error α → Except Error β → Prop where
  | error (cause : Error) : AlikeOutcomes R (.error cause) (.error cause)
  | ok {a : α} {b : β} (h : R a b) : AlikeOutcomes R (.ok a) (.ok b)

namespace AlikeOutcomes

variable {α β γ δ : Type} {R : α → β → Prop} {x : Except Error α} {y : Except Error β}

/-- What is known of the results may be used for what is said of them. -/
theorem imp {S : α → β → Prop} (h : AlikeOutcomes R x y)
    (hRS : ∀ a b, x = .ok a → R a b → S a b) : AlikeOutcomes S x y := by
  cases h with
  | error cause => exact .error cause
  | ok h => exact .ok (hRS _ _ rfl h)

/-- An outcome is like itself if its result is. -/
theorem refl {S : α → α → Prop} (h : ∀ a, S a a) (x : Except Error α) : AlikeOutcomes S x x := by
  cases x with
  | error cause => exact .error cause
  | ok a => exact .ok (h a)

theorem exists_of_ok (h : AlikeOutcomes R x y) {a : α} (hx : x = .ok a) :
    ∃ b, y = .ok b ∧ R a b := by
  cases h with
  | error cause => cases hx
  | ok h => cases hx; exact ⟨_, rfl, h⟩

theorem exists_left_of_ok (h : AlikeOutcomes R x y) {b : β} (hy : y = .ok b) :
    ∃ a, x = .ok a ∧ R a b := by
  cases h with
  | error cause => cases hy
  | ok h => cases hy; exact ⟨_, rfl, h⟩

/-- Outcomes whose results are related by a function. -/
theorem eq_map {f : α → β} (h : AlikeOutcomes (fun a b => f a = b) x y) : y = x.map f := by
  cases h with
  | error cause => rfl
  | ok h => exact congrArg Except.ok h.symm

theorem map {S : γ → δ → Prop} {f : α → γ} {g : β → δ} (h : AlikeOutcomes R x y)
    (hRS : ∀ a b, R a b → S (f a) (g b)) : AlikeOutcomes S (x.map f) (y.map g) := by
  cases h with
  | error cause => exact .error cause
  | ok h => exact .ok (hRS _ _ h)

end AlikeOutcomes

/-! ### Form -/

/-- **Conditions of the same form**: they differ in their operands, and not in the number of
them. -/
structure Condition.SameForm (c c' : Condition) : Prop where
  field : c.field = c'.field
  operator : c.operator = c'.operator
  count : c.values.length = c'.values.length

/-- The elements at some positions. -/
def pick {α : Type} (xs : List α) (ks : List Nat) : List α := ks.filterMap fun k => xs[k]?

/-- **A plan by positions.** -/
structure Outline where
  table : String
  index : Index
  access : Access
  /-- The positions of the conditions that the key answers. -/
  keys : List Nat
  /-- The positions of the other conditions. -/
  filters : List Nat
  fullScan : Bool
  deriving Repr

/-- The plan of an outline for some conditions. -/
def Outline.plan (o : Outline) (cs : List Condition) : Plan :=
  { table := o.table, index := o.index, access := o.access, keyConditions := pick cs o.keys
    filterConditions := pick cs o.filters, fullScan := o.fullScan }

/-- Elements with their positions. -/
theorem pick_positions {α : Type} (xs : List α) (zs : List (α × Nat))
    (h : ∀ z ∈ zs, z ∈ xs.zipIdx) : pick xs (zs.map Prod.snd) = zs.map Prod.fst := by
  induction zs with
  | nil => rfl
  | cons z rest ih =>
      obtain ⟨hz, hrest⟩ := List.forall_mem_cons.1 h
      have hget : xs[z.2]? = some z.1 := List.mem_zipIdx_iff_getElem?.1 hz
      unfold pick at ih ⊢
      rw [List.map_cons, List.filterMap_cons_some hget, ih hrest, List.map_cons]

theorem pick_range {α : Type} (xs : List α) : pick xs (List.range xs.length) = xs := by
  have hpositions := pick_positions xs xs.zipIdx fun _ hz => hz
  rwa [List.zipIdx_map_snd, List.zipIdx_map_fst, ← List.range_eq_range'] at hpositions

/-! ### Conditions that a key answers -/

section

variable {cs cs' : List Condition} (h : List.Forall₂ Condition.SameForm cs cs')
include h

theorem findIdx?_alike {p : Condition → Bool}
    (hp : ∀ c c', Condition.SameForm c c' → p c = p c') : cs.findIdx? p = cs'.findIdx? p := by
  induction h with
  | nil => rfl
  | cons hc _ ih => rw [List.findIdx?_cons, List.findIdx?_cons, hp _ _ hc, ih]

theorem map_field_alike : cs.map Condition.field = cs'.map Condition.field := by
  induction h with
  | nil => rfl
  | cons hc _ ih => rw [List.map_cons, List.map_cons, hc.field, ih]

namespace Index

theorem partitionCondition?_alike (i : Index) :
    i.partitionCondition? cs = i.partitionCondition? cs' :=
  findIdx?_alike h fun c c' hc => by rw [isPartitionCondition, isPartitionCondition, hc.field,
    hc.operator]

theorem sortCondition?_alike (i : Index) : i.sortCondition? cs = i.sortCondition? cs' :=
  findIdx?_alike h fun c c' hc => by rw [isSortCondition, isSortCondition, hc.field, hc.operator]

theorem serves_alike (i : Index) : i.serves cs = i.serves cs' := by
  rw [serves, serves, i.partitionCondition?_alike h]

end Index

namespace TableSchema

theorem rank_alike (s : TableSchema) (projection : List String) :
    s.rank cs projection = s.rank cs' projection := by
  funext i
  rw [rank, rank, i.sortCondition?_alike h, covers, covers, map_field_alike h]

end TableSchema

end

/-! ### Dividing conditions -/

namespace Index

/-- The conditions that a key answers and the others, with their positions. -/
def placed (i : Index) (cs : List Condition) : List (Condition × Nat) × List (Condition × Nat) :=
  let chosen := [i.partitionCondition? cs, i.sortCondition? cs]
  let keyed := cs.zipIdx.filter fun z => chosen.contains (some z.2)
  (keyed.filter (fun z => z.1.field == i.partitionKey) ++
    keyed.filter (fun z => !(z.1.field == i.partitionKey)),
    cs.zipIdx.filter fun z => !chosen.contains (some z.2))

theorem placed_perm (i : Index) (cs : List Condition) :
    ((i.placed cs).1 ++ (i.placed cs).2).Perm cs.zipIdx :=
  ((List.filter_append_perm _ _).append_right _).trans (List.filter_append_perm _ _)

theorem mem_zipIdx_of_placed {i : Index} {cs : List Condition} {z : Condition × Nat}
    (h : z ∈ (i.placed cs).1 ++ (i.placed cs).2) : z ∈ cs.zipIdx :=
  (i.placed_perm cs).mem_iff.1 h

/-- **What the key answers**, and what not, without the positions. -/
theorem split_eq_placed (i : Index) (cs : List Condition) :
    i.partitionFirst (i.split cs).1 = (i.placed cs).1.map Prod.fst ∧
      (i.split cs).2 = (i.placed cs).2.map Prod.fst := by
  simp only [partitionFirst, split, placed, List.partition_eq_filter_filter, List.filter_map,
    List.map_append]
  exact ⟨rfl, rfl⟩

/-- The positions of the conditions that a key answers, and of the others. -/
def positions (i : Index) (cs : List Condition) : List Nat × List Nat :=
  ((i.placed cs).1.map Prod.snd, (i.placed cs).2.map Prod.snd)

theorem positions_perm (i : Index) (cs : List Condition) :
    ((i.positions cs).1 ++ (i.positions cs).2).Perm (List.range cs.length) := by
  have hperm := (i.placed_perm cs).map Prod.snd
  rwa [List.map_append, List.zipIdx_map_snd, ← List.range_eq_range'] at hperm

end Index

/-- Conditions of the same form at the same position. -/
def SamePlace (z z' : Condition × Nat) : Prop := z.1.SameForm z'.1 ∧ z.2 = z'.2

theorem zipIdx_alike {cs cs' : List Condition} (h : List.Forall₂ Condition.SameForm cs cs')
    (n : Nat) : List.Forall₂ SamePlace (cs.zipIdx n) (cs'.zipIdx n) := by
  induction h generalizing n with
  | nil => exact .nil
  | cons hc _ ih => exact .cons ⟨hc, rfl⟩ (ih (n + 1))

theorem filter_alike {zs zs' : List (Condition × Nat)} (h : List.Forall₂ SamePlace zs zs')
    {p p' : Condition × Nat → Bool} (hp : ∀ z z', SamePlace z z' → p z = p' z') :
    List.Forall₂ SamePlace (zs.filter p) (zs'.filter p') :=
  List.rel_filter (fun z z' hz => by simp only [hp z z' hz]) h

theorem map_snd_alike {zs zs' : List (Condition × Nat)} (h : List.Forall₂ SamePlace zs zs') :
    zs.map Prod.snd = zs'.map Prod.snd := by
  induction h with
  | nil => rfl
  | cons hz _ ih => rw [List.map_cons, List.map_cons, hz.2, ih]

/-- **The same positions for all conditions of one form.** -/
theorem Index.positions_alike {cs cs' : List Condition}
    (h : List.Forall₂ Condition.SameForm cs cs') (i : Index) :
    i.positions cs = i.positions cs' := by
  have hall := zipIdx_alike h 0
  have hfirst : ∀ z z', SamePlace z z' →
      (z.1.field == i.partitionKey) = (z'.1.field == i.partitionKey) :=
    fun z z' hz => by rw [hz.1.field]
  unfold positions placed
  simp only [i.partitionCondition?_alike h, i.sortCondition?_alike h]
  refine Prod.ext (map_snd_alike (List.rel_append ?_ ?_)) (map_snd_alike ?_)
  · exact filter_alike (filter_alike hall fun z z' hz => by rw [hz.2]) hfirst
  · exact filter_alike (filter_alike hall fun z z' hz => by rw [hz.2])
      fun z z' hz => by rw [hfirst z z' hz]
  · exact filter_alike hall fun z z' hz => by rw [hz.2]

/-! ### Outlines -/

namespace TableSchema

/-- The outline of a plan that reads everything. -/
def scanOutline (s : TableSchema) (i : Index) (count : Nat) : Outline :=
  { table := s.table, index := i, access := .scan, keys := [], filters := List.range count
    fullScan := true }

/-- The outline of a plan that reads by the key of an index. -/
def queryOutline (s : TableSchema) (i : Index) (cs : List Condition) : Outline :=
  { table := s.table, index := i, access := .query, keys := (i.positions cs).1
    filters := (i.positions cs).2, fullScan := false }

theorem scanPlan_eq (s : TableSchema) (i : Index) (cs : List Condition) :
    s.scanPlan i cs = (s.scanOutline i cs.length).plan cs := by
  simp only [scanPlan, scanOutline, Outline.plan, pick_range]
  rfl

theorem queryPlan_eq (s : TableSchema) (i : Index) (cs : List Condition) :
    s.queryPlan i cs = (s.queryOutline i cs).plan cs := by
  obtain ⟨hkeyed, hothers⟩ := i.split_eq_placed cs
  have hkeys : pick cs (i.positions cs).1 = i.partitionFirst (i.split cs).1 := by
    rw [hkeyed]
    exact pick_positions _ _ fun z hz => Index.mem_zipIdx_of_placed (List.mem_append_left _ hz)
  have hfilters : pick cs (i.positions cs).2 = (i.split cs).2 := by
    rw [hothers]
    exact pick_positions _ _ fun z hz => Index.mem_zipIdx_of_placed (List.mem_append_right _ hz)
  simp only [queryPlan, queryOutline, Outline.plan, hkeys, hfilters]

end TableSchema

/-- **One outline for two lists of conditions**: it gives both of them their plans, and every
condition has its place in it. -/
def SameOutline (cs cs' : List Condition) (plan plan' : Plan) : Prop :=
  ∃ o : Outline, plan = o.plan cs ∧ plan' = o.plan cs' ∧
    (o.keys ++ o.filters).Perm (List.range cs.length)

section

variable {cs cs' : List Condition} (h : List.Forall₂ Condition.SameForm cs cs')
include h

namespace SameOutline

theorem scanPlan (s : TableSchema) (i : Index) :
    SameOutline cs cs' (s.scanPlan i cs) (s.scanPlan i cs') := by
  refine ⟨s.scanOutline i cs.length, s.scanPlan_eq i cs, ?_, .refl _⟩
  rw [s.scanPlan_eq, ← h.length_eq]

theorem queryPlan (s : TableSchema) (i : Index) :
    SameOutline cs cs' (s.queryPlan i cs) (s.queryPlan i cs') := by
  refine ⟨s.queryOutline i cs, s.queryPlan_eq i cs, ?_, i.positions_perm cs⟩
  rw [s.queryPlan_eq, TableSchema.queryOutline, ← i.positions_alike h]
  rfl

end SameOutline

namespace TableSchema

/-- **Conditions of the same form are planned alike.** -/
theorem select_alike (s : TableSchema) (index : Option String) (projection : List String) :
    AlikeOutcomes (SameOutline cs cs') (s.select cs index projection)
      (s.select cs' index projection) := by
  cases index with
  | some name =>
      unfold select
      simp only
      cases hi : s.named name with
      | error e => exact .error e
      | ok i =>
          simp only [bind, Except.bind, i.serves_alike h]
          split
          · exact .ok (.queryPlan h s i)
          · exact .ok (.scanPlan h s i)
  | none =>
      have hserves : (fun i : Index => i.serves cs) = fun i => i.serves cs' :=
        funext fun i => i.serves_alike h
      unfold select
      simp only [hserves, s.rank_alike h]
      split
      · exact .ok (.queryPlan h s _)
      · exact .ok (.scanPlan h s _)

/-- **Scans with conditions of the same form are planned alike.** -/
theorem scan_alike (s : TableSchema) (index : Option String) :
    AlikeOutcomes (SameOutline cs cs') (s.scan cs index) (s.scan cs' index) := by
  cases index with
  | some name =>
      unfold scan
      simp only
      cases hi : s.named name with
      | error e => exact .error e
      | ok i => exact .ok (.scanPlan h s i)
  | none => exact .ok (.scanPlan h s s.baseIndex)

end TableSchema

/-- **Queries that differ in operands are planned alike.** -/
theorem Query.planOf_alike (q : Query) :
    AlikeOutcomes (SameOutline cs cs') (q.planOf cs) (q.planOf cs') := by
  unfold planOf
  split
  · exact TableSchema.scan_alike h _ _
  · exact TableSchema.select_alike h _ _ _

end

end Keyspace
