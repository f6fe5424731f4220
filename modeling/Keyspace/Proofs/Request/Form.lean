import Keyspace.Proofs.Expression.Alike
import Keyspace.Proofs.Model.Decoding
import Keyspace.Proofs.Read.Shape
/-!
# Requests of the same form

Operands never influence the structure or the text of a request.  Two requests that differ in their
operands only are planned alike and have the same texts and names, and each operand is the value of
a placeholder that only depends on where the operand stands.  So no operand can be read as a part of
an expression, and a cursor can be used with other operands.

Main definitions:

* `Keyspace.SameOperand` — values that are operands of the same number, or the same value of a
  fragment;
* `Keyspace.operandAt`, `Keyspace.places` — the operand at a place, and all places;
* `Keyspace.HoldOperands` — the values of two requests that differ in operands only.

Main results:

* `Keyspace.Read.compile_alike`, `Keyspace.Update.expressions_alike` — **the expressions of reads
  and updates of the same form are alike**;
* `Keyspace.Read.mem_values`, `Keyspace.Update.mem_values` — every operand has a placeholder;
* `Keyspace.operands_never_shape_requests` — **operands never influence structure or text**.
-/

set_option autoImplicit false

namespace Keyspace

open Placeholder (ofValue)

/-! ### Operands by their numbers -/

/-- **Values that a placeholder stands for**, in two requests with the operands `vs` and `vs'`: the
operands with its number, or one value if the placeholder is none of an operand. -/
def SameOperand (vs vs' : List Value) (name : String) (v v' : Value) : Prop :=
  (∃ n, name = ofValue n ∧ vs[n]? = some v ∧ vs'[n]? = some v') ∨
    v = v' ∧ ∀ n < vs.length, name ≠ ofValue n

theorem SameOperand.append_right {vs vs' : List Value} (more more' : List Value) {n : Nat}
    {v v' : Value} (hv : vs[n]? = some v) (hv' : vs'[n]? = some v') :
    SameOperand (vs ++ more) (vs' ++ more') (ofValue n) v v' := by
  refine .inl ⟨n, rfl, ?_, ?_⟩
  · rw [List.getElem?_append_left (List.getElem?_eq_some_iff.1 hv).1, hv]
  · rw [List.getElem?_append_left (List.getElem?_eq_some_iff.1 hv').1, hv']

/-- Operands that stand behind as many others. -/
theorem SameOperand.append_left {vs vs' before before' : List Value}
    (hlength : before.length = before'.length) {n : Nat} {v v' : Value}
    (hv : vs[n]? = some v) (hv' : vs'[n]? = some v') :
    SameOperand (before ++ vs) (before' ++ vs') (ofValue (before.length + n)) v v' := by
  refine .inl ⟨_, rfl, ?_, ?_⟩
  · rw [List.getElem?_append_right (Nat.le_add_right _ _), Nat.add_sub_cancel_left, hv]
  · rw [hlength, List.getElem?_append_right (Nat.le_add_right _ _), Nat.add_sub_cancel_left, hv']

/-- The values of fragments that are taken in have no placeholders of operands. -/
theorem SameOperand.of_takenIn {c d : Compiler} {fs : List Fragment} (h : c.TakenIn d fs)
    {vs : List Value} (hvs : vs.length ≤ c.operandCount) (vs' : List Value) {f : Fragment}
    (hf : f ∈ fs) {e : String × Value} (he : e ∈ f.values) : SameOperand vs vs' e.1 e.2 e.2 := by
  refine .inr ⟨rfl, fun n hn hname => ?_⟩
  have hdeclared : e.1 ∈ f.declared :=
    List.mem_append_right _ (List.mem_map_of_mem (f := Prod.fst) he)
  have hissued : c.hasIssued e.1 = true :=
    Compiler.hasIssued_iff.2 (.inr (.inl ⟨n, Nat.lt_of_lt_of_le hn hvs, hname⟩))
  rw [h.fresh f hf e.1 hdeclared] at hissued
  cases hissued

namespace Dict.Alike

variable {vs vs' : List Value} {d d' : Dict Value}

/-- **The placeholder of an operand stands for it.** -/
theorem operand (h : d.Alike (SameOperand vs vs') d') {n : Nat} (hn : n < vs.length)
    (hmem : ofValue n ∈ d.names) :
    d.get? (ofValue n) = vs[n]? ∧ d'.get? (ofValue n) = vs'[n]? := by
  obtain ⟨v, hv⟩ := Dict.mem_names_iff.1 hmem
  have hrel := h.get? (ofValue n)
  rw [hv] at hrel
  cases hv' : d'.get? (ofValue n) with
  | none => rw [hv'] at hrel; cases hrel
  | some v' =>
      rw [hv'] at hrel
      cases hrel with
      | some hsame =>
          obtain ⟨m, hm, hget, hget'⟩ | ⟨-, hnone⟩ := hsame
          · obtain rfl : n = m := Placeholder.ofValue_inj hm
            exact ⟨by rw [hv, hget], by rw [hget']⟩
          · exact absurd rfl (hnone n hn)

/-- Every other placeholder stands for one value. -/
theorem other (h : d.Alike (SameOperand vs vs') d') {name : String}
    (hname : ∀ n < vs.length, name ≠ ofValue n) : d.get? name = d'.get? name := by
  have hrel := h.get? name
  revert hrel
  generalize d.get? name = x
  generalize d'.get? name = x'
  intro hrel
  cases hrel with
  | none => rfl
  | some hsame =>
      obtain ⟨n, hn, hget, -⟩ | ⟨rfl, -⟩ := hsame
      · exact absurd hn (hname n (List.getElem?_eq_some_iff.1 hget).1)
      · rfl

end Dict.Alike

/-! ### Operands that have placeholders -/

namespace Compiler

theorem operandCount_conditions (xs : List Condition) :
    (empty.conditions xs).2.operandCount = (xs.flatMap Condition.values).length :=
  (empty.conditions_grows xs).operandCount.trans (Nat.zero_add _)

theorem operandCount_update (xs : List Change) :
    (empty.update xs).2.operandCount = (xs.filterMap Change.operand?).length :=
  (empty.update_grows xs).operandCount.trans (Nat.zero_add _)

theorem mem_numbered_names (start : Nat) {n : Nat} {vs : List Value} (hn : n < vs.length) :
    ofValue (start + n) ∈ (Dict.ofList (numbered start vs)).names := by
  rw [Dict.mem_names_ofList, map_fst_numbered]
  exact List.mem_map_of_mem (List.mem_range'_1.2 ⟨Nat.le_add_right _ _, by omega⟩)

/-- Each operand of some conditions has a placeholder. -/
theorem mem_conditions (c : Compiler) (xs : List Condition) {n : Nat}
    (hn : n < (xs.flatMap Condition.values).length) :
    ∃ e, (c.conditions xs).1 = some e ∧ ofValue (c.operandCount + n) ∈ e.values.names := by
  cases he : (c.conditions xs).1 with
  | none =>
      cases xs with
      | nil => cases hn
      | cons x rest => cases he
  | some e =>
      refine ⟨e, rfl, ?_⟩
      rw [(conditions_binds he).values]
      exact mem_numbered_names _ hn

/-- Merging keeps the placeholders of a generated expression. -/
theorem mem_merge {c : Compiler} {fs : List Fragment} {g : Expression}
    {merged : Option Expression} (h : (c.merge (some g) fs).1 = .ok merged) :
    ∃ x, merged = some x ∧ ∀ name ∈ g.values.names, name ∈ x.values.names := by
  unfold merge at h
  split at h
  · cases h
    exact ⟨g, rfl, fun _ hname => hname⟩
  · split at h
    · cases h
      refine ⟨_, rfl, fun name hname => ?_⟩
      rw [join_values, Dict.mem_names_unite]
      exact ⟨g, mem_joinParts.2 (.inr rfl), hname⟩
    · cases h

end Compiler

/-- The placeholders of one expression are placeholders of the request. -/
theorem Expressions.mem_values {e : Expressions} {x : Expression} (hx : x ∈ e.present)
    {name : String} (hname : name ∈ x.values.names) : name ∈ e.values.names :=
  Dict.mem_names_unite.2 ⟨x, hx, hname⟩

/-! ### Reads -/

namespace Read

/-- The operands of a read in the order of their numbers. -/
def operands (r : Read) : List Value :=
  r.plan.keyConditions.flatMap Condition.values ++ r.plan.filterConditions.flatMap Condition.values

theorem compile_eq (r : Read) :
    let key := Compiler.empty.conditions r.plan.keyConditions
    let filter := key.2.conditions r.plan.filterConditions
    let projection := filter.2.projection r.projection
    r.compile = (projection.2.merge filter.1 r.fragments).1.map fun merged =>
      { key := key.1, filter := merged, projection := projection.1 } := by
  simp only [compile]
  split
  · next hmerge => rw [hmerge]; rfl
  · next hmerge => rw [hmerge]; rfl

/-- **Reads of the same form have alike expressions**, or the same error. -/
theorem compile_alike (r : Read) (plan : Plan)
    (hkey : List.Forall₂ Condition.SameForm r.plan.keyConditions plan.keyConditions)
    (hfilter : List.Forall₂ Condition.SameForm r.plan.filterConditions plan.filterConditions) :
    let r' : Read := { r with plan }
    AlikeOutcomes (Expressions.Alike (SameOperand r.operands r'.operands)) r.compile
      r'.compile := by
  intro r'
  let c₁ := (Compiler.empty.conditions r.plan.keyConditions).2
  let c₂ := (c₁.conditions r.plan.filterConditions).2
  let c₃ := (c₂.projection r.projection).2
  have hcount₁ : c₁.operandCount = (r.plan.keyConditions.flatMap Condition.values).length :=
    Compiler.operandCount_conditions _
  have hcount₃ : c₃.operandCount = r.operands.length := by
    rw [(c₂.projection_grows r.projection).operandCount,
      (c₁.conditions_grows r.plan.filterConditions).operandCount, hcount₁, operands,
      List.length_append, Nat.add_zero]
  obtain ⟨hafterKey, hkeys⟩ := Compiler.conditions_alike (S := SameOperand r.operands r'.operands)
    hkey Compiler.empty fun n v v' hv hv' => by
      rw [show Compiler.empty.operandCount + n = n from Nat.zero_add n]
      exact .append_right _ _ hv hv'
  obtain ⟨hafterFilter, hfilters⟩ := Compiler.conditions_alike
    (S := SameOperand r.operands r'.operands) hfilter c₁ fun n v v' hv hv' => by
      rw [hcount₁]
      exact .append_left (Compiler.length_operands_alike hkey) hv hv'
  have hmerged := c₃.merge_alike r.fragments hfilters fun d htaken f hf e he =>
    SameOperand.of_takenIn htaken (Nat.le_of_eq hcount₃.symm) r'.operands hf he
  have hcompile : r'.compile = ((c₂.projection r.projection).2.merge
      (c₁.conditions plan.filterConditions).1 r.fragments).1.map fun merged =>
        { key := (Compiler.empty.conditions plan.keyConditions).1, filter := merged
          projection := (c₂.projection r.projection).1 } := by
    rw [r'.compile_eq]
    simp only [r', c₁, c₂, hafterKey] at hafterFilter ⊢
    rw [hafterFilter]
  rw [r.compile_eq, hcompile]
  exact hmerged.map fun _ _ halike =>
    ⟨hkeys, halike, Compiler.projection_alike _ _, .none, .none⟩

/-- **Every operand of a read has a placeholder.** -/
theorem mem_values {r : Read} {e : Expressions} (h : r.compile = .ok e) {n : Nat}
    (hn : n < r.operands.length) : ofValue n ∈ e.values.names := by
  let c₁ := (Compiler.empty.conditions r.plan.keyConditions).2
  have hcount₁ : c₁.operandCount = (r.plan.keyConditions.flatMap Condition.values).length :=
    Compiler.operandCount_conditions _
  rw [r.compile_eq] at h
  obtain ⟨merged, hmerge, rfl⟩ := map_eq_ok h
  rcases Nat.lt_or_ge n (r.plan.keyConditions.flatMap Condition.values).length with hkey | hfilter
  · obtain ⟨x, hx, hmem⟩ := Compiler.empty.mem_conditions _ hkey
    rw [show Compiler.empty.operandCount + n = n from Nat.zero_add n] at hmem
    exact Expressions.mem_values (by simp [Expressions.present, hx]) hmem
  · rw [operands, List.length_append] at hn
    obtain ⟨g, hg, hmem⟩ := c₁.mem_conditions r.plan.filterConditions (n := n - c₁.operandCount)
      (by omega)
    rw [Nat.add_sub_cancel' (by omega)] at hmem
    rw [hg] at hmerge
    obtain ⟨x, rfl, hnames⟩ := Compiler.mem_merge hmerge
    exact Expressions.mem_values (by simp [Expressions.present]) (hnames _ hmem)

end Read

/-! ### Updates -/

theorem Change.SameForm.path {x x' : Change} (h : x.SameForm x') : x.path = x'.path := by
  cases h <;> rfl

namespace Update

/-- The operands of an update in the order of their numbers. -/
def operands (xs : List Change) (cs : List Condition) : List Value :=
  xs.filterMap Change.operand? ++ cs.flatMap Condition.values

theorem expressions_eq (u : Update) (cs : List Condition) (fs : List Fragment) :
    let update := Compiler.empty.update u.changes
    let condition := update.2.conditions cs
    u.expressions cs fs = (condition.2.merge condition.1 fs).1.map fun merged =>
      { update := some update.1, condition := merged } := by
  simp only [expressions]
  split
  · next hmerge => rw [hmerge]; rfl
  · next hmerge => rw [hmerge]; rfl

/-- **Updates of the same form have alike expressions**, or the same error. -/
theorem expressions_alike (u u' : Update)
    (hchanges : List.Forall₂ Change.SameForm u.changes u'.changes) {cs cs' : List Condition}
    (hconditions : List.Forall₂ Condition.SameForm cs cs') (fs : List Fragment) :
    AlikeOutcomes
      (Expressions.Alike (SameOperand (operands u.changes cs) (operands u'.changes cs')))
      (u.expressions cs fs) (u'.expressions cs' fs) := by
  let c₁ := (Compiler.empty.update u.changes).2
  let c₂ := (c₁.conditions cs).2
  have hcount₁ : c₁.operandCount = (u.changes.filterMap Change.operand?).length :=
    Compiler.operandCount_update _
  have hcount₂ : c₂.operandCount = (operands u.changes cs).length := by
    rw [(c₁.conditions_grows cs).operandCount, hcount₁, operands, List.length_append]
  obtain ⟨hafter, hupdate⟩ := Compiler.update_alike
    (S := SameOperand (operands u.changes cs) (operands u'.changes cs')) hchanges Compiler.empty
    fun n v v' hv hv' => by
      rw [show Compiler.empty.operandCount + n = n from Nat.zero_add n]
      exact .append_right _ _ hv hv'
  obtain ⟨hafterConditions, hcondition⟩ := Compiler.conditions_alike
    (S := SameOperand (operands u.changes cs) (operands u'.changes cs')) hconditions c₁
    fun n v v' hv hv' => by
      rw [hcount₁]
      exact .append_left (Compiler.length_changeOperands_alike hchanges) hv hv'
  have hmerged := c₂.merge_alike fs hcondition fun d htaken f hf e he =>
    SameOperand.of_takenIn htaken (Nat.le_of_eq hcount₂.symm) (operands u'.changes cs') hf he
  have hexpressions : u'.expressions cs' fs = (c₂.merge (c₁.conditions cs').1 fs).1.map
      fun merged =>
        { update := some (Compiler.empty.update u'.changes).1, condition := merged } := by
    rw [u'.expressions_eq]
    simp only [c₁, c₂, hafter] at hafterConditions ⊢
    rw [hafterConditions]
  rw [u.expressions_eq, hexpressions]
  exact hmerged.map fun _ _ halike => ⟨.none, .none, .none, .some hupdate, halike⟩

/-- **Every operand of an update has a placeholder.** -/
theorem mem_values {u : Update} {cs : List Condition} {fs : List Fragment} {e : Expressions}
    (h : u.expressions cs fs = .ok e) {n : Nat} (hn : n < (operands u.changes cs).length) :
    ofValue n ∈ e.values.names := by
  let c₁ := (Compiler.empty.update u.changes).2
  have hcount₁ : c₁.operandCount = (u.changes.filterMap Change.operand?).length :=
    Compiler.operandCount_update _
  rw [u.expressions_eq] at h
  obtain ⟨merged, hmerge, rfl⟩ := map_eq_ok h
  rcases Nat.lt_or_ge n (u.changes.filterMap Change.operand?).length with hchange | hcondition
  · refine Expressions.mem_values (x := (Compiler.empty.update u.changes).1)
      (by simp [Expressions.present]) ?_
    rw [(Compiler.update_binds Compiler.empty u.changes).values]
    have hmem := Compiler.mem_numbered_names 0 hchange
    rwa [Nat.zero_add] at hmem
  · rw [operands, List.length_append] at hn
    obtain ⟨g, hg, hmem⟩ := c₁.mem_conditions cs (n := n - c₁.operandCount) (by omega)
    rw [Nat.add_sub_cancel' (by omega)] at hmem
    rw [hg] at hmerge
    obtain ⟨x, rfl, hnames⟩ := Compiler.mem_merge hmerge
    exact Expressions.mem_values (by simp [Expressions.present]) (hnames _ hmem)

end Update

/-! ### Operands by their places -/

/-- **The operand at a place** of some lists of operands: the number of a list, and the number of an
operand in it. -/
def operandAt (vss : List (List Value)) (p : Nat × Nat) : Option Value :=
  vss[p.1]?.bind fun vs => vs[p.2]?

/-- The places in some of the lists, if these have so many operands. -/
def places (counts ks : List Nat) : List (Nat × Nat) :=
  ks.flatMap fun k => (List.range (counts.getD k 0)).map fun j => (k, j)

/-- **The values of two requests that differ in operands only.**  The placeholders are the same.
All places are numbered, and the placeholder with the number of a place stands for the operand
there, in each request for its own.  Every other placeholder stands for one value. -/
structure HoldOperands (vss vss' : List (List Value)) (d d' : Dict Value) : Prop where
  names : d.names = d'.names
  operands : ∃ ps : List (Nat × Nat),
    ps.Perm (places (vss.map List.length) (List.range vss.length)) ∧
    (∀ n p, ps[n]? = some p →
      d.get? (ofValue n) = operandAt vss p ∧ d'.get? (ofValue n) = operandAt vss' p) ∧
    ∀ name, (∀ n < ps.length, name ≠ ofValue n) → d.get? name = d'.get? name

theorem pick_map {α β : Type} (f : α → β) (xs : List α) (ks : List Nat) :
    pick (xs.map f) ks = (pick xs ks).map f := by
  simp [pick, List.map_filterMap]

theorem pick_append {α : Type} (xs : List α) (ks ls : List Nat) :
    pick xs (ks ++ ls) = pick xs ks ++ pick xs ls := List.filterMap_append

/-- The operands at the places of some lists. -/
theorem map_operandAt_places (vss : List (List Value)) (ks : List Nat)
    (h : ∀ k ∈ ks, k < vss.length) :
    (places (vss.map List.length) ks).map (operandAt vss) = (pick vss ks).flatten.map some := by
  induction ks with
  | nil => rfl
  | cons k rest ih =>
      obtain ⟨hk, hrest⟩ := List.forall_mem_cons.1 h
      have hget : vss[k]? = some vss[k] := List.getElem?_eq_getElem hk
      have hcount : (vss.map List.length).getD k 0 = vss[k].length := by simp [hk]
      have hown : (List.range vss[k].length).map (fun j => operandAt vss (k, j)) =
          vss[k].map some := by
        refine List.ext_getElem? fun j => ?_
        simp only [operandAt, hget, Option.bind_some, List.getElem?_map]
        by_cases hj : j < vss[k].length
        · simp [hj]
        · simp [hj]
      unfold places pick at ih ⊢
      rw [List.flatMap_cons, hcount, List.map_append, List.map_map, List.filterMap_cons_some hget,
        List.flatten_cons, List.map_append, ih hrest]
      exact congrArg (· ++ _) hown

/-- **The operand with a number** is the one at the place with that number. -/
theorem getElem?_of_places {ps : List (Nat × Nat)} {vss : List (List Value)} {vs : List Value}
    (h : ps.map (operandAt vss) = vs.map some) {n : Nat} {p : Nat × Nat} (hp : ps[n]? = some p) :
    vs[n]? = operandAt vss p := by
  have hboth := congrArg (fun ws => ws[n]?) h
  simp only [List.getElem?_map, hp, Option.map_some] at hboth
  cases hv : vs[n]? with
  | none => rw [hv] at hboth; cases hboth
  | some v => rw [hv] at hboth; exact (Option.some.inj hboth).symm

/-- Operands that stand at the same places, in the order of their numbers. -/
theorem HoldOperands.of_alike {vss vss' : List (List Value)} {ks : List Nat} {d d' : Dict Value}
    (hcounts : vss.map List.length = vss'.map List.length)
    (hks : ks.Perm (List.range vss.length))
    (h : d.Alike (SameOperand (pick vss ks).flatten (pick vss' ks).flatten) d')
    (hmem : ∀ n < (pick vss ks).flatten.length, ofValue n ∈ d.names) :
    HoldOperands vss vss' d d' := by
  have hlength : vss.length = vss'.length := by simpa using congrArg List.length hcounts
  have hplaces := map_operandAt_places vss ks
    fun k hk => List.mem_range.1 (hks.mem_iff.1 hk)
  have hplaces' := map_operandAt_places vss' ks
    fun k hk => hlength ▸ List.mem_range.1 (hks.mem_iff.1 hk)
  rw [← hcounts] at hplaces'
  have hcount : (places (vss.map List.length) ks).length = (pick vss ks).flatten.length := by
    have hlengths := congrArg List.length hplaces
    rwa [List.length_map, List.length_map] at hlengths
  refine ⟨h.names_eq, places (vss.map List.length) ks, hks.flatMap_right _, fun n p hp => ?_,
    fun name hname => ?_⟩
  · have hn : n < (pick vss ks).flatten.length := by
      rw [← hcount]
      exact (List.getElem?_eq_some_iff.1 hp).1
    obtain ⟨hown, hown'⟩ := h.operand hn (hmem n hn)
    exact ⟨hown.trans (getElem?_of_places hplaces hp),
      hown'.trans (getElem?_of_places hplaces' hp)⟩
  · exact h.other fun n hn => hname n (hcount ▸ hn)

/-! ### Plans and their operands -/

section

variable {cs cs' : List Condition} (h : List.Forall₂ Condition.SameForm cs cs')
include h

theorem pick_alike (ks : List Nat) :
    List.Forall₂ Condition.SameForm (pick cs ks) (pick cs' ks) := by
  have hget : ∀ k : Nat, Option.Rel Condition.SameForm cs[k]? cs'[k]? := by
    induction h with
    | nil => exact fun _ => .none
    | cons hc _ ih =>
        intro k
        cases k with
        | zero => exact .some hc
        | succ k => exact ih k
  exact List.rel_filterMap (R := Eq) (fun k k' hk => hk ▸ hget k)
    (List.forall₂_same.2 fun _ _ => rfl)

theorem map_kind_alike :
    cs.map (fun c => (c.field, c.operator)) = cs'.map fun c => (c.field, c.operator) := by
  induction h with
  | nil => rfl
  | cons hc _ ih => rw [List.map_cons, List.map_cons, hc.field, hc.operator, ih]

theorem map_count_alike :
    (cs.map Condition.values).map List.length = (cs'.map Condition.values).map List.length := by
  induction h with
  | nil => rfl
  | cons hc _ ih => simp only [List.map_cons, hc.count, ih]

/-- **Reads of the same form have one fingerprint.** -/
theorem Read.fingerprint_alike (r : Read) (o : Outline) :
    ({ r with plan := o.plan cs } : Read).fingerprint =
      ({ r with plan := o.plan cs' } : Read).fingerprint := by
  rw [fingerprint, fingerprint, shape_eq, shape_eq]
  simp only [frame, Outline.plan, map_kind_alike (pick_alike h _)]

end

/-- The operands of a planned read stand at the places of its conditions. -/
theorem Read.operands_plan (r : Read) (o : Outline) (cs : List Condition) :
    ({ r with plan := o.plan cs } : Read).operands =
      (pick (cs.map Condition.values) (o.keys ++ o.filters)).flatten := by
  simp only [operands, Outline.plan, pick_append, pick_map, List.flatten_append, List.flatMap_def]

/-- The lists of operands of an update: those of the changes before those of the conditions. -/
def Update.operandLists (xs : List Change) (cs : List Condition) : List (List Value) :=
  xs.map (fun x => x.operand?.toList) ++ cs.map Condition.values

theorem Update.operands_eq (xs : List Change) (cs : List Condition) :
    operands xs cs =
      (pick (operandLists xs cs) (List.range (operandLists xs cs).length)).flatten := by
  rw [pick_range, operandLists, List.flatten_append, operands, List.filterMap_eq_flatMap_toList,
    List.flatMap_def, List.flatMap_def]

theorem Update.map_count_alike {xs xs' : List Change} (hxs : List.Forall₂ Change.SameForm xs xs')
    {cs cs' : List Condition} (hcs : List.Forall₂ Condition.SameForm cs cs') :
    (operandLists xs cs).map List.length = (operandLists xs' cs').map List.length := by
  have hchanges : (xs.map fun x => x.operand?.toList).map List.length =
      (xs'.map fun x => x.operand?.toList).map List.length := by
    induction hxs with
    | nil => rfl
    | cons hx _ ih =>
        simp only [List.map_cons, ih]
        cases hx <;> rfl
  rw [operandLists, operandLists, List.map_append, List.map_append, hchanges,
    Keyspace.map_count_alike hcs]

/-- Updates of the same form hold the operands of their changes and conditions. -/
theorem Update.operandLists_alike {xs xs' : List Change}
    (hxs : List.Forall₂ Change.SameForm xs xs') {cs cs' : List Condition}
    (hcs : List.Forall₂ Condition.SameForm cs cs') {d d' : Dict Value}
    (h : d.Alike (SameOperand (operands xs cs) (operands xs' cs')) d')
    (hmem : ∀ n < (operands xs cs).length, ofValue n ∈ d.names) :
    HoldOperands (operandLists xs cs) (operandLists xs' cs') d d' := by
  have hcounts := map_count_alike hxs hcs
  have hlength : (operandLists xs cs).length = (operandLists xs' cs').length := by
    simpa using congrArg List.length hcounts
  rw [operands_eq, operands_eq, ← hlength] at h
  rw [operands_eq] at hmem
  exact .of_alike hcounts (.refl _) h hmem

/-! ### Requests -/

/-- **Expressions with the same texts and names.** -/
structure Expressions.SameText (e e' : Expressions) : Prop where
  key : e.key.map Expression.text = e'.key.map Expression.text
  filter : e.filter.map Expression.text = e'.filter.map Expression.text
  projection : e.projection.map Expression.text = e'.projection.map Expression.text
  update : e.update.map Expression.text = e'.update.map Expression.text
  condition : e.condition.map Expression.text = e'.condition.map Expression.text
  names : e.names = e'.names

theorem Expressions.Alike.sameText {S : String → Value → Value → Prop} {e e' : Expressions}
    (h : e.Alike S e') : e.SameText e' :=
  ⟨map_text_alike h.key, map_text_alike h.filter, map_text_alike h.projection,
    map_text_alike h.update, map_text_alike h.condition, h.names_eq⟩

/-- Planned reads of the same form are compiled to the same texts, or have the same error. -/
theorem Read.compile_sameText {cs cs' : List Condition}
    (h : List.Forall₂ Condition.SameForm cs cs') (r : Read) (o : Outline)
    (ho : (o.keys ++ o.filters).Perm (List.range cs.length)) :
    let s : Read := { r with plan := o.plan cs }
    let s' : Read := { r with plan := o.plan cs' }
    AlikeOutcomes (fun e e' => e.SameText e' ∧
      HoldOperands (cs.map Condition.values) (cs'.map Condition.values) e.values e'.values)
      s.compile s'.compile := by
  intro s s'
  refine (s.compile_alike (o.plan cs') (pick_alike h _) (pick_alike h _)).imp fun e e' he halike =>
    ⟨halike.sameText, ?_⟩
  have hvalues := halike.values_alike
  rw [r.operands_plan o cs, r.operands_plan o cs'] at hvalues
  refine .of_alike (map_count_alike h) (by rwa [List.length_map]) hvalues fun n hn => ?_
  rw [← r.operands_plan] at hn
  exact Read.mem_values he hn

namespace Update

theorem invalidChange?_alike {xs xs' : List Change} (h : List.Forall₂ Change.SameForm xs xs')
    (keys earlier : List String) :
    invalidChange? keys earlier xs = invalidChange? keys earlier xs' := by
  induction h generalizing earlier with
  | nil => rfl
  | cons hx _ ih => rw [invalidChange?, invalidChange?, hx.path, ih]

/-- The key of the item that is updated, if nothing is wrong with the update but perhaps its
expressions. -/
def target (u : Update) : Except Error Item := do
  let _ ← u.conditions.parts
  if u.changes.isEmpty then .error (.invalid .noActions)
  else
    let partition ← u.partitionValue
    let key ← Key.toItem { partition, sort := u.sort } u.schema
    match invalidChange? u.schema.keyAttributes [] u.changes with
    | some cause => .error (.invalid cause)
    | none => .ok key

/-- The request for an item with some expressions. -/
def requestFor (u : Update) (key : Item) (e : Expressions) : UpdateRequest :=
  { table := u.schema.table, key, update := (e.update.map Expression.text).getD ""
    condition := e.condition.map Expression.text, names := e.names, values := e.values
    returnsItem := true }

theorem compile_eq (u : Update) : u.compile = u.target.bind fun key =>
    (u.expressions u.conditions.conditions u.conditions.fragments).map (u.requestFor key) := by
  unfold compile target
  cases hparts : u.conditions.parts with
  | error cause => rfl
  | ok parts =>
      obtain rfl := ConditionSet.parts_eq_ok hparts
      simp only [bind, Except.bind]
      split
      · rfl
      · cases u.partitionValue with
        | error cause => rfl
        | ok partition =>
            simp only
            cases Key.toItem { partition, sort := u.sort } u.schema with
            | error cause => rfl
            | ok key =>
                simp only
                cases invalidChange? u.schema.keyAttributes [] u.changes with
                | some cause => rfl
                | none =>
                    simp only
                    cases u.expressions u.conditions.conditions u.conditions.fragments <;> rfl

theorem target_alike {xs xs' : List Change} (hxs : List.Forall₂ Change.SameForm xs xs')
    (cs cs' : List Condition) (u : Update) :
    ({ u with changes := xs, conditions.conditions := cs } : Update).target =
      ({ u with changes := xs', conditions.conditions := cs' } : Update).target := by
  have hempty : xs.isEmpty = xs'.isEmpty := by cases hxs <;> rfl
  unfold target
  simp only [hempty, invalidChange?_alike hxs, ConditionSet.parts, partitionValue]
  cases u.conditions.error <;> rfl

/-- **Updates of the same form are compiled to requests that differ in values only**, or have the
same error. -/
theorem compile_sameText {xs xs' : List Change} (hxs : List.Forall₂ Change.SameForm xs xs')
    {cs cs' : List Condition} (hcs : List.Forall₂ Condition.SameForm cs cs') (u : Update) :
    let s : Update := { u with changes := xs, conditions.conditions := cs }
    let s' : Update := { u with changes := xs', conditions.conditions := cs' }
    AlikeOutcomes (fun t t' => t' = { t with values := t'.values } ∧
      HoldOperands (operandLists xs cs) (operandLists xs' cs') t.values t'.values)
      s.compile s'.compile := by
  intro s s'
  rw [s.compile_eq, s'.compile_eq, show s.target = s'.target from target_alike hxs cs cs' u]
  cases s'.target with
  | error cause => exact .error cause
  | ok key =>
      have hexpressions := (expressions_alike s s' hxs hcs u.conditions.fragments).imp
        fun e e' he halike => And.intro halike.sameText
          (operandLists_alike hxs hcs halike.values_alike fun n hn => mem_values he hn)
      refine hexpressions.map fun e e' h => ⟨?_, h.2⟩
      simp only [requestFor, h.1.update, h.1.condition, h.1.names]
      rfl

end Update

/-- **Operands never influence structure or text.**

Conditions of the same form are planned alike: there is one outline for both, which hands the same
positions to the key and to the filter and leaves no condition out.  Whatever else a read has, its
fingerprint is the same with both plans, and so are the texts and names of its expressions; the
placeholder of an operand stands in each read for its own operand at that place.  The requests of
updates with changes and conditions of the same form differ in that way only, too. -/
theorem operands_never_shape_requests {cs cs' : List Condition}
    (hcs : List.Forall₂ Condition.SameForm cs cs') {xs xs' : List Change}
    (hxs : List.Forall₂ Change.SameForm xs xs') (q : Query) (u : Update) :
    -- the plans, and the reads that have them
    AlikeOutcomes (fun plan plan' => SameOutline cs cs' plan plan' ∧
      ∀ r : Read,
        let s : Read := { r with plan := plan }
        let s' : Read := { r with plan := plan' }
        s.fingerprint = s'.fingerprint ∧
          AlikeOutcomes (fun e e' => e.SameText e' ∧
            HoldOperands (cs.map Condition.values) (cs'.map Condition.values) e.values e'.values)
            s.compile s'.compile)
      (q.planOf cs) (q.planOf cs') ∧
    -- the requests of updates
    AlikeOutcomes (fun t t' => t' = { t with values := t'.values } ∧
      HoldOperands (Update.operandLists xs cs) (Update.operandLists xs' cs') t.values t'.values)
      ({ u with changes := xs, conditions.conditions := cs } : Update).compile
      ({ u with changes := xs', conditions.conditions := cs' } : Update).compile := by
  refine ⟨(q.planOf_alike hcs).imp fun plan plan' _ houtline => ⟨houtline, fun r => ?_⟩,
    Update.compile_sameText hxs hcs u⟩
  obtain ⟨o, rfl, rfl, hplaces⟩ := houtline
  exact ⟨Read.fingerprint_alike hcs r o, Read.compile_sameText hcs r o hplaces⟩

/-! ### A library -/

namespace Library

/-- Somebody's long books. -/
def longBooksOf (owner : Value) (pages : String) : List Condition :=
  [⟨"pages", .gt, [.number pages]⟩, ⟨"owner", .eq, [owner]⟩]

/-- Another title, and nobody who has the book. -/
def retitling (title : Value) : List Change := [.apply .set "title" title, .remove "lender"]

/-- An update of what one person owns. -/
def renamed (title owner : Value) (pages : String) : Update :=
  { schema := { table := "library", partitionKey := "owner" }, partition := some (.text "ann")
    changes := retitling title, conditions.conditions := longBooksOf owner pages }

/-- A text that looks like a part of an expression. -/
def odd : Value := .text "a OR :v0 = #n0"

theorem longBooksOf_alike (owner owner' : Value) (pages pages' : String) :
    List.Forall₂ Condition.SameForm (longBooksOf owner pages) (longBooksOf owner' pages') :=
  .cons ⟨rfl, rfl, rfl⟩ (.cons ⟨rfl, rfl, rfl⟩ .nil)

theorem retitling_alike (title title' : Value) :
    List.Forall₂ Change.SameForm (retitling title) (retitling title') :=
  .cons (.apply _ _ _ _) (.cons (.remove _) .nil)

end Library

/-- Two updates that are sent: what looks like a part of an expression is an operand. -/
theorem library_titles_do_not_shape_requests :
    List.Forall₂ Condition.SameForm (Library.longBooksOf (.text "ann") "300")
        (Library.longBooksOf Library.odd "2") ∧
      List.Forall₂ Change.SameForm (Library.retitling (.text "Middlemarch"))
        (Library.retitling Library.odd) ∧
      ∃ t t', (Library.renamed (.text "Middlemarch") (.text "ann") "300").compile = .ok t ∧
        (Library.renamed Library.odd Library.odd "2").compile = .ok t' ∧
        t' = { t with values := t'.values } ∧
        t.condition = some "#n2 > :v1 AND #n3 = :v2" := by
  have hconditions := Library.longBooksOf_alike (.text "ann") Library.odd "300" "2"
  have hchanges := Library.retitling_alike (.text "Middlemarch") Library.odd
  let renamed := Library.renamed (.text "Middlemarch") (.text "ann") "300"
  obtain ⟨-, halike⟩ :=
    operands_never_shape_requests hconditions hchanges (.new renamed.schema {}) renamed
  have hcondition : renamed.compile.toOption.bind UpdateRequest.condition =
      some "#n2 > :v1 AND #n3 = :v2" := by decide +kernel
  cases hcompile : renamed.compile with
  | error cause => rw [hcompile] at hcondition; cases hcondition
  | ok t =>
      rw [hcompile] at hcondition
      obtain ⟨t', hcompile', hsame, -⟩ := halike.exists_of_ok hcompile
      exact ⟨hconditions, hchanges, t, t', rfl, hcompile', hsame, hcondition⟩

end Keyspace
