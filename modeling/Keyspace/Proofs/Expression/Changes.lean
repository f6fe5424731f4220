import Keyspace.Proofs.Expression.ReadBack
import Keyspace.Proofs.Grammar.Edits
/-!
# Update expressions are read back

An update expression is read by the grammar of updates, and its placeholders are looked up.  What
was written for some changes at document paths is read back as these changes: each in the section
it belongs to, in their order there, with its path, its operand and its form.

Main definitions:

* `Keyspace.ChangeForm.edit`, `Keyspace.Change.edit` — what a change does;
* `Keyspace.UpdateSection.gather`, `Keyspace.Change.sections`, `Keyspace.PlacedChange.sections` —
  **the sections that changes have**, and these as they stand in the text;
* `Keyspace.Grammar.lookedUp?` — sections with their placeholders looked up;
* `Keyspace.Compiler.Assigns` — the placeholder that an attribute has.

Main results:

* `Keyspace.PlacedChange.isPart` — a placed change reads as an edit of its section;
* `Keyspace.UpdateSection.perm_gather` — no change is lost in the sections;
* `Keyspace.Compiler.changes_assigns` — an attribute has one placeholder in all changes;
* `Keyspace.Compiler.update_preserves_changes` — **update expressions are read back**.
-/

set_option autoImplicit false

namespace Keyspace

open Grammar

/-! ### What changes do -/

/-- What a form does at a path with an operand. -/
def ChangeForm.edit {π ν : Type} (form : ChangeForm) (p : π) (v : ν) : Edit π ν :=
  match form with
  | .set => .set p (.value v)
  | .setIfAbsent => .set p (.ifAbsent p (.value v))
  | .increment => .setSum p (.path p) (.value v)
  | .decrement => .setDifference p (.path p) (.value v)
  | .append => .set p (.append (.path p) (.value v))
  | .prepend => .set p (.append (.value v) (.path p))
  | .add => .add p v
  | .delete => .delete p v

namespace Change

/-- **What a change does.** -/
def edit : Change → Edit String Value
  | .apply form path operand => form.edit path operand
  | .remove path => .remove path

/-- The section that a change belongs to. -/
def home : Change → UpdateSection
  | .apply form _ _ => form.home
  | .remove _ => .remove

end Change

/-- A placed change as it stands in the text. -/
def PlacedChange.edit : PlacedChange → EditRead
  | .apply form path operand => form.edit path.steps operand.1
  | .remove path => .remove path.steps

/-- The sections of things that have a home each, with the things of each section in their
order. -/
def UpdateSection.gather {α : Type} (home : α → UpdateSection) (xs : List α) :
    List (UpdateSection × List α) :=
  (UpdateSection.all.map fun s => (s, xs.filter fun x => home x = s)).filter fun s => !s.2.isEmpty

/-- **The sections that changes have.** -/
def Change.sections (xs : List Change) : List (UpdateSection × List (Edit String Value)) :=
  (UpdateSection.gather Change.home xs).map fun s => (s.1, s.2.map Change.edit)

/-- The sections of placed changes, as they stand in the text. -/
def PlacedChange.sections (ys : List PlacedChange) : List (UpdateSection × List EditRead) :=
  (UpdateSection.gather PlacedChange.home ys).map fun s => (s.1, s.2.map PlacedChange.edit)

/-- **Sections with their placeholders looked up.** -/
def Grammar.lookedUp? (names : Dict String) (values : Dict Value)
    (sections : List (UpdateSection × List EditRead)) :
    Option (List (UpdateSection × List (Edit String Value))) :=
  sections.mapM fun s =>
    (s.2.mapM (Edit.resolve? (fun p => (Operand.path p).path? names) values.get?)).map (s.1, ·)

/-! ### Sections -/

namespace UpdateSection

variable {α β : Type} {home : α → UpdateSection} {xs : List α}

theorem mem_gather {s : UpdateSection × List α} :
    s ∈ gather home xs ↔ s.2 = xs.filter (fun x => home x = s.1) ∧ s.2 ≠ [] := by
  obtain ⟨k, own⟩ := s
  simp only [gather, List.mem_filter, List.mem_map, Prod.mk.injEq, Bool.not_eq_true',
    List.isEmpty_eq_false_iff]
  constructor
  · rintro ⟨⟨j, -, rfl, rfl⟩, hne⟩
    exact ⟨rfl, hne⟩
  · rintro ⟨hown, hne⟩
    exact ⟨⟨k, UpdateSection.mem_all k, rfl, hown.symm⟩, hne⟩

/-- **The sections stand in their order**, each at most once. -/
theorem sublist_gather : ((gather home xs).map Prod.fst).Sublist UpdateSection.all := by
  have hall : (UpdateSection.all.map fun s => (s, xs.filter fun x => home x = s)).map Prod.fst =
      UpdateSection.all := by
    rw [List.map_map]
    exact List.map_id' _
  rw [gather, ← hall]
  exact List.filter_sublist.map Prod.fst

/-- **Nothing is lost in the sections.** -/
theorem perm_gather (home : α → UpdateSection) (xs : List α) :
    ((gather home xs).flatMap Prod.snd).Perm xs := by
  -- sections with nothing in them add nothing
  have hempty : ∀ parts : List (UpdateSection × List α),
      (parts.filter fun s => !s.2.isEmpty).flatMap Prod.snd = parts.flatMap Prod.snd := by
    intro parts
    induction parts with
    | nil => rfl
    | cons part parts ih =>
        obtain ⟨k, own⟩ := part
        cases own with
        | nil => exact ih
        | cons x own => exact congrArg (fun rest => x :: (own ++ rest)) ih
  rw [gather, hempty, List.flatMap_map]
  induction xs with
  | nil => exact .nil
  | cons x xs ih =>
      simp only [UpdateSection.all, List.flatMap_cons, List.flatMap_nil, List.append_nil] at ih ⊢
      cases hx : home x with
      | set => simpa [List.filter_cons, hx] using ih
      | remove => simpa [List.filter_cons, hx] using List.perm_middle.trans (ih.cons x)
      | add =>
          rw [← List.append_assoc] at ih ⊢
          simpa [List.filter_cons, hx] using List.perm_middle.trans (ih.cons x)
      | delete =>
          rw [← List.append_assoc, ← List.append_assoc] at ih ⊢
          simpa [List.filter_cons, hx] using List.perm_middle.trans (ih.cons x)

/-- Where something is, there is a section. -/
theorem gather_ne_nil (h : xs ≠ []) : gather home xs ≠ [] := by
  intro hnil
  have hperm := perm_gather home xs
  rw [hnil] at hperm
  exact h hperm.nil_eq.symm

/-- Related things have related sections. -/
theorem gather_forall₂ {R : α → β → Prop} {home' : β → UpdateSection} {ys : List β}
    (h : List.Forall₂ R xs ys) (hhome : ∀ x y, R x y → home x = home' y) :
    List.Forall₂ (fun s t => s.1 = t.1 ∧ List.Forall₂ R s.2 t.2)
      (gather home xs) (gather home' ys) := by
  refine List.rel_filter (R := fun (s : UpdateSection × List α) (t : UpdateSection × List β) =>
    s.1 = t.1 ∧ List.Forall₂ R s.2 t.2) ?_ ?_
  · rintro ⟨k, own⟩ ⟨k', own'⟩ ⟨rfl, howns⟩
    cases howns with
    | nil => exact Iff.rfl
    | cons => exact Iff.rfl
  · rw [List.forall₂_map_left_iff, List.forall₂_map_right_iff, List.forall₂_same]
    refine fun k _ => ⟨rfl, List.rel_filter (fun x y hxy => ?_) h⟩
    show decide (home x = k) = true ↔ decide (home' y = k) = true
    rw [hhome x y hxy]

end UpdateSection

/-! ### Placed changes -/

theorem Grammar.Edit.Symbol.takesPlaceholders :
    TakesPlaceholders Edit.Symbol.ofLexeme? Edit.Symbol.operand :=
  fun _ cs h => Edit.Symbol.ofWord?_placeholder h cs

/-- **A placed change reads as an edit** of the section it belongs to. -/
theorem PlacedChange.isPart {c : Compiler} {x : Change} {y : PlacedChange}
    (h : PlacedChange.Renders c x y) (hx : isDocumentPath x.path = true) :
    Edit.IsPart y.home y.text y.edit := by
  have hpath := Edit.Symbol.takesPlaceholders.path (h.path.regular hx) h.path.ne_nil
  have hblank : Edit.Spells " " [] := by decide
  have hequals : Edit.Spells " = " [.equals] := by decide
  have hcomma : Edit.Spells ", " [.comma] := by decide
  have hclosing : Edit.Spells ")" [.closing] := by decide
  have happend : Edit.Spells " = list_append(" [.equals, .append, .opening] := by decide
  cases h with
  | remove => exact ⟨_, hpath, fun edits => ⟨_, rfl, rfl⟩⟩
  | @apply form path p operand n =>
      have hvalue := Edit.Symbol.takesPlaceholders.value n
      -- one case for each form: which of the grammar's edits its text is
      cases form with
      | set => exact ⟨_, hequals.around hpath hvalue (by decide), fun edits => ⟨_, rfl, rfl⟩⟩
      | setIfAbsent =>
          have habsent : Edit.Spells " = if_not_exists(" [.equals, .ifAbsent, .opening] := by decide
          have hcall := habsent.around hpath hpath (by decide)
          exact ⟨_, hclosing.behind (hcomma.around hcall hvalue (by decide)) (by decide),
            fun edits => ⟨_, rfl, rfl⟩⟩
      | increment =>
          have hplus : Edit.Spells " + " [.plus] := by decide
          have hsame := hequals.around hpath hpath (by decide)
          exact ⟨_, hplus.around hsame hvalue (by decide), fun edits => ⟨_, rfl, rfl⟩⟩
      | decrement =>
          have hminus : Edit.Spells " - " [.minus] := by decide
          have hsame := hequals.around hpath hpath (by decide)
          exact ⟨_, hminus.around hsame hvalue (by decide), fun edits => ⟨_, rfl, rfl⟩⟩
      | append =>
          have hcall := happend.around hpath hpath (by decide)
          exact ⟨_, hclosing.behind (hcomma.around hcall hvalue (by decide)) (by decide),
            fun edits => ⟨_, rfl, rfl⟩⟩
      | prepend =>
          have hcall := happend.around hpath hvalue (by decide)
          exact ⟨_, hclosing.behind (hcomma.around hcall hpath (by decide)) (by decide),
            fun edits => ⟨_, rfl, rfl⟩⟩
      | add => exact ⟨_, hblank.around hpath hvalue (by decide), fun edits => ⟨_, rfl, rfl⟩⟩
      | delete => exact ⟨_, hblank.around hpath hvalue (by decide), fun edits => ⟨_, rfl, rfl⟩⟩

theorem PlacedChange.Renders.home {c : Compiler} {x : Change} {y : PlacedChange}
    (h : PlacedChange.Renders c x y) : y.home = x.home := by
  cases h with
  | apply => rfl
  | remove => rfl

/-- A form does the same with other paths and operands. -/
theorem ChangeForm.resolve?_edit {π ν π' ν' : Type} (form : ChangeForm) {path : π → Option π'}
    {value : ν → Option ν'} {p : π} {p' : π'} {v : ν} {v' : ν'} (hp : path p = some p')
    (hv : value v = some v') : (form.edit p v).resolve? path value = some (form.edit p' v') := by
  cases form <;> simp [ChangeForm.edit, Edit.resolve?, Term.resolve?, hp, hv]

/-- **The edit of a placed change is looked up** path by path and value by value. -/
theorem PlacedChange.Renders.resolve? {c : Compiler} {x : Change} {y : PlacedChange}
    (h : PlacedChange.Renders c x y) {names : Dict String} {values : Dict Value}
    (hnames : ∀ s ∈ y.path, names.get? s.placeholder = some s.name)
    (hvalues : ∀ o, y.operand? = some o → values.get? o.1 = some o.2) :
    y.edit.resolve? (fun p => (Operand.path p).path? names) values.get? = some x.edit := by
  have hpath := h.path.path? hnames
  cases h with
  | @remove path p =>
      replace hpath : (Operand.path p.steps).path? names = some path := hpath
      simp [PlacedChange.edit, Change.edit, Edit.resolve?, hpath]
  | apply n => exact ChangeForm.resolve?_edit _ hpath (hvalues _ rfl)

/-- The values of an edit are that of its operand. -/
theorem PlacedChange.values_edit (y : PlacedChange) :
    y.edit.values = y.operand?.toList.map Prod.fst := by
  cases y with
  | remove path => rfl
  | apply form path operand => cases form <;> rfl

/-- The sections of placed changes stand in their order, each at most once. -/
theorem PlacedChange.sublist_sections (ys : List PlacedChange) :
    ((PlacedChange.sections ys).map Prod.fst).Sublist UpdateSection.all := by
  rw [PlacedChange.sections, List.map_map]
  exact UpdateSection.sublist_gather

/-- No section of placed changes is empty. -/
theorem PlacedChange.ne_nil_of_mem_sections {ys : List PlacedChange} :
    ∀ s ∈ PlacedChange.sections ys, s.2 ≠ [] := by
  intro s hs
  obtain ⟨group, hgroup, rfl⟩ := List.mem_map.1 hs
  simpa using (UpdateSection.mem_gather.1 hgroup).2

/-- The text of the sections that some changes have. -/
theorem UpdateSection.filterMap_text? (ys : List PlacedChange) :
    UpdateSection.all.filterMap (fun s => s.text? ys) =
      (UpdateSection.gather PlacedChange.home ys).map fun s =>
        s.1.keyword ++ " " ++ ", ".intercalate (s.2.map PlacedChange.text) := by
  unfold gather
  generalize UpdateSection.all = ks
  induction ks with
  | nil => rfl
  | cons k ks ih =>
      rw [List.filterMap_cons, List.map_cons, List.filter_cons, ih, UpdateSection.text?]
      cases ys.filter fun y => y.home = k with
      | nil => rfl
      | cons y own => rfl

namespace Compiler

/-! ### One placeholder for an attribute -/

/-- The placeholder that an attribute has. -/
def Assigns (c : Compiler) (p attr : String) : Prop :=
  ∃ n, c.attributes.idxOf? attr = some n ∧ p = Placeholder.ofName n

theorem Assigns.unique {c : Compiler} {p q attr : String} (hp : c.Assigns p attr)
    (hq : c.Assigns q attr) : p = q := by
  obtain ⟨m, hm, rfl⟩ := hp
  obtain ⟨n, hn, rfl⟩ := hq
  rw [hm] at hn
  rw [Option.some.inj hn]

/-- An attribute keeps its placeholder. -/
theorem Assigns.mono {c d : Compiler} {p attr : String} (h : c.Assigns p attr)
    (hcd : c.attributes <+: d.attributes) : d.Assigns p attr := by
  obtain ⟨n, hn, rfl⟩ := h
  obtain ⟨more, hmore⟩ := hcd
  refine ⟨n, ?_, rfl⟩
  rw [← hmore, List.idxOf?, List.findIdx?_append, ← List.idxOf?, hn]
  rfl

theorem name_assigns (c : Compiler) (attr : String) :
    (c.name attr).2.Assigns (c.name attr).1 attr := by
  unfold name
  split
  · next n hn => exact ⟨n, hn, rfl⟩
  · next hnone =>
      refine ⟨c.attributes.length, ?_, rfl⟩
      rw [List.idxOf?, List.findIdx?_append, ← List.idxOf?, hnone]
      simp

theorem placeSteps_assigns (c : Compiler) (steps : List PathStep) :
    ∀ s ∈ (c.placeSteps steps).1, (c.placeSteps steps).2.Assigns s.placeholder s.name := by
  induction steps generalizing c with
  | nil => simp [placeSteps]
  | cons step rest ih =>
      have hgrows := ((c.name step.name).2.placeSteps_spec rest).1
      simp only [placeSteps]
      exact List.forall_mem_cons.2 ⟨(c.name_assigns step.name).mono hgrows.attributes, ih _⟩

theorem change_assigns (c : Compiler) (x : Change) :
    ∀ s ∈ (c.change x).1.path, (c.change x).2.Assigns s.placeholder s.name := by
  cases x with
  | remove path => exact c.placeSteps_assigns (pathSteps path)
  | apply form path operand => exact c.placeSteps_assigns (pathSteps path)

/-- **An attribute has one placeholder in all changes.** -/
theorem changes_assigns (c : Compiler) (xs : List Change) :
    ∀ y ∈ (c.changes xs).1, ∀ s ∈ y.path, (c.changes xs).2.Assigns s.placeholder s.name := by
  induction xs generalizing c with
  | nil => simp [changes]
  | cons x rest ih =>
      have hgrows := ((c.change x).2.changes_spec rest).1
      simp only [changes]
      exact List.forall_mem_cons.2
        ⟨fun s hs => (c.change_assigns x s hs).mono hgrows.attributes, ih _⟩

/-- So has it in the dictionary of the update expression. -/
theorem update_assigns (c : Compiler) (xs : List Change) {p attr : String}
    (h : (c.update xs).1.names.get? p = some attr) : (c.changes xs).2.Assigns p attr := by
  obtain ⟨y, hy, hmem⟩ := List.mem_flatMap.1 (Dict.mem_of_get?_ofList h)
  obtain ⟨s, hs, heq⟩ := List.mem_map.1 hmem
  obtain ⟨rfl, rfl⟩ := Prod.mk.inj heq
  exact c.changes_assigns xs y hy s hs

/-! ### Update expressions -/

/-- The names of an update expression show each step of each change. -/
theorem get?_update_names (c : Compiler) (xs : List Change) {y : PlacedChange}
    (hy : y ∈ (c.changes xs).1) :
    ∀ s ∈ y.path, (c.update xs).1.names.get? s.placeholder = some s.name := by
  intro s hs
  have hget := get?_names_of_placed (c.changes_names xs) y.path (List.mem_map_of_mem hy) s hs
  rwa [List.flatMap_map] at hget

/-- The values of an update expression show the operand of each change. -/
theorem get?_update_values (c : Compiler) (xs : List Change) {y : PlacedChange}
    (hy : y ∈ (c.changes xs).1) {o : String × Value} (ho : y.operand? = some o) :
    (c.update xs).1.values.get? o.1 = some o.2 := by
  have hmem := List.mem_filterMap.2 ⟨y, hy, ho⟩
  rw [(c.update_binds xs).values]
  rw [(c.changes_spec xs).2.2] at hmem
  exact get?_numbered hmem

section Update

variable {c : Compiler} {xs : List Change} {ys : List PlacedChange}

/-- The sections of placed changes read as their edits. -/
theorem isSection_of_renders (h : List.Forall₂ (PlacedChange.Renders c) xs ys)
    (hxs : ∀ x ∈ xs, isDocumentPath x.path = true) :
    List.Forall₂ Edit.IsSection (UpdateSection.all.filterMap fun s => s.text? ys)
      (PlacedChange.sections ys) := by
  rw [UpdateSection.filterMap_text?, PlacedChange.sections, List.forall₂_map_left_iff,
    List.forall₂_map_right_iff, List.forall₂_same]
  rintro ⟨k, own⟩ hs
  obtain ⟨hown, hne⟩ := UpdateSection.mem_gather.1 hs
  refine Edit.IsSection.of_edits ?_ (by simpa using hne)
  rw [List.forall₂_map_left_iff, List.forall₂_map_right_iff, List.forall₂_same]
  intro y hy
  obtain ⟨hmem, hhome⟩ := List.mem_filter.1 (hown ▸ hy)
  obtain ⟨x, hx, hxy⟩ := exists_left_of_forall₂ h hmem
  exact of_decide_eq_true hhome ▸ PlacedChange.isPart hxy (hxs x hx)

/-- The edits of placed changes are looked up as what the changes do. -/
theorem lookedUp?_of_renders (h : List.Forall₂ (PlacedChange.Renders c) xs ys)
    {names : Dict String} {values : Dict Value}
    (hnames : ∀ y ∈ ys, ∀ s ∈ y.path, names.get? s.placeholder = some s.name)
    (hvalues : ∀ y ∈ ys, ∀ o, y.operand? = some o → values.get? o.1 = some o.2) :
    lookedUp? names values (PlacedChange.sections ys) = some (Change.sections xs) := by
  have hall : List.Forall₂ (fun y x => y ∈ ys ∧ PlacedChange.Renders c x y) ys xs :=
    (List.forall₂_and_left _ _).2 ⟨fun y hy => hy, h.flip⟩
  have hgather := UpdateSection.gather_forall₂ hall fun y x hyx => hyx.2.home
  refine mapM_of_forall₂ ?_
  rw [PlacedChange.sections, Change.sections, List.forall₂_map_left_iff,
    List.forall₂_map_right_iff]
  refine hgather.imp ?_
  rintro ⟨k, own⟩ ⟨k', own'⟩ ⟨rfl, howns⟩
  have hedits : (own.map PlacedChange.edit).mapM
      (Edit.resolve? (fun p => (Operand.path p).path? names) values.get?) =
        some (own'.map Change.edit) := by
    refine mapM_of_forall₂ ?_
    rw [List.forall₂_map_left_iff, List.forall₂_map_right_iff]
    exact howns.imp fun y x hyx => hyx.2.resolve? (hnames y hyx.1) (hvalues y hyx.1)
  rw [hedits]
  rfl

/-- The values of all sections are the placeholders of the operands. -/
theorem perm_values_sections (ys : List PlacedChange) :
    (((PlacedChange.sections ys).flatMap Prod.snd).flatMap Edit.values).Perm
      ((ys.filterMap PlacedChange.operand?).map Prod.fst) := by
  have hvalues : ys.flatMap (fun y => y.edit.values) =
      (ys.filterMap PlacedChange.operand?).map Prod.fst := by
    simp only [PlacedChange.values_edit, List.filterMap_eq_flatMap_toList, List.map_flatMap]
  have hedits : (PlacedChange.sections ys).flatMap Prod.snd =
      ((UpdateSection.gather PlacedChange.home ys).flatMap Prod.snd).map PlacedChange.edit := by
    rw [PlacedChange.sections, List.flatMap_map, List.map_flatMap]
  rw [← hvalues, hedits, List.flatMap_map]
  exact (UpdateSection.perm_gather _ _).flatMap_right _

end Update

/-- **Update expressions are read back**: no change is lost, and none becomes another one. -/
theorem update_preserves_changes (c : Compiler) {xs : List Change} (hne : xs ≠ [])
    (hxs : ∀ x ∈ xs, isDocumentPath x.path = true) :
    let e := (c.update xs).1
    ∃ sections, sections? e.text = some sections ∧
      -- the sections stand in their order, each at most once and none empty
      (sections.map Prod.fst).Sublist UpdateSection.all ∧ (∀ s ∈ sections, s.2 ≠ []) ∧
      -- each holds the changes that belong to it, in their order
      (∀ names values, e.names.Within names → e.values.Within values →
        lookedUp? names values sections = some (Change.sections xs)) ∧
      -- an operand has a placeholder of its own, and an attribute has one
      ((sections.flatMap Prod.snd).flatMap Edit.values).Nodup ∧
      ∀ p q attr, e.names.get? p = some attr → e.names.get? q = some attr → p = q := by
  intro e
  obtain ⟨-, hrenders, hoperands⟩ := c.changes_spec xs
  have htexts : UpdateSection.all.filterMap (fun s => s.text? (c.changes xs).1) ≠ [] := by
    rw [UpdateSection.filterMap_text?, Ne, List.map_eq_nil_iff]
    refine UpdateSection.gather_ne_nil fun hnil => hne ?_
    rw [hnil] at hrenders
    exact List.forall₂_nil_right_iff.1 hrenders
  have hkeys := PlacedChange.sublist_sections (c.changes xs).1
  refine ⟨_, sections?_intercalate (isSection_of_renders hrenders hxs) htexts
    (hkeys.nodup (by decide)), hkeys, PlacedChange.ne_nil_of_mem_sections, ?_, ?_, ?_⟩
  · intro names values hnames hvalues
    exact lookedUp?_of_renders hrenders
      (fun y hy s hs => hnames _ _ (c.get?_update_names xs hy s hs))
      fun y hy o ho => hvalues _ _ (c.get?_update_values xs hy ho)
  · rw [(perm_values_sections _).nodup_iff, hoperands]
    exact nodup_map_fst_numbered _ _
  · intro p q attr hp hq
    exact (c.update_assigns xs hp).unique (c.update_assigns xs hq)

end Compiler

/-! ### A library -/

namespace Library

/-- What is changed when a book comes back, in no order. -/
def returning : List Change :=
  [.apply .delete "borrowers" (.texts ["bob"]), .apply .increment "loans.count" (.number "1"),
    .remove "borrower", .apply .prepend "history[0].by" (.list [.text "bob"]),
    .apply .add "copies" (.number "1"), .apply .setIfAbsent "loans.first" (.text "bob")]

end Library

/-- The changes are read back, though the sections stand in another order. -/
theorem library_changes_are_preserved :
    let e := (Compiler.empty.update Library.returning).1
    e.text = "SET #n1.#n2 = #n1.#n2 + :v1, #n4[0].#n5 = list_append(:v2, #n4[0].#n5), " ++
      "#n1.#n7 = if_not_exists(#n1.#n7, :v4) REMOVE #n3 ADD #n6 :v3 DELETE #n0 :v0" ∧
    Change.sections Library.returning =
      [(.set, [.setSum "loans.count" (.path "loans.count") (.value (.number "1")),
          .set "history[0].by" (.append (.value (.list [.text "bob"])) (.path "history[0].by")),
          .set "loans.first" (.ifAbsent "loans.first" (.value (.text "bob")))]),
        (.remove, [.remove "borrower"]), (.add, [.add "copies" (.number "1")]),
        (.delete, [.delete "borrowers" (.texts ["bob"])])] ∧
    ∃ sections, sections? e.text = some sections ∧
      lookedUp? e.names e.values sections = some (Change.sections Library.returning) := by
  intro e
  obtain ⟨sections, hread, -, -, hlooked, -, -⟩ :=
    Compiler.update_preserves_changes Compiler.empty
      (List.cons_ne_nil _ _ : Library.returning ≠ []) (by decide +kernel)
  exact ⟨by decide +kernel, rfl, sections, hread,
    hlooked _ _ (fun _ _ h => h) (fun _ _ h => h)⟩

end Keyspace
