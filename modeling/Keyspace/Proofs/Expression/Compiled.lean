import Keyspace.Proofs.Expression.Closed
import Keyspace.Read.Basic
import Keyspace.Update.Basic
/-!
# The expressions of one request

One compiler writes all expressions of a request, and their dictionaries are united.  Nothing is
lost by that: what an expression or a fragment says about a placeholder, the united dictionaries
say too.

Main definitions:

* `Keyspace.Expressions.Keeps` — the united dictionaries show what the expressions and some
  fragments show;
* `Keyspace.Expressions.Sound` — that, and all expressions are closed;
* `Keyspace.Read.Compiled` — how the expressions of a read were written.

Main results:

* `Keyspace.Compiler.merge_spec` — **what fragments and a generated expression become**;
* `Keyspace.Read.compile_spec` — **what the expressions of a read are**;
* `Keyspace.Read.compile_sound`, `Keyspace.Update.expressions_sound` — **the expressions of reads
  and updates are sound**.
-/

set_option autoImplicit false

namespace Keyspace

/-- **Uniting dictionaries overwrites nothing.** -/
structure Expressions.Keeps (e : Expressions) (fs : List Fragment) : Prop where
  names : ∀ x ∈ e.present, x.names.Within e.names
  values : ∀ x ∈ e.present, x.values.Within e.values
  fragmentNames : ∀ f ∈ fs, (Dict.ofList f.names).Within e.names
  fragmentValues : ∀ f ∈ fs, (Dict.ofList f.values).Within e.values

/-- The expressions are closed, and their dictionaries agree. -/
structure Expressions.Sound (e : Expressions) (fs : List Fragment) : Prop where
  closed : ∀ x ∈ e.present, x.Closed
  keeps : e.Keeps fs

namespace Compiler

/-! ### What an expression shows -/

/-- The dictionaries of an expression show only what `c`, the operands `vs` and some fragments
say. -/
structure Shows (c : Compiler) (vs : List Value) (fs : List Fragment) (e : Expression) : Prop where
  namesSorted : e.names.Sorted
  valuesSorted : e.values.Sorted
  names : e.names.Under (c.NameMeaning fs)
  values : e.values.Under (ValueMeaning vs fs)

/-- A generated expression shows what was issued for it, among all that is issued later. -/
theorem Binds.shows {c d d' : Compiler} {ws : List Value} {e : Expression} (h : c.Binds d ws e)
    (hd : d.attributes <+: d'.attributes) (before after : List Value)
    (hbefore : before.length = c.operandCount) (fs : List Fragment) :
    d'.Shows (before ++ ws ++ after) fs e where
  namesSorted := h.namesSorted
  valuesSorted := by
    rw [h.values]
    exact Dict.sorted_ofList _
  names p a ha := Or.inl ((h.names p a ha).mono hd)
  values p v hv := by
    rw [h.values] at hv
    obtain ⟨n, rfl, hn⟩ := mem_numbered.1 (Dict.mem_of_get?_ofList hv)
    refine Or.inl ⟨c.operandCount + n, rfl, ?_⟩
    obtain ⟨hlt, hget⟩ := List.getElem?_eq_some_iff.1 hn
    rw [← hbefore, List.append_assoc, List.getElem?_append_right (by omega),
      Nat.add_sub_cancel_left, List.getElem?_append_left hlt, hn]

/-- Later operands and further fragments take nothing from what an expression shows. -/
theorem Shows.mono {c d : Compiler} {vs : List Value} {fs : List Fragment} {e : Expression}
    (h : c.Shows vs fs e) (hd : c.attributes <+: d.attributes) (ws : List Value)
    (gs : List Fragment) : d.Shows (vs ++ ws) (fs ++ gs) e where
  namesSorted := h.namesSorted
  valuesSorted := h.valuesSorted
  names p a ha := by
    rcases h.names p a ha with hname | ⟨f, hf, hname⟩
    · exact Or.inl (hname.mono hd)
    · exact Or.inr ⟨f, List.mem_append_left _ hf, hname⟩
  values p v hv := by
    rcases h.values p v hv with ⟨n, hp, hn⟩ | ⟨f, hf, hvalue⟩
    · refine Or.inl ⟨n, hp, ?_⟩
      rw [List.getElem?_append_left (List.getElem?_eq_some_iff.1 hn).1, hn]
    · exact Or.inr ⟨f, List.mem_append_left _ hf, hvalue⟩

/-- Joined with fragments, an expression shows what it and they say. -/
theorem shows_join {c : Compiler} {vs : List Value} {fs gs : List Fragment}
    {generated : Option Expression} (hfs : fs ⊆ gs)
    (h : ∀ g, generated = some g → c.Shows vs gs g) : c.Shows vs gs (join fs generated) where
  namesSorted := Dict.sorted_unite _ _
  valuesSorted := Dict.sorted_unite _ _
  names := Dict.under_unite <|
    under_joinParts_names hfs fun g hg => ⟨(h g hg).namesSorted, (h g hg).names⟩
  values := Dict.under_unite <|
    under_joinParts_values hfs fun g hg => ⟨(h g hg).valuesSorted, (h g hg).values⟩

/-! ### Fragments and a generated expression -/

/-- What is known about fragments that were merged with a generated expression. -/
structure Merged (c : Compiler) (vs : List Value) (fs : List Fragment)
    (generated merged : Option Expression) : Prop where
  takenIn : ∃ d, c.TakenIn d fs
  shows : ∀ x, merged = some x → c.Shows vs fs x
  closed : ∀ x, merged = some x → x.Closed
  fragmentNames : ∀ f ∈ fs, ∃ x, merged = some x ∧ (Dict.ofList f.names).Within x.names
  fragmentValues : ∀ f ∈ fs, ∃ x, merged = some x ∧ (Dict.ofList f.values).Within x.values
  generatedNames : ∀ g, generated = some g → ∃ x, merged = some x ∧ g.names.Within x.names
  generatedValues : ∀ g, generated = some g → ∃ x, merged = some x ∧ g.values.Within x.values

/-- **What fragments and a generated expression become.** -/
theorem merge_spec {c d : Compiler} {vs : List Value} {fs : List Fragment}
    {generated merged : Option Expression} (h : c.merge generated fs = (.ok merged, d))
    (hvs : vs.length ≤ c.operandCount) (hclosed : ∀ x, generated = some x → x.Closed)
    (hshows : ∀ x, generated = some x → c.Shows vs fs x) : c.Merged vs fs generated merged := by
  unfold merge at h
  split at h
  · next hempty =>
      -- without fragments the generated expression stands as it is
      obtain rfl : fs = [] := List.isEmpty_iff.1 hempty
      cases h
      exact ⟨⟨c, bringAll_spec rfl⟩, hshows, hclosed, by simp, by simp,
        fun g hg => ⟨g, hg, fun p a ha => ha⟩, fun g hg => ⟨g, hg, fun p v hv => hv⟩⟩
  · split at h
    · next e hbring =>
        cases h
        -- no placeholder has two meanings, so the parts lose nothing when they are joined
        have htaken := bringAll_spec hbring
        have hnames := under_joinParts_names (List.Subset.refl fs) fun x hx =>
          And.intro (hshows x hx).namesSorted (hshows x hx).names
        have hvalues := under_joinParts_values (List.Subset.refl fs) fun x hx =>
          And.intro (hshows x hx).valuesSorted (hshows x hx).values
        have hpart : ∀ f ∈ fs,
            (⟨f.expression, f.names, f.values⟩ : Expression) ∈ joinParts fs generated :=
          fun f hf => mem_joinParts.2 (Or.inl ⟨f, hf, rfl⟩)
        refine ⟨⟨d, htaken⟩, ?_, ?_, ?_, ?_, ?_, ?_⟩
        · rintro x ⟨rfl⟩
          exact shows_join (List.Subset.refl fs) hshows
        · rintro x ⟨rfl⟩
          refine join_closed fun y hy => ?_
          rcases mem_joinParts.1 hy with ⟨f, hf, rfl⟩ | hy
          · exact closed_of_validate (htaken.valid f hf) (htaken.used f hf)
          · exact hclosed y hy
        · intro f hf
          exact ⟨_, rfl, Dict.within_unite (NameMeaning.unique htaken) hnames (hpart f hf)⟩
        · intro f hf
          exact ⟨_, rfl, Dict.within_unite (ValueMeaning.unique htaken hvs) hvalues (hpart f hf)⟩
        · intro g hg
          refine ⟨_, rfl, fun p a ha => ?_⟩
          rw [← Dict.get?_ofList_of_sorted (hshows g hg).namesSorted] at ha
          exact Dict.within_unite (NameMeaning.unique htaken) hnames
            (mem_joinParts.2 (Or.inr hg)) p a ha
        · intro g hg
          refine ⟨_, rfl, fun p v hv => ?_⟩
          rw [← Dict.get?_ofList_of_sorted (hshows g hg).valuesSorted] at hv
          exact Dict.within_unite (ValueMeaning.unique htaken hvs) hvalues
            (mem_joinParts.2 (Or.inr hg)) p v hv
    · cases h

/-- Names that the compiler and the fragments say are not lost by uniting them. -/
theorem names_within_of_shows {c d : Compiler} {vs : List Value} {fs : List Fragment}
    {e : Expressions} (htaken : c.TakenIn d fs) (hshows : ∀ x ∈ e.present, c.Shows vs fs x) :
    ∀ x ∈ e.present, x.names.Within e.names := by
  intro x hx p a ha
  refine Dict.within_unite (NameMeaning.unique htaken) (fun y hy q b hb => ?_) hx p a ?_
  · rw [Dict.get?_ofList_of_sorted (hshows y hy).namesSorted] at hb
    exact (hshows y hy).names q b hb
  · rw [Dict.get?_ofList_of_sorted (hshows x hx).namesSorted, ha]

/-- Nor are the values. -/
theorem values_within_of_shows {c d : Compiler} {vs : List Value} {fs : List Fragment}
    {e : Expressions} (htaken : c.TakenIn d fs) (hvs : vs.length ≤ c.operandCount)
    (hshows : ∀ x ∈ e.present, c.Shows vs fs x) :
    ∀ x ∈ e.present, x.values.Within e.values := by
  intro x hx p v hv
  refine Dict.within_unite (ValueMeaning.unique htaken hvs) (fun y hy q w hw => ?_) hx p v ?_
  · rw [Dict.get?_ofList_of_sorted (hshows y hy).valuesSorted] at hw
    exact (hshows y hy).values q w hw
  · rw [Dict.get?_ofList_of_sorted (hshows x hx).valuesSorted, hv]

/-- Expressions are sound if one of them was merged with the fragments and the others are closed
and show only what the same compiler says. -/
theorem sound_of_merged {c : Compiler} {vs : List Value} {fs : List Fragment} {e : Expressions}
    {generated merged : Option Expression} (hvs : vs.length ≤ c.operandCount)
    (hmerged : c.Merged vs fs generated merged) (hpresent : ∀ x, merged = some x → x ∈ e.present)
    (hothers : ∀ x ∈ e.present, merged = some x ∨ x.Closed ∧ c.Shows vs fs x) : e.Sound fs := by
  obtain ⟨d, htaken⟩ := hmerged.takenIn
  have hshows : ∀ x ∈ e.present, c.Shows vs fs x := by
    intro x hx
    rcases hothers x hx with hx | ⟨_, hx⟩
    · exact hmerged.shows x hx
    · exact hx
  have hnames := names_within_of_shows htaken hshows
  have hvalues := values_within_of_shows htaken hvs hshows
  refine ⟨fun x hx => ?_, hnames, hvalues, ?_, ?_⟩
  · rcases hothers x hx with hx | ⟨hclosed, _⟩
    · exact hmerged.closed x hx
    · exact hclosed
  -- a fragment is within what it was merged to, and that is within the united dictionaries
  · intro f hf p a ha
    obtain ⟨x, hx, hwithin⟩ := hmerged.fragmentNames f hf
    exact hnames x (hpresent x hx) p a (hwithin p a ha)
  · intro f hf p v hv
    obtain ⟨x, hx, hwithin⟩ := hmerged.fragmentValues f hf
    exact hvalues x (hpresent x hx) p v (hwithin p v hv)

/-! ### Reads and updates -/

theorem conditions_spec {c d : Compiler} {xs : List Condition} {e : Option Expression}
    (h : c.conditions xs = (e, d)) (hxs : ∀ x ∈ xs, x.IsRegular) :
    c.Grows d (xs.flatMap Condition.values).length ∧
      ∀ x, e = some x → x.Closed ∧ c.Binds d (xs.flatMap Condition.values) x := by
  have hgrows := c.conditions_grows xs
  rw [h] at hgrows
  refine ⟨hgrows, ?_⟩
  rintro x rfl
  have hx : (c.conditions xs).1 = some x := by rw [h]
  have hbinds := conditions_binds hx
  rw [h] at hbinds
  exact ⟨conditions_closed hxs hx, hbinds⟩

theorem projection_spec {c d : Compiler} {paths : List String} {e : Option Expression}
    (h : c.projection paths = (e, d)) (hpaths : ∀ path ∈ paths, isDocumentPath path = true) :
    c.Grows d 0 ∧ ∀ x, e = some x → x.Closed ∧ c.Binds d [] x := by
  have hgrows := c.projection_grows paths
  rw [h] at hgrows
  refine ⟨hgrows, ?_⟩
  rintro x rfl
  have hx : (c.projection paths).1 = some x := by rw [h]
  have hbinds := projection_binds hx
  rw [h] at hbinds
  exact ⟨projection_closed hpaths hx, hbinds⟩

theorem update_spec {c d : Compiler} {xs : List Change} {e : Expression}
    (h : c.update xs = (e, d)) (hxs : ∀ x ∈ xs, isDocumentPath x.path = true) :
    c.Grows d (xs.filterMap Change.operand?).length ∧
      e.Closed ∧ c.Binds d (xs.filterMap Change.operand?) e := by
  have hgrows := c.update_grows xs
  have hbinds := c.update_binds xs
  have hclosed := update_closed (c := c) hxs
  rw [h] at hgrows hbinds hclosed
  exact ⟨hgrows, hclosed, hbinds⟩

end Compiler

/-- How the expressions of a read were written, with what was generated for its filter. -/
structure Read.Compiled (r : Read) (e : Expressions) (generated : Option Expression) : Prop where
  key : ∃ c : Compiler, (c.conditions r.plan.keyConditions).1 = e.key
  filter : ∃ c : Compiler, (c.conditions r.plan.filterConditions).1 = generated
  projection : ∃ c : Compiler, (c.projection r.projection).1 = e.projection
  merged : ∃ c d : Compiler, c.merge generated r.fragments = (.ok e.filter, d)
  sound : e.Sound r.fragments
  names : ∀ g, generated = some g → g.names.Within e.names
  values : ∀ g, generated = some g → g.values.Within e.values

/-- **What the expressions of a read are.** -/
theorem Read.compile_spec {r : Read} {e : Expressions} (h : r.compile = .ok e)
    (hkey : ∀ x ∈ r.plan.keyConditions, x.IsRegular)
    (hfilter : ∀ x ∈ r.plan.filterConditions, x.IsRegular)
    (hprojection : ∀ path ∈ r.projection, isDocumentPath path = true) :
    ∃ generated, r.Compiled e generated := by
  unfold Read.compile at h
  rcases h₁ : Compiler.empty.conditions r.plan.keyConditions with ⟨key, c₁⟩
  rcases h₂ : c₁.conditions r.plan.filterConditions with ⟨filter, c₂⟩
  rcases h₃ : c₂.projection r.projection with ⟨projection, c₃⟩
  rcases h₄ : c₃.merge filter r.fragments with ⟨outcome, c₄⟩
  simp only [h₁, h₂, h₃, h₄] at h
  obtain ⟨hgrows₁, hspec₁⟩ := Compiler.conditions_spec h₁ hkey
  obtain ⟨hgrows₂, hspec₂⟩ := Compiler.conditions_spec h₂ hfilter
  obtain ⟨hgrows₃, hspec₃⟩ := Compiler.projection_spec h₃ hprojection
  cases outcome with
  | error cause => cases h
  | ok merged =>
      cases h
      -- the operands of the request, in the order of their numbers
      let ks := r.plan.keyConditions.flatMap Condition.values
      let fs := r.plan.filterConditions.flatMap Condition.values
      have hcount₁ : c₁.operandCount = ks.length := by
        rw [hgrows₁.operandCount]
        exact Nat.zero_add _
      have hcount₂ : c₂.operandCount = (ks ++ fs).length := by
        rw [hgrows₂.operandCount, hcount₁, List.length_append]
      have hcount₃ : c₃.operandCount = (ks ++ fs).length := by
        rw [hgrows₃.operandCount, hcount₂, Nat.add_zero]
      have hattributes₂ : c₂.attributes <+: c₃.attributes := hgrows₃.attributes
      have hattributes₁ : c₁.attributes <+: c₃.attributes :=
        hgrows₂.attributes.trans hattributes₂
      have hshowsKey : ∀ x, key = some x → c₃.Shows (ks ++ fs) r.fragments x := fun x hx =>
        (hspec₁ x hx).2.shows hattributes₁ [] fs rfl r.fragments
      have hshowsFilter : ∀ x, filter = some x → c₃.Shows (ks ++ fs) r.fragments x := by
        intro x hx
        have hshows := (hspec₂ x hx).2.shows hattributes₂ ks [] hcount₁.symm r.fragments
        rwa [List.append_nil] at hshows
      have hshowsProjection : ∀ x, projection = some x →
          c₃.Shows (ks ++ fs) r.fragments x := by
        intro x hx
        have hshows := (hspec₃ x hx).2.shows (List.prefix_refl _) (ks ++ fs) []
          hcount₂.symm r.fragments
        rwa [List.append_nil, List.append_nil] at hshows
      have hmerged := Compiler.merge_spec h₄ (Nat.le_of_eq hcount₃.symm)
        (fun x hx => (hspec₂ x hx).1) hshowsFilter
      have hpresent : ∀ x, x ∈ ({ key, filter := merged, projection } : Expressions).present ↔
          key = some x ∨ merged = some x ∨ projection = some x := by
        intro x
        simp [Expressions.present, eq_comm]
      have hmergedPresent : ∀ x, merged = some x →
          x ∈ ({ key, filter := merged, projection } : Expressions).present :=
        fun x hx => (hpresent x).2 (Or.inr (Or.inl hx))
      have hsound : ({ key, filter := merged, projection } : Expressions).Sound r.fragments := by
        refine Compiler.sound_of_merged (Nat.le_of_eq hcount₃.symm) hmerged hmergedPresent
          fun x hx => ?_
        rcases (hpresent x).1 hx with hx | hx | hx
        · exact Or.inr ⟨(hspec₁ x hx).1, hshowsKey x hx⟩
        · exact Or.inl hx
        · exact Or.inr ⟨(hspec₃ x hx).1, hshowsProjection x hx⟩
      refine ⟨filter, ⟨_, congrArg Prod.fst h₁⟩, ⟨_, congrArg Prod.fst h₂⟩,
        ⟨_, congrArg Prod.fst h₃⟩, ⟨c₃, c₄, h₄⟩, hsound, fun g hg p a ha => ?_,
        fun g hg p v hv => ?_⟩
      · obtain ⟨x, hx, hwithin⟩ := hmerged.generatedNames g hg
        exact hsound.keeps.names x (hmergedPresent x hx) p a (hwithin p a ha)
      · obtain ⟨x, hx, hwithin⟩ := hmerged.generatedValues g hg
        exact hsound.keeps.values x (hmergedPresent x hx) p v (hwithin p v hv)

/-- **The expressions of a read are sound.** -/
theorem Read.compile_sound {r : Read} {e : Expressions} (h : r.compile = .ok e)
    (hkey : ∀ x ∈ r.plan.keyConditions, x.IsRegular)
    (hfilter : ∀ x ∈ r.plan.filterConditions, x.IsRegular)
    (hprojection : ∀ path ∈ r.projection, isDocumentPath path = true) : e.Sound r.fragments := by
  obtain ⟨_, hcompiled⟩ := Read.compile_spec h hkey hfilter hprojection
  exact hcompiled.sound

/-- **The expressions of an update are sound.** -/
theorem Update.expressions_sound {u : Update} {conditions : List Condition}
    {fragments : List Fragment} {e : Expressions}
    (h : u.expressions conditions fragments = .ok e)
    (hchanges : ∀ x ∈ u.changes, isDocumentPath x.path = true)
    (hconditions : ∀ x ∈ conditions, x.IsRegular) : e.Sound fragments := by
  unfold Update.expressions at h
  rcases h₁ : Compiler.empty.update u.changes with ⟨update, c₁⟩
  rcases h₂ : c₁.conditions conditions with ⟨condition, c₂⟩
  rcases h₃ : c₂.merge condition fragments with ⟨outcome, c₃⟩
  simp only [h₁, h₂, h₃] at h
  obtain ⟨hgrows₁, hclosed₁, hbinds₁⟩ := Compiler.update_spec h₁ hchanges
  obtain ⟨hgrows₂, hspec₂⟩ := Compiler.conditions_spec h₂ hconditions
  cases outcome with
  | error cause => cases h
  | ok merged =>
      cases h
      let us := u.changes.filterMap Change.operand?
      let vs := conditions.flatMap Condition.values
      have hcount₁ : c₁.operandCount = us.length := by
        rw [hgrows₁.operandCount]
        exact Nat.zero_add _
      have hcount₂ : c₂.operandCount = (us ++ vs).length := by
        rw [hgrows₂.operandCount, hcount₁, List.length_append]
      have hshowsUpdate : c₂.Shows (us ++ vs) fragments update :=
        hbinds₁.shows hgrows₂.attributes [] vs rfl fragments
      have hshowsCondition : ∀ x, condition = some x → c₂.Shows (us ++ vs) fragments x := by
        intro x hx
        have hshows := (hspec₂ x hx).2.shows (List.prefix_refl _) us [] hcount₁.symm fragments
        rwa [List.append_nil] at hshows
      have hmerged := Compiler.merge_spec h₃ (Nat.le_of_eq hcount₂.symm)
        (fun x hx => (hspec₂ x hx).1) hshowsCondition
      have hpresent : ∀ x,
          x ∈ ({ update := some update, condition := merged } : Expressions).present ↔
            x = update ∨ merged = some x := by
        intro x
        simp [Expressions.present, eq_comm]
      refine Compiler.sound_of_merged (Nat.le_of_eq hcount₂.symm) hmerged
        (fun x hx => (hpresent x).2 (Or.inr hx)) fun x hx => ?_
      rcases (hpresent x).1 hx with rfl | hx
      · exact Or.inr ⟨hclosed₁, hshowsUpdate⟩
      · exact Or.inl hx

end Keyspace
