import Keyspace.Proofs.Expression.ReadBack
/-!
# What the expressions of a read say

The expressions of a read are read by the grammar of conditions, and their placeholders are looked
up in the dictionaries of the request.  The key expression then states the key conditions, the
projection lists the paths to be read, and the filter joins what the fragments say, in their order,
with an expression behind them that states the filter conditions.

Main definitions:

* `Keyspace.Gives` — what is read from a text, if there is one;
* `Keyspace.Read.IsSaidBy` — **expressions say what a read asks for**.

Main results:

* `Keyspace.Compiler.map_text_merge` — the text that fragments and a generated expression become;
* `Keyspace.Read.is_said_by_its_expressions` — **compilation preserves meaning**.
-/

set_option autoImplicit false

namespace Keyspace

open Grammar

/-! ### What is asked for -/

/-- What is read from a text; nothing stands for a text that there is not. -/
def Gives {α : Type} (read : String → Option (List α)) : Option String → List α → Prop
  | none, xs => xs = []
  | some text, xs => xs ≠ [] ∧ read text = some xs

/-- **The expressions of a request say what a read asks for.**  The placeholders are looked up in
the dictionaries of the request. -/
structure Read.IsSaidBy (r : Read) (e : Expressions) : Prop where
  key : Gives (conditions? e.names e.values) (e.key.map Expression.text) r.plan.keyConditions
  projection : Gives (paths? e.names) (e.projection.map Expression.text) r.projection
  filter : ∃ generated,
    Gives (conditions? e.names e.values) generated r.plan.filterConditions ∧
      e.filter.map Expression.text =
        conjoined? (r.fragments.map Fragment.expression ++ generated.toList)
  /-- If the fragments are formulas, the filter is one, and the filter conditions stand behind
  what the fragments say. -/
  conjuncts : ∀ fs, List.Forall₂ (fun x f => formula? x.expression = some f) r.fragments fs →
    ∀ text, e.filter.map Expression.text = some text →
      ∃ f rest, formula? text = some f ∧ f.conjuncts = fs.flatMap Formula.conjuncts ++ rest ∧
        rest.mapM (Formula.condition? e.names e.values) = some r.plan.filterConditions

/-! ### Generated expressions -/

namespace Compiler

variable {c : Compiler} {names : Dict String} {values : Dict Value}

theorem gives_conditions {xs : List Condition} {e : Option Expression}
    (h : (c.conditions xs).1 = e) (hxs : ∀ x ∈ xs, x.IsRegular)
    (hnames : ∀ x, e = some x → x.names.Within names)
    (hvalues : ∀ x, e = some x → x.values.Within values) :
    Gives (conditions? names values) (e.map Expression.text) xs := by
  cases xs with
  | nil =>
      cases h
      rfl
  | cons x xs =>
      obtain ⟨y, hy⟩ : ∃ y, (c.conditions (x :: xs)).1 = some y := ⟨_, rfl⟩
      rw [hy] at h
      subst h
      exact ⟨List.cons_ne_nil _ _, conditions_readBack hy hxs (hnames y rfl) (hvalues y rfl)⟩

theorem gives_projection {paths : List String} {e : Option Expression}
    (h : (c.projection paths).1 = e) (hpaths : ∀ path ∈ paths, isDocumentPath path = true)
    (hnames : ∀ x, e = some x → x.names.Within names) :
    Gives (paths? names) (e.map Expression.text) paths := by
  cases paths with
  | nil =>
      cases h
      rfl
  | cons path paths =>
      obtain ⟨y, hy⟩ : ∃ y, (c.projection (path :: paths)).1 = some y := ⟨_, rfl⟩
      rw [hy] at h
      subst h
      exact ⟨List.cons_ne_nil _ _, projection_readBack hy hpaths (hnames y rfl)⟩

/-! ### Fragments -/

theorem conjoined?_eq_conjunction {parts : List String} (hne : parts ≠ []) :
    conjoined? parts = some (conjunction parts) := by
  match parts with
  | [] => exact absurd rfl hne
  | [_] => rfl
  | _ :: _ :: _ => rfl

/-- **The text that fragments and a generated expression become.** -/
theorem map_text_merge {d : Compiler} {fs : List Fragment} {generated merged : Option Expression}
    (h : c.merge generated fs = (.ok merged, d)) :
    merged.map Expression.text = conjoined?
      (fs.map Fragment.expression ++ (generated.map Expression.text).toList) := by
  unfold merge at h
  split at h
  · next hempty =>
      obtain rfl : fs = [] := List.isEmpty_iff.1 hempty
      cases h
      cases generated <;> rfl
  · next hfs =>
      split at h
      · cases h
        have hne : fs.map Fragment.expression ++ (generated.map Expression.text).toList ≠ [] := by
          simpa using fun hnil => absurd (List.isEmpty_iff.2 hnil) hfs
        rw [conjoined?_eq_conjunction hne]
        simp [join, Function.comp_def, Option.toList_map]
      · cases h

end Compiler

/-- A text from which conditions are read is a formula, or there is none and no conditions. -/
theorem Gives.exists_formulas {names : Dict String} {values : Dict Value} {text : Option String}
    {xs : List Condition} (h : Gives (conditions? names values) text xs) :
    ∃ fs, List.Forall₂ (fun t f => formula? t = some f) text.toList fs ∧
      (fs.flatMap Formula.conjuncts).mapM (Formula.condition? names values) = some xs := by
  cases text with
  | none => exact ⟨[], .nil, congrArg some h.symm⟩
  | some text =>
      obtain ⟨-, hread⟩ := h
      obtain ⟨f, hf, hstated⟩ := Option.bind_eq_some_iff.1 hread
      exact ⟨[f], .cons hf .nil, by simpa using hstated⟩

/-! ### Reads -/

/-- **Compilation preserves meaning.**  The expressions of a read with regular conditions that
projects document paths say what the read asks for. -/
theorem Read.is_said_by_its_expressions {r : Read} {e : Expressions} (h : r.compile = .ok e)
    (hkey : ∀ x ∈ r.plan.keyConditions, x.IsRegular)
    (hfilter : ∀ x ∈ r.plan.filterConditions, x.IsRegular)
    (hprojection : ∀ path ∈ r.projection, isDocumentPath path = true) : r.IsSaidBy e := by
  obtain ⟨generated, hcompiled⟩ := Read.compile_spec h hkey hfilter hprojection
  have hkeeps := hcompiled.sound.keeps
  have hpresent : ∀ x, e.key = some x ∨ e.projection = some x → x ∈ e.present := by
    rintro x (hx | hx)
    · simp [Expressions.present, hx]
    · simp [Expressions.present, hx]
  obtain ⟨c₁, hc₁⟩ := hcompiled.key
  obtain ⟨c₂, hc₂⟩ := hcompiled.filter
  obtain ⟨c₃, hc₃⟩ := hcompiled.projection
  obtain ⟨c₄, d, hmerge⟩ := hcompiled.merged
  have hgenerated := Compiler.gives_conditions hc₂ hfilter hcompiled.names hcompiled.values
  have htext := Compiler.map_text_merge hmerge
  refine ⟨?_, ?_, ⟨_, hgenerated, htext⟩, fun fs hfs text hfilterText => ?_⟩
  · exact Compiler.gives_conditions hc₁ hkey
      (fun x hx => hkeeps.names x (hpresent x (Or.inl hx)))
      fun x hx => hkeeps.values x (hpresent x (Or.inl hx))
  · exact Compiler.gives_projection hc₃ hprojection
      fun x hx => hkeeps.names x (hpresent x (Or.inr hx))
  -- the filter is joined of the fragments' formulas and the one that was generated, if any
  · obtain ⟨gs, hgs, hstated⟩ := hgenerated.exists_formulas
    have hall := List.rel_append (List.forall₂_map_left_iff.2 hfs) hgs
    obtain ⟨f, hf, hconjuncts⟩ := formula?_of_conjoined? hall (htext.symm.trans hfilterText)
    exact ⟨f, _, hf, by rw [hconjuncts, List.flatMap_append], hstated⟩

/-- Somebody's books of the first half of the alphabet that were read a lot. -/
def Library.wellRead : Read :=
  { plan :=
      { table := "library", access := .query
        index := TableSchema.baseIndex
          { table := "library", partitionKey := "owner", sortKey := some "title" }
        keyConditions :=
          [⟨"owner", .eq, [.text "ann"]⟩, ⟨"title", .between, [.text "a", .text "m"]⟩]
        filterConditions :=
          [⟨"lent[0].to", .oneOf, [.text "bob", .text "eve"]⟩,
            ⟨"pages", .between, [.number "100", .number "200"]⟩,
            ⟨"lent[0].to", .beginsWith, [.text "b"]⟩, ⟨"lost", .attributeNotExists, []⟩] }
    fragments :=
      [{ expression := "size(lent) > :l OR #f = :t", names := [("#f", "favourite")]
         values := [(":l", .number "3"), (":t", .bool true)] }]
    projection := ["title", "lent[0].to"] }

/-- What a key, a fragment and several operators say. -/
theorem library_read_is_said :
    (Library.wellRead.compile.toOption.map fun e =>
      [e.key, e.filter, e.projection].map (Option.map Expression.text)) =
        some [some "#n0 = :v0 AND #n1 BETWEEN :v1 AND :v2",
          some ("(size(lent) > :l OR #f = :t) AND " ++
            "(#n2[0].#n3 IN (:v3, :v4) AND #n4 BETWEEN :v5 AND :v6 AND " ++
            "begins_with(#n2[0].#n3, :v7) AND attribute_not_exists(#n5))"),
          some "#n1, #n2[0].#n3"] ∧
      ∃ e, Library.wellRead.compile = .ok e ∧ Library.wellRead.IsSaidBy e := by
  refine ⟨by decide +kernel, ?_⟩
  have hsome : Library.wellRead.compile.toOption.isSome = true := by decide +kernel
  cases he : Library.wellRead.compile with
  | error cause =>
      rw [he] at hsome
      cases hsome
  | ok e =>
      refine ⟨e, rfl, Read.is_said_by_its_expressions he ?_ ?_ ?_⟩
      · simp only [Library.wellRead, List.forall_mem_cons]
        exact ⟨⟨by decide, by decide⟩, ⟨by decide, by decide⟩, by simp⟩
      · simp only [Library.wellRead, List.forall_mem_cons]
        exact ⟨⟨by decide, by decide⟩, ⟨by decide, by decide⟩, ⟨by decide, by decide⟩,
          ⟨by decide, by decide⟩, by simp⟩
      · decide

end Keyspace
