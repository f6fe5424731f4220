import Keyspace.Proofs.Expression.Meaning
/-!
# Closed expressions

An expression is closed if the placeholders it declares are those that occur in its text: none
dangles and none is unused.  Every generated expression over document paths is closed, a fragment
that was taken in is, and so is what they are joined to.

Main definitions:

* `Keyspace.Expression.Closed` — the closed expressions;
* `Keyspace.Condition.IsRegular` — conditions on a document path, with as many operands as their
  operator takes.

Main results:

* `Keyspace.Clause.tokens_text`, `Keyspace.PlacedChange.mem_tokens_text` — **the placeholders of a
  clause and of a change**;
* `Keyspace.Compiler.conditions_closed`, `Keyspace.Compiler.projection_closed`,
  `Keyspace.Compiler.update_closed` — **generated expressions are closed**;
* `Keyspace.Compiler.join_closed` — **joining closed expressions gives a closed one**.
-/

set_option autoImplicit false

namespace Keyspace

open Placeholder

/-- The names and values that an expression declares are the placeholders of its text. -/
structure Expression.Closed (e : Expression) : Prop where
  names : ∀ p, p ∈ e.names.names ↔ isName p = true ∧ p ∈ tokens e.text
  values : ∀ p, p ∈ e.values.names ↔ isValue p = true ∧ p ∈ tokens e.text

/-- A condition on a document path, with as many operands as its operator takes. -/
structure Condition.IsRegular (c : Condition) : Prop where
  path : isDocumentPath c.field = true
  operands : c.operator.admits c.values.length = true

/-- An expression that is written of parts is closed if its text holds the placeholders of the
parts and its dictionaries declare these. -/
theorem Expression.closed_of_parts {ι : Type} {e : Expression} (parts : List ι)
    (ns vs : ι → List String) (hns : ∀ y ∈ parts, ∀ p ∈ ns y, isName p = true)
    (hvs : ∀ y ∈ parts, ∀ p ∈ vs y, isValue p = true)
    (htokens : ∀ p, p ∈ tokens e.text ↔ ∃ y ∈ parts, p ∈ ns y ∨ p ∈ vs y)
    (hnames : ∀ p, p ∈ e.names.names ↔ ∃ y ∈ parts, p ∈ ns y)
    (hvalues : ∀ p, p ∈ e.values.names ↔ ∃ y ∈ parts, p ∈ vs y) : e.Closed := by
  constructor
  · intro p
    rw [hnames, htokens]
    constructor
    · rintro ⟨y, hy, hp⟩
      exact ⟨hns y hy p hp, y, hy, Or.inl hp⟩
    · rintro ⟨hname, y, hy, hp | hp⟩
      · exact ⟨y, hy, hp⟩
      · have hno := isValue_of_isName hname
        rw [hvs y hy p hp] at hno
        cases hno
  · intro p
    rw [hvalues, htokens]
    constructor
    · rintro ⟨y, hy, hp⟩
      exact ⟨hvs y hy p hp, y, hy, Or.inr hp⟩
    · rintro ⟨hvalue, y, hy, hp | hp⟩
      · have hno := isValue_of_isName (hns y hy p hp)
        rw [hvalue] at hno
        cases hno
      · exact ⟨y, hy, hp⟩

/-! ### Paths -/

/-- A placed document path has regular steps only. -/
theorem Compiler.Placed.regular {c : Compiler} {path : String} {p : PlacedPath}
    (h : c.Placed path p) (hpath : isDocumentPath path = true) : ∀ s ∈ p, s.Regular := by
  intro s hs
  obtain ⟨n, hn, _⟩ := h.names s hs
  have hstep : (⟨s.name, s.indexes⟩ : PathStep) ∈ pathSteps path := by
    rw [← h.steps]
    exact List.mem_map.2 ⟨s, hs, rfl⟩
  exact ⟨⟨n, hn⟩, List.all_eq_true.1 hpath _ hstep⟩

theorem Compiler.Placed.isName {c : Compiler} {path : String} {p : PlacedPath}
    (h : c.Placed path p) : ∀ q ∈ p.map PlacedStep.placeholder, isName q = true := by
  intro q hq
  obtain ⟨s, hs, rfl⟩ := List.mem_map.1 hq
  obtain ⟨n, hn, _⟩ := h.names s hs
  rw [hn, isName_ofName]

theorem PlacedPath.map_fst_names (p : PlacedPath) :
    (PlacedPath.names p).map Prod.fst = p.map PlacedStep.placeholder := by
  simp [PlacedPath.names, Function.comp_def]

/-! ### Clauses -/

/-- A plain piece that is apart adds no placeholder. -/
theorem tokens_append_plain (s : String) {t : String} (ha : isApart t = true)
    (hp : isPlain t = true) : tokens (s ++ t) = tokens s := by
  rw [tokens_append s ha, tokens_of_isPlain hp, List.append_nil]

/-- Issued values in a row are read as themselves. -/
theorem flatMap_tokens_of_issued {ps : List String} (h : ∀ p ∈ ps, ∃ n, p = ofValue n) :
    ps.flatMap tokens = ps := by
  induction ps with
  | nil => rfl
  | cons p rest ih =>
      obtain ⟨n, rfl⟩ := h p List.mem_cons_self
      rw [List.flatMap_cons, tokens_ofValue, ih fun q hq => h q (List.mem_cons_of_mem _ hq)]
      rfl

/-- An operator between a path and its operand. -/
theorem tokens_comparison {path : PlacedPath} (h : ∀ s ∈ path, s.Regular) (op : String)
    (ha : isApart (" " ++ op) = true) (hp : isPlain (" " ++ op) = true) (n : Nat) :
    tokens (path.text ++ " " ++ op ++ " " ++ ofValue n) =
      path.map PlacedStep.placeholder ++ [ofValue n] := by
  rw [tokens_append _ (isApart_ofValue n), tokens_append_plain _ (by decide) (by decide),
    String.append_assoc, tokens_append_plain _ ha hp, PlacedPath.tokens_text h, tokens_ofValue]

/-- An operator that is applied to a path. -/
theorem tokens_application {path : PlacedPath} (h : ∀ s ∈ path, s.Regular) (op : String)
    (hp : isPlain (op ++ "(") = true) :
    tokens (op ++ "(" ++ path.text) = path.map PlacedStep.placeholder := by
  rw [tokens_append _ (PlacedPath.isApart_text h), tokens_of_isPlain hp, PlacedPath.tokens_text h]
  rfl

/-- An operator that is applied to a path and its operand. -/
theorem tokens_application_operand {path : PlacedPath} (h : ∀ s ∈ path, s.Regular) (op : String)
    (hp : isPlain (op ++ "(") = true) (n : Nat) :
    tokens (op ++ "(" ++ path.text ++ ", " ++ ofValue n ++ ")") =
      path.map PlacedStep.placeholder ++ [ofValue n] := by
  rw [tokens_append_plain _ (by decide) (by decide), tokens_append _ (isApart_ofValue n),
    tokens_append_plain _ (by decide) (by decide), tokens_application h op hp, tokens_ofValue]

/-- A path between two operands. -/
theorem tokens_between {path : PlacedPath} (h : ∀ s ∈ path, s.Regular) (m n : Nat) :
    tokens (path.text ++ " BETWEEN " ++ ofValue m ++ " AND " ++ ofValue n) =
      path.map PlacedStep.placeholder ++ [ofValue m, ofValue n] := by
  rw [tokens_append _ (isApart_ofValue n), tokens_append_plain _ (by decide) (by decide),
    tokens_append _ (isApart_ofValue m), tokens_append_plain _ (by decide) (by decide),
    PlacedPath.tokens_text h, tokens_ofValue, tokens_ofValue, List.append_assoc]
  rfl

/-- A path and several operands to choose from. -/
theorem tokens_choice {path : PlacedPath} (h : ∀ s ∈ path, s.Regular) {ps : List String}
    (hps : ∀ p ∈ ps, ∃ n, p = ofValue n) :
    tokens (path.text ++ " IN (" ++ ", ".intercalate ps ++ ")") =
      path.map PlacedStep.placeholder ++ ps := by
  have hlist : tokens (" IN (" ++ ", ".intercalate ps) = ps := by
    rw [tokens_append_of_isPlain _ (by decide),
      tokens_intercalate (by decide) (by decide) (by decide), flatMap_tokens_of_issued hps]
  rw [tokens_append_plain _ (by decide) (by decide), String.append_assoc,
    tokens_append _ (isApart_append _ (by decide) (by decide)), PlacedPath.tokens_text h, hlist]

/-- An operator with a fixed number of operands. -/
theorem Operator.eq_of_admits {op : Operator} {n k : Nat} (h : op.admits n = true)
    (hk : op.operands = (k, k)) : n = k := by
  simp only [admits, hk, Bool.and_eq_true, decide_eq_true_eq] at h
  omega

namespace Clause.Renders

variable {c : Compiler} {x : Condition} {y : Clause}

/-- A clause of a regular condition has as many operands as its operator takes. -/
theorem admits (h : Clause.Renders c x y) (hx : x.IsRegular) :
    y.operator.admits y.operands.length = true := by
  have hlength := congrArg List.length h.values
  rw [List.length_map] at hlength
  rw [h.operator, hlength]
  exact hx.operands

theorem operands_eq_nil (h : Clause.Renders c x y) (hx : x.IsRegular)
    (hcount : y.operator.operands = (0, 0)) : y.operands = [] :=
  List.length_eq_zero_iff.1 (Operator.eq_of_admits (h.admits hx) hcount)

theorem exists_operand (h : Clause.Renders c x y) (hx : x.IsRegular)
    (hcount : y.operator.operands = (1, 1)) : ∃ n v, y.operands = [(ofValue n, v)] := by
  obtain ⟨⟨p, v⟩, hone⟩ := List.length_eq_one_iff.1 (Operator.eq_of_admits (h.admits hx) hcount)
  obtain ⟨n, hn⟩ := h.issued (p, v) (by simp [hone])
  exact ⟨n, v, by rw [hone, ← hn]⟩

theorem exists_bounds (h : Clause.Renders c x y) (hx : x.IsRegular)
    (hcount : y.operator.operands = (2, 2)) :
    ∃ m v n w, y.operands = [(ofValue m, v), (ofValue n, w)] := by
  obtain ⟨⟨p, v⟩, ⟨q, w⟩, htwo⟩ :=
    List.length_eq_two.1 (Operator.eq_of_admits (h.admits hx) hcount)
  obtain ⟨m, hm⟩ := h.issued (p, v) (by simp [htwo])
  obtain ⟨n, hn⟩ := h.issued (q, w) (by simp [htwo])
  exact ⟨m, v, n, w, by rw [htwo, ← hm, ← hn]⟩

theorem placeholders_issued (h : Clause.Renders c x y) :
    ∀ p ∈ y.placeholders, ∃ n, p = ofValue n := by
  intro p hp
  obtain ⟨o, ho, rfl⟩ := List.mem_map.1 hp
  exact h.issued o ho

end Clause.Renders

/-- **The placeholders of a clause** are those of its path and, behind them, those of its
operands. -/
theorem Clause.tokens_text {c : Compiler} {x : Condition} {y : Clause}
    (h : Clause.Renders c x y) (hx : x.IsRegular) :
    tokens y.text = y.path.map PlacedStep.placeholder ++ y.placeholders := by
  have hregular := h.path.regular hx.path
  have hissued := h.placeholders_issued
  obtain ⟨op, path, operands⟩ := y
  have none_of (hcount : op.operands = (0, 0)) : operands = [] := h.operands_eq_nil hx hcount
  have one_of (hcount : op.operands = (1, 1)) : ∃ n v, operands = [(ofValue n, v)] :=
    h.exists_operand hx hcount
  have two_of (hcount : op.operands = (2, 2)) :
      ∃ m v n w, operands = [(ofValue m, v), (ofValue n, w)] := h.exists_bounds hx hcount
  -- one case for each operator: how many operands there are, and where they stand in the text
  cases op with
  | eq =>
      obtain ⟨n, v, rfl⟩ := one_of rfl
      exact tokens_comparison hregular "=" (by decide) (by decide) n
  | ne =>
      obtain ⟨n, v, rfl⟩ := one_of rfl
      exact tokens_comparison hregular "<>" (by decide) (by decide) n
  | lt =>
      obtain ⟨n, v, rfl⟩ := one_of rfl
      exact tokens_comparison hregular "<" (by decide) (by decide) n
  | le =>
      obtain ⟨n, v, rfl⟩ := one_of rfl
      exact tokens_comparison hregular "<=" (by decide) (by decide) n
  | gt =>
      obtain ⟨n, v, rfl⟩ := one_of rfl
      exact tokens_comparison hregular ">" (by decide) (by decide) n
  | ge =>
      obtain ⟨n, v, rfl⟩ := one_of rfl
      exact tokens_comparison hregular ">=" (by decide) (by decide) n
  | between =>
      obtain ⟨m, v, n, w, rfl⟩ := two_of rfl
      exact tokens_between hregular m n
  | oneOf =>
      exact tokens_choice hregular hissued
  | beginsWith =>
      obtain ⟨n, v, rfl⟩ := one_of rfl
      exact tokens_application_operand hregular "begins_with" (by decide) n
  | contains =>
      obtain ⟨n, v, rfl⟩ := one_of rfl
      exact tokens_application_operand hregular "contains" (by decide) n
  | attributeExists =>
      obtain rfl := none_of rfl
      rw [Clause.placeholders, List.map_nil, List.append_nil]
      exact (tokens_append_plain _ (by decide) (by decide)).trans
        (tokens_application hregular "attribute_exists" (by decide))
  | attributeNotExists =>
      obtain rfl := none_of rfl
      rw [Clause.placeholders, List.map_nil, List.append_nil]
      exact (tokens_append_plain _ (by decide) (by decide)).trans
        (tokens_application hregular "attribute_not_exists" (by decide))

/-! ### Changes -/

/-- **The placeholders of a change** are those of its path and that of its operand. -/
theorem PlacedChange.mem_tokens_text {c : Compiler} {x : Change} {y : PlacedChange}
    (h : PlacedChange.Renders c x y) (hx : isDocumentPath x.path = true) (p : String) :
    p ∈ tokens y.text ↔ p ∈ y.path.map PlacedStep.placeholder ∨
      p ∈ y.operand?.toList.map Prod.fst := by
  have hregular := h.path.regular hx
  have hP := PlacedPath.tokens_text hregular
  have hA := PlacedPath.isApart_text hregular
  cases h with
  | remove hpath =>
      simp only [PlacedChange.path] at hP
      simp [PlacedChange.text, PlacedChange.operand?, PlacedChange.path, hP]
  | @apply form path q operand n hpath =>
      simp only [PlacedChange.path] at hP hA
      simp only [PlacedChange.text, PlacedChange.operand?, PlacedChange.path, Option.toList_some,
        List.map_cons, List.map_nil, List.mem_singleton]
      cases form with
      | set | add | delete =>
          rw [tokens_append _ (isApart_ofValue n), tokens_append_plain _ (by decide) (by decide),
            hP, tokens_ofValue, List.mem_append, List.mem_singleton]
      | increment | decrement =>
          rw [tokens_append _ (isApart_ofValue n), tokens_append_plain _ (by decide) (by decide),
            tokens_append _ hA, tokens_append_plain _ (by decide) (by decide), hP, tokens_ofValue,
            List.mem_append, List.mem_append, List.mem_singleton, or_self]
      | setIfAbsent | append =>
          rw [tokens_append_plain _ (by decide) (by decide), tokens_append _ (isApart_ofValue n),
            tokens_append_plain _ (by decide) (by decide), tokens_append _ hA,
            tokens_append_plain _ (by decide) (by decide), hP, tokens_ofValue,
            List.mem_append, List.mem_append, List.mem_singleton, or_self]
      | prepend =>
          rw [tokens_append_plain _ (by decide) (by decide), tokens_append _ hA,
            tokens_append_plain _ (by decide) (by decide), tokens_append _ (isApart_ofValue n),
            tokens_append_plain _ (by decide) (by decide), hP, tokens_ofValue,
            List.mem_append, List.mem_append, List.mem_singleton, or_right_comm, or_self]

theorem UpdateSection.mem_all (s : UpdateSection) : s ∈ UpdateSection.all := by
  cases s <;> decide

/-- The placeholders of a section are those of the changes that belong to it. -/
theorem UpdateSection.mem_tokens_text? {s : UpdateSection} {ys : List PlacedChange} {p : String} :
    (∃ t, s.text? ys = some t ∧ p ∈ tokens t) ↔
      ∃ y ∈ ys, y.home = s ∧ p ∈ tokens y.text := by
  have hkeyword : isPlain (s.keyword ++ " ") = true := by cases s <;> decide
  have hown : ∀ own : List PlacedChange,
      tokens (s.keyword ++ " " ++ ", ".intercalate (own.map PlacedChange.text)) =
        own.flatMap fun y => tokens y.text := by
    intro own
    rw [tokens_append_of_isPlain _ hkeyword,
      tokens_intercalate (by decide) (by decide) (by decide), List.flatMap_map]
  have hmem : ∀ y, y ∈ ys.filter (fun c => c.home = s) ↔ y ∈ ys ∧ y.home = s := by
    intro y
    rw [List.mem_filter, decide_eq_true_eq]
  unfold UpdateSection.text?
  split
  · next hnone =>
      rw [hnone] at hmem
      constructor
      · rintro ⟨t, ht, _⟩
        cases ht
      · rintro ⟨y, hy, hs, _⟩
        cases (hmem y).2 ⟨hy, hs⟩
  · constructor
    · rintro ⟨t, ht, hp⟩
      cases ht
      rw [hown, List.mem_flatMap] at hp
      obtain ⟨y, hy, hp⟩ := hp
      exact ⟨y, ((hmem y).1 hy).1, ((hmem y).1 hy).2, hp⟩
    · rintro ⟨y, hy, hs, hp⟩
      refine ⟨_, rfl, ?_⟩
      rw [hown, List.mem_flatMap]
      exact ⟨y, (hmem y).2 ⟨hy, hs⟩, hp⟩

/-! ### Generated expressions -/

namespace Compiler

/-- **The conjunction of regular conditions is closed.** -/
theorem conditions_closed {c : Compiler} {xs : List Condition} {e : Expression}
    (hxs : ∀ x ∈ xs, x.IsRegular) (h : (c.conditions xs).1 = some e) : e.Closed := by
  obtain ⟨_, hrenders, _⟩ := c.clauses_spec xs
  have hclause : ∀ y ∈ (c.clauses xs).1, ∃ x ∈ xs, Clause.Renders (c.clauses xs).2 x y :=
    fun y hy => exists_left_of_forall₂ hrenders hy
  unfold conditions at h
  split at h
  · cases h
  · cases h
    refine Expression.closed_of_parts (c.clauses xs).1
      (fun y => y.path.map PlacedStep.placeholder) Clause.placeholders ?_ ?_ ?_ ?_ ?_
    · intro y hy
      obtain ⟨x, _, hxy⟩ := hclause y hy
      exact hxy.path.isName
    · intro y hy p hp
      obtain ⟨x, _, hxy⟩ := hclause y hy
      obtain ⟨o, ho, rfl⟩ := List.mem_map.1 hp
      obtain ⟨n, hn⟩ := hxy.issued o ho
      rw [hn, isValue_ofValue]
    · intro p
      have htext : ∀ y ∈ (c.clauses xs).1, p ∈ tokens y.text ↔
          p ∈ y.path.map PlacedStep.placeholder ∨ p ∈ y.placeholders := by
        intro y hy
        obtain ⟨x, hx, hxy⟩ := hclause y hy
        rw [Clause.tokens_text hxy (hxs x hx), List.mem_append]
      rw [tokens_intercalate (by decide) (by decide) (by decide), List.flatMap_map,
        List.mem_flatMap]
      constructor
      · rintro ⟨y, hy, hp⟩
        exact ⟨y, hy, (htext y hy).1 hp⟩
      · rintro ⟨y, hy, hp⟩
        exact ⟨y, hy, (htext y hy).2 hp⟩
    · intro p
      simp only [Dict.mem_names_ofList, List.map_flatMap, PlacedPath.map_fst_names,
        List.mem_flatMap]
    · intro p
      simp only [Dict.mem_names_ofList, List.map_flatMap, List.mem_flatMap]
      rfl

/-- **The list of some document paths is closed.** -/
theorem projection_closed {c : Compiler} {paths : List String} {e : Expression}
    (hpaths : ∀ path ∈ paths, isDocumentPath path = true)
    (h : (c.projection paths).1 = some e) : e.Closed := by
  obtain ⟨_, hplaced⟩ := c.placeAll_spec paths
  have hpath : ∀ q ∈ (c.placeAll paths).1, ∃ path ∈ paths, (c.placeAll paths).2.Placed path q :=
    fun q hq => exists_left_of_forall₂ hplaced hq
  unfold projection at h
  split at h
  · cases h
  · cases h
    refine Expression.closed_of_parts (c.placeAll paths).1
      (fun q => q.map PlacedStep.placeholder) (fun _ => []) ?_ ?_ ?_ ?_ ?_
    · intro q hq
      obtain ⟨path, _, hpq⟩ := hpath q hq
      exact hpq.isName
    · intro q _ p hp
      cases hp
    · intro p
      have htext : ∀ q ∈ (c.placeAll paths).1, p ∈ tokens q.text ↔
          p ∈ q.map PlacedStep.placeholder := by
        intro q hq
        obtain ⟨path, hin, hpq⟩ := hpath q hq
        rw [PlacedPath.tokens_text (hpq.regular (hpaths path hin))]
      rw [tokens_intercalate (by decide) (by decide) (by decide), List.flatMap_map,
        List.mem_flatMap]
      constructor
      · rintro ⟨q, hq, hp⟩
        exact ⟨q, hq, Or.inl ((htext q hq).1 hp)⟩
      · rintro ⟨q, hq, hp | hp⟩
        · exact ⟨q, hq, (htext q hq).2 hp⟩
        · cases hp
    · intro p
      simp only [Dict.mem_names_ofList, List.map_flatMap, PlacedPath.map_fst_names,
        List.mem_flatMap]
    · intro p
      simp [Dict.names]

/-- **The update expression of changes at document paths is closed.** -/
theorem update_closed {c : Compiler} {xs : List Change}
    (hxs : ∀ x ∈ xs, isDocumentPath x.path = true) : (c.update xs).1.Closed := by
  obtain ⟨_, hrenders, _⟩ := c.changes_spec xs
  have hchange : ∀ y ∈ (c.changes xs).1, ∃ x ∈ xs, PlacedChange.Renders (c.changes xs).2 x y :=
    fun y hy => exists_left_of_forall₂ hrenders hy
  refine Expression.closed_of_parts (c.changes xs).1
    (fun y => y.path.map PlacedStep.placeholder) (fun y => y.operand?.toList.map Prod.fst)
    ?_ ?_ ?_ ?_ ?_
  · intro y hy
    obtain ⟨x, _, hxy⟩ := hchange y hy
    exact hxy.path.isName
  · intro y hy p hp
    obtain ⟨x, _, hxy⟩ := hchange y hy
    cases hxy with
    | remove hpath => cases hp
    | apply n hpath =>
        rw [List.mem_singleton.1 hp]
        exact isValue_ofValue n
  · intro p
    have htext : ∀ y ∈ (c.changes xs).1, p ∈ tokens y.text ↔
        p ∈ y.path.map PlacedStep.placeholder ∨ p ∈ y.operand?.toList.map Prod.fst := by
      intro y hy
      obtain ⟨x, hx, hxy⟩ := hchange y hy
      exact PlacedChange.mem_tokens_text hxy (hxs x hx) p
    simp only [update]
    rw [tokens_intercalate (by decide) (by decide) (by decide), List.mem_flatMap]
    constructor
    · rintro ⟨t, ht, hp⟩
      obtain ⟨s, _, hs⟩ := List.mem_filterMap.1 ht
      obtain ⟨y, hy, _, hp⟩ := UpdateSection.mem_tokens_text?.1 ⟨t, hs, hp⟩
      exact ⟨y, hy, (htext y hy).1 hp⟩
    · rintro ⟨y, hy, hp⟩
      obtain ⟨t, ht, hp⟩ := UpdateSection.mem_tokens_text?.2 ⟨y, hy, rfl, (htext y hy).2 hp⟩
      exact ⟨t, List.mem_filterMap.2 ⟨y.home, UpdateSection.mem_all _, ht⟩, hp⟩
  · intro p
    simp only [update, Dict.mem_names_ofList, List.map_flatMap, PlacedPath.map_fst_names,
      List.mem_flatMap]
  · intro p
    simp only [update, Dict.mem_names_ofList, List.mem_map, List.mem_filterMap, Option.mem_toList]
    constructor
    · rintro ⟨o, ⟨y, hy, ho⟩, rfl⟩
      exact ⟨y, hy, o, ho, rfl⟩
    · rintro ⟨y, hy, o, ho, rfl⟩
      exact ⟨o, ⟨y, hy, ho⟩, rfl⟩

/-! ### Fragments -/

/-- **A fragment that was taken in is closed.** -/
theorem closed_of_validate {f : Fragment} (hvalid : f.validate = .ok ())
    (hused : f.unused? = none) :
    (⟨f.expression, f.names, f.values⟩ : Expression).Closed := by
  have hinvalid : f.invalid? = none := by
    unfold Fragment.validate at hvalid
    split at hvalid
    · cases hvalid
    · next hnone => exact hnone
  have hin : ∀ p ∈ f.declared, p ∈ tokens f.expression := by
    intro p hp
    simpa using List.find?_eq_none.1 hused p hp
  unfold Fragment.invalid? at hinvalid
  split at hinvalid
  · cases hinvalid
  · split at hinvalid
    · cases hinvalid
    · next hdeclared =>
        split at hinvalid
        · cases hinvalid
        · next hnames =>
            have hvalues := Option.map_eq_none_iff.1 hinvalid
            constructor
            · intro p
              constructor
              · intro hp
                exact ⟨by simpa using List.find?_eq_none.1 hnames p hp,
                  hin p (List.mem_append_left _ hp)⟩
              · rintro ⟨hname, hp⟩
                have hdec := List.find?_eq_none.1 hdeclared p hp
                simpa [Fragment.declares, hname] using hdec
            · intro p
              constructor
              · intro hp
                exact ⟨by simpa using List.find?_eq_none.1 hvalues p hp,
                  hin p (List.mem_append_right _ hp)⟩
              · rintro ⟨hvalue, hp⟩
                have hname : isName p = false := by
                  cases h : isName p with
                  | false => rfl
                  | true => rw [isValue_of_isName h] at hvalue; cases hvalue
                have hdec := List.find?_eq_none.1 hdeclared p hp
                simpa [Fragment.declares, hname] using hdec

/-- The placeholders of a conjunction are those of its parts. -/
theorem mem_tokens_conjunction {parts : List String} {p : String} :
    p ∈ tokens (conjunction parts) ↔ ∃ t ∈ parts, p ∈ tokens t := by
  unfold conjunction
  split
  · simp
  · rw [tokens_intercalate (by decide) (by decide) (by decide), List.flatMap_map,
      List.mem_flatMap]
    have hpart : ∀ t : String, tokens ("(" ++ t ++ ")") = tokens t := by
      intro t
      rw [tokens_append_plain _ (by decide) (by decide), tokens_append_of_isPlain _ (by decide)]
    simp only [hpart]

/-- **Joining closed expressions gives a closed one.** -/
theorem join_closed {fs : List Fragment} {generated : Option Expression}
    (h : ∀ x ∈ joinParts fs generated, x.Closed) : (join fs generated).Closed := by
  have htokens : ∀ p, p ∈ tokens (join fs generated).text ↔
      ∃ x ∈ joinParts fs generated, p ∈ tokens x.text := by
    intro p
    rw [show (join fs generated).text =
      conjunction ((joinParts fs generated).map Expression.text) from rfl, mem_tokens_conjunction]
    simp
  constructor
  · intro p
    rw [join_names, Dict.mem_names_unite, htokens]
    constructor
    · rintro ⟨x, hx, hp⟩
      obtain ⟨hname, hp⟩ := ((h x hx).names p).1 hp
      exact ⟨hname, x, hx, hp⟩
    · rintro ⟨hname, x, hx, hp⟩
      exact ⟨x, hx, ((h x hx).names p).2 ⟨hname, hp⟩⟩
  · intro p
    rw [join_values, Dict.mem_names_unite, htokens]
    constructor
    · rintro ⟨x, hx, hp⟩
      obtain ⟨hvalue, hp⟩ := ((h x hx).values p).1 hp
      exact ⟨hvalue, x, hx, hp⟩
    · rintro ⟨hvalue, x, hx, hp⟩
      exact ⟨x, hx, ((h x hx).values p).2 ⟨hvalue, hp⟩⟩

end Compiler

end Keyspace
