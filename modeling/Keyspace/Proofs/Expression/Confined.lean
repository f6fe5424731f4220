import Keyspace.Proofs.Expression.ReadBack
import Keyspace.Query.Step
/-!
# What of a path reaches an expression

The name of each step of a path is replaced by a placeholder, and what follows the name from the
first `[` on is written as it stands.  So the text of a path is confined to issued placeholders,
points and list indexes if the path is a document path, and then it adds one operand to the
expression.  Any other path leaves more in the text, and whoever takes a path checks no more of it
than the attribute it starts at.

Main definitions:

* `Keyspace.Compiler.IsConfined` — **texts of issued placeholders, points and list indexes**.

Main results:

* `Keyspace.Compiler.Placed.isConfined`, `Keyspace.Compiler.Placed.isDocumentPath_of_isConfined` —
  the text of a placed path is confined if and only if it is one of a document path;
* `Keyspace.TableSchema.hasAttribute_bracket` — what follows a `[` is not checked;
* `Keyspace.Compiler.confines_document_paths_only` — **what of a path reaches an expression**.
-/

set_option autoImplicit false

namespace Keyspace

open Grammar

/-! ### Steps of any path -/

/-- Between the points there is none. -/
theorem not_mem_of_mem_splitPoints {cs part : List Char} (h : part ∈ splitPoints cs) :
    '.' ∉ part := by
  induction cs generalizing part with
  | nil =>
      rw [List.mem_singleton.1 h]
      simp
  | cons c cs ih =>
      unfold splitPoints at h
      split at h
      · rcases List.mem_cons.1 h with rfl | h
        · simp
        · exact ih h
      · next hc =>
          split at h
          · next first more hsplit =>
              rcases List.mem_cons.1 h with rfl | h
              · have hfirst : '.' ∉ first := ih (by rw [hsplit]; exact List.mem_cons_self)
                simpa [Ne.symm hc] using hfirst
              · exact ih (by rw [hsplit]; exact List.mem_cons_of_mem _ h)
          · rw [List.mem_singleton.1 h]
            simpa using Ne.symm hc

/-- What a step of a path has behind its name: no point, and nothing in front of the first `[`. -/
theorem indexes_of_mem_pathSteps {path : String} {s : PathStep} (h : s ∈ pathSteps path) :
    '.' ∉ s.indexes.toList ∧ s.indexes.toList.takeWhile (· != '[') = [] := by
  obtain ⟨part, hpart, rfl⟩ := List.mem_map.1 h
  constructor
  · intro hmem
    rw [PathStep.ofChars, String.toList_ofList] at hmem
    exact not_mem_of_mem_splitPoints hpart ((List.dropWhile_suffix _).subset hmem)
  · rw [PathStep.ofChars, String.toList_ofList]
    cases hrest : part.dropWhile (· != '[') with
    | nil => rfl
    | cons c cs =>
        have hc := List.head?_dropWhile_not (· != '[') part
        rw [hrest] at hc
        simpa [List.takeWhile_cons] using hc

/-! ### Confined texts -/

namespace Compiler

/-- **Texts of issued placeholders, points and list indexes.** -/
def IsConfined (c : Compiler) (text : String) : Prop :=
  ∃ steps : List PathStep, steps ≠ [] ∧ text = pathText steps ∧
    ∀ s ∈ steps, (∃ n < c.attributes.length, s.name = Placeholder.ofName n) ∧
      spellsIndexes .outside s.indexes.toList = true

variable {c : Compiler} {path : String} {p : PlacedPath}

/-- A placeholder and what follows it are cut apart again, list indexes or not. -/
theorem ofChars_of_ofName {n : Nat} {indexes : String} (hpoint : '.' ∉ indexes.toList)
    (hbracket : indexes.toList.takeWhile (· != '[') = []) :
    PathStep.ofChars (Placeholder.ofName n ++ indexes).toList =
        ⟨Placeholder.ofName n, indexes⟩ ∧
      '.' ∉ (Placeholder.ofName n ++ indexes).toList := by
  constructor
  · exact ofChars_append (fun hmem => (Placeholder.mem_ofName hmem).2.2 rfl) hbracket
  · rw [String.toList_append, List.mem_append, not_or]
    exact ⟨fun hmem => (Placeholder.mem_ofName hmem).2.1 rfl, hpoint⟩

/-- The text of a placed document path is confined. -/
theorem Placed.isConfined (h : c.Placed path p) (hpath : isDocumentPath path = true) :
    c.IsConfined p.text := by
  refine ⟨p.steps, by simpa [PlacedPath.steps] using h.ne_nil, p.pathText_steps.symm, ?_⟩
  intro step hstep
  obtain ⟨s, hs, rfl⟩ := List.mem_map.1 hstep
  obtain ⟨n, hn, hget⟩ := h.names s hs
  exact ⟨⟨n, (List.getElem?_eq_some_iff.1 hget).1, hn⟩, (h.regular hpath s hs).indexes⟩

/-- **A path whose text is confined is a document path.**  The text has the steps of the path with
other names, and it has no others. -/
theorem Placed.isDocumentPath_of_isConfined (h : c.Placed path p)
    (hconfined : c.IsConfined p.text) : isDocumentPath path = true := by
  obtain ⟨steps, hne, htext, hsteps⟩ := hconfined
  have hcut : pathSteps (pathText steps) = steps := by
    refine pathSteps_pathText hne fun s hs => ?_
    obtain ⟨⟨n, -, hn⟩, hindexes⟩ := hsteps s hs
    have hregular : PlacedStep.Regular ⟨s.name, s.name, s.indexes⟩ := ⟨⟨n, hn⟩, hindexes⟩
    exact ⟨hregular.ofChars, fun hpoint => (hregular.isWordChar _ hpoint).2 rfl⟩
  have hplaced : pathSteps p.text = p.steps := by
    rw [← p.pathText_steps]
    refine pathSteps_pathText (by simpa [PlacedPath.steps] using h.ne_nil) fun step hstep => ?_
    obtain ⟨s, hs, rfl⟩ := List.mem_map.1 hstep
    obtain ⟨n, hn, -⟩ := h.names s hs
    have hmem : (⟨s.name, s.indexes⟩ : PathStep) ∈ pathSteps path := by
      rw [← h.steps]
      exact List.mem_map_of_mem hs
    obtain ⟨hpoint, hbracket⟩ := indexes_of_mem_pathSteps hmem
    rw [hn]
    exact ofChars_of_ofName hpoint hbracket
  have hsame : p.steps = steps := by rw [← hplaced, htext, hcut]
  rw [isDocumentPath, ← h.steps, List.all_map]
  refine List.all_eq_true.2 fun s hs => (hsteps ⟨s.placeholder, s.indexes⟩ ?_).2
  rw [← hsame]
  exact List.mem_map_of_mem hs

end Compiler

/-! ### What is checked of a path -/

/-- What follows a `[` does not belong to the attribute that a path starts at. -/
theorem rootAttribute_bracket (path rest : String) :
    rootAttribute (path ++ "[" ++ rest) = rootAttribute path := by
  have hcut : ∀ cs : List Char, (cs ++ '[' :: rest.toList).takeWhile
      (fun c => !(c == '.' || c == '[')) = cs.takeWhile fun c => !(c == '.' || c == '[') := by
    intro cs
    induction cs with
    | nil => rfl
    | cons c cs ih =>
        rw [List.cons_append, List.takeWhile_cons, List.takeWhile_cons, ih]
  rw [rootAttribute, rootAttribute, String.toList_append, String.toList_append, List.append_assoc]
  exact congrArg _ (hcut path.toList)

/-- **What follows a `[` is not checked.** -/
theorem TableSchema.hasAttribute_bracket (s : TableSchema) (path rest : String) :
    s.hasAttribute (path ++ "[" ++ rest) = s.hasAttribute path := by
  unfold hasAttribute
  rw [rootAttribute_bracket]

/-- **What of a path reaches an expression.** -/
theorem Compiler.confines_document_paths_only (c : Compiler) (path : String) :
    let p := (c.place path).1
    let d := (c.place path).2
    -- the text has the steps of the path with issued placeholders for their names
    d.Placed path p ∧
    -- nothing but placeholders, points and list indexes stands there only for document paths
    (d.IsConfined p.text ↔ isDocumentPath path = true) ∧
    -- such a path refers to no other placeholder and adds one operand to the expression
    (isDocumentPath path = true →
      Placeholder.tokens p.text = p.map PlacedStep.placeholder ∧
        Spells p.text [.operand (.path p.steps)]) ∧
    -- a path is taken with anything behind a bracket if it is taken without
    ∀ (s : TableSchema) (rest : String), s.hasAttribute (path ++ "[" ++ rest) =
      s.hasAttribute path := by
  intro p d
  have hplaced : d.Placed path p := (c.place_spec path).2
  refine ⟨hplaced, ⟨hplaced.isDocumentPath_of_isConfined, hplaced.isConfined⟩, fun hpath => ?_,
    fun s rest => s.hasAttribute_bracket path rest⟩
  have hregular := hplaced.regular hpath
  exact ⟨PlacedPath.tokens_text hregular, PlacedPath.spells_text hregular hplaced.ne_nil⟩

/-! ### A library -/

namespace Library

/-- A title, told in an odd way. -/
def oddField : String := "title[0]) OR attribute_exists(#n0"

/-- Somebody's books that have such a title. -/
def oddlyTitled : Query :=
  (Query.new { table := "library", partitionKey := "owner", attributes := ["owner", "title"] }
    {}).steps 0 [.compare "owner" .eq (Datum.text "ann"), .attributeExists oddField]

/-- What the filter says of them. -/
def oddFilter : Option String :=
  oddlyTitled.build.toOption.bind fun r => r.compile.toOption.bind fun e =>
    e.filter.map Expression.text

end Library

/-- **A field adds an operator to the filter, and refers to the placeholder of another one.** -/
theorem library_field_adds_an_operator :
    Library.oddlyTitled.error? = none ∧
      Library.oddFilter = some "attribute_exists(#n1[0]) OR attribute_exists(#n0)" ∧
      Library.oddFilter.bind formula? =
        some (.or (.test (.operator .attributeExists) (.path [⟨"#n1", "[0]"⟩]) [])
          (.test (.operator .attributeExists) (.path [⟨"#n0", ""⟩]) [])) ∧
      ¬((Compiler.empty.name "owner").2.place Library.oddField).2.IsConfined
        ((Compiler.empty.name "owner").2.place Library.oddField).1.text := by
  refine ⟨by decide +kernel, by decide +kernel, by decide +kernel, fun hconfined => ?_⟩
  have hpath := (Compiler.place_spec _ _).2.isDocumentPath_of_isConfined hconfined
  exact absurd hpath (by decide +kernel)

end Keyspace
