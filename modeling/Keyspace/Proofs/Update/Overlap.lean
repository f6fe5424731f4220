import Keyspace.Proofs.Update.Target
/-!
# Overlapping paths

The store refuses an update in which the path of one change lies within the place of another.  Of
the paths of an update only their texts are compared: two changes of one path are found, but a
change of a place and one of something inside it are not.

Main definitions:

* `Keyspace.Overlap` — one of two paths lies within the other.

Main results:

* `Keyspace.not_overlap_of_ne` — different attributes do not overlap;
* `Keyspace.Update.exists_compile_iff` — **the updates that are accepted**;
* `Keyspace.Update.refuses_equal_paths_only` — **what is compared of their paths**.
-/

set_option autoImplicit false

namespace Keyspace

/-- **Two paths overlap** if one of them lies within the place of the other. -/
def Overlap (path path' : String) : Prop := IsWithin path path' ∨ IsWithin path' path

/-- The attribute that a path starts at has a name that is no path itself. -/
theorem isName_rootAttribute (path : String) :
    ∀ c ∈ (rootAttribute path).toList, c ≠ '.' ∧ c ≠ '[' := by
  intro c hc
  rw [rootAttribute, String.toList_ofList] at hc
  simpa using List.all_eq_true.1 (List.all_takeWhile (l := path.toList)) c hc

/-- **Different attributes do not overlap.** -/
theorem not_overlap_of_ne {path path' : String} (hpath : rootAttribute path = path)
    (hpath' : rootAttribute path' = path') (hne : path ≠ path') : ¬Overlap path path' := by
  have hname := isName_rootAttribute path
  have hname' := isName_rootAttribute path'
  rw [hpath] at hname
  rw [hpath'] at hname'
  rintro (hwithin | hwithin)
  · exact hne (hpath.symm.trans ((rootAttribute_eq_iff hname').2 hwithin))
  · exact hne (((rootAttribute_eq_iff hname).2 hwithin).symm.trans hpath')

namespace Update

variable {u : Update}

/-- Without fragments nothing is wrong with the expressions. -/
theorem exists_expressions (hfragments : u.conditions.fragments = []) :
    ∃ e, u.expressions u.conditions.conditions u.conditions.fragments = .ok e := by
  unfold expressions
  rw [hfragments]
  exact ⟨_, rfl⟩

/-- **The updates that are accepted**: they are sound, and have expressions. -/
theorem exists_compile_iff :
    (∃ t, u.compile = .ok t) ↔
      u.IsSound ∧ ∃ e, u.expressions u.conditions.conditions u.conditions.fragments = .ok e := by
  constructor
  · rintro ⟨t, ht⟩
    refine ⟨(target_spec (target_of_compile ht)).1, ?_⟩
    rw [compile_eq] at ht
    obtain ⟨key, -, ht⟩ := bind_eq_ok ht
    obtain ⟨e, he, -⟩ := map_eq_ok ht
    exact ⟨e, he⟩
  · rintro ⟨hsound, e, he⟩
    obtain ⟨key, hkey⟩ := hsound.exists_target
    exact ⟨u.requestFor key e, by rw [compile_eq, hkey, he]; rfl⟩

/-- **Only equal paths are refused.**  If two changes are at one path, and no step has left an
error, the update is refused.  So the paths of an accepted update all differ, and those that are
names of attributes do not overlap.  But no other pair of paths is looked at: without fragments an
update is accepted if and only if it is sound, and of its paths that only says that they spare the
key and are different texts. -/
theorem refuses_equal_paths_only {ν : Type} [AsOperand ν] (s : TableSchema)
    (us : List (Nat × Step ν)) :
    let u := (Update.new s).stepsAt us
    let paths := (us.filterMap fun x => x.2.change?).map Change.path
    (u.error? = none → ¬paths.Nodup → ∃ e, u.compile = .error e ∧ e.isValidation = true) ∧
    (∀ t, u.compile = .ok t → paths.Nodup ∧
      ((∀ path ∈ paths, rootAttribute path = path) →
        paths.Pairwise fun path path' => ¬Overlap path path')) ∧
    ((∀ x ∈ us, x.2.fragment? = none) → ((∃ t, u.compile = .ok t) ↔ u.IsSound)) := by
  intro u paths
  have hpaths (hu : u.error? = none) : u.changes.map Change.path = paths := by
    have htook : (Update.new s).Took us u := took_of_error_none hu
    exact congrArg _ htook.changes
  refine ⟨fun hu hrepeated => ?_, fun t ht => ?_, fun hfragments => ?_⟩
  · refine refused_of_not_isSound hu fun hsound => hrepeated ?_
    rw [← hpaths hu]
    exact hsound.distinct
  · have hsound : u.IsSound := (target_spec (target_of_compile ht)).1
    have hdistinct : paths.Nodup := hpaths hsound.error ▸ hsound.distinct
    refine ⟨hdistinct, fun hnames => List.Pairwise.imp_of_mem ?_ hdistinct⟩
    intro path path' hpath hpath' hne
    exact not_overlap_of_ne (hnames path hpath) (hnames path' hpath') hne
  · rw [exists_compile_iff]
    refine ⟨And.left, fun hsound => ⟨hsound, exists_expressions ?_⟩⟩
    have htook : (Update.new s).Took us u := took_of_error_none hsound.error
    rw [htook.fragments]
    exact List.filterMap_eq_nil_iff.2 hfragments

end Update

/-! ### A library -/

namespace Library

/-- Books that stand somewhere. -/
def standing : TableSchema := { table := "library", partitionKey := "owner" }

/-- A title that is given twice. -/
def retitledTwice : List (Nat × Update.Step) :=
  [(0, .ofPartition (.text "ann")), (0, .apply .set "title" (.text "Emma")), (1, .remove "title")]

/-- A title, and no lender. -/
def broughtBack : List (Nat × Update.Step) :=
  [(0, .ofPartition (.text "ann")), (0, .apply .set "title" (.text "Emma")), (1, .remove "lender")]

/-- Another shelf, and another row in it. -/
def reshelved : List (Nat × Update.Step) :=
  [(0, .ofPartition (.text "ann")), (0, .apply .set "shelf" (.map [])),
    (1, .apply .increment "shelf.row" (.int 1))]

end Library

/-- A title that is given twice is refused, and two attributes are changed apart. -/
theorem library_titles_are_given_once :
    (∃ e, ((Update.new Library.standing).stepsAt Library.retitledTwice).compile = .error e ∧
      e.isValidation = true) ∧
    (∃ t, ((Update.new Library.standing).stepsAt Library.broughtBack).compile = .ok t) ∧
    ["title", "lender"].Pairwise fun path path' => ¬Overlap path path' := by
  obtain ⟨hrefused, -, -⟩ :=
    Update.refuses_equal_paths_only Library.standing Library.retitledTwice
  obtain ⟨-, hapart, haccepted⟩ :=
    Update.refuses_equal_paths_only Library.standing Library.broughtBack
  have hsound : ((Update.new Library.standing).stepsAt Library.broughtBack).IsSound :=
    ⟨rfl, List.cons_ne_nil _ _, rfl, rfl, by decide +kernel, by decide +kernel⟩
  obtain ⟨t, ht⟩ := (haccepted (by decide +kernel)).2 hsound
  exact ⟨hrefused rfl (by decide +kernel), ⟨t, ht⟩, (hapart t ht).2 (by decide +kernel)⟩

/-- **A shelf and a row in it are changed by one update.** -/
theorem library_changes_a_shelf_and_its_row :
    Overlap "shelf.row" "shelf" ∧
      ((Update.new Library.standing).stepsAt Library.reshelved).error?.isNone = true ∧
      ((Update.new Library.standing).stepsAt Library.reshelved).changes.map Change.path =
        ["shelf", "shelf.row"] ∧
      ((Update.new Library.standing).stepsAt Library.reshelved).compile.toOption.map
        UpdateRequest.update = some "SET #n0 = :v0, #n0.#n1 = #n0.#n1 + :v1" :=
  ⟨.inl (.inr ⟨'.', ['r', 'o', 'w'], .inl rfl, by decide⟩), by decide +kernel, by decide +kernel,
    by decide +kernel⟩

end Keyspace
