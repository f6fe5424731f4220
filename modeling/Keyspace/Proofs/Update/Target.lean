import Keyspace.Proofs.Builder.Update
import Keyspace.Proofs.Request.Form
import Keyspace.Proofs.Schema.Validity
import Mathlib.Data.List.TakeWhile
/-!
# The item that an update is for

An update that is sent names one item by all its key attributes and changes something else of it.
What is checked for that does not depend on the expressions: it is a property of the update as it
has been put together, and an update without that property is refused.

Main definitions:

* `Keyspace.IsWithin` — a path lies within a place of an item;
* `Keyspace.Update.IsSound` — **what is checked of an update** besides its expressions.

Main results:

* `Keyspace.rootAttribute_eq_iff` — the attribute that a path lies within;
* `Keyspace.Key.toItem_spec` — the key attributes with the values of a key;
* `Keyspace.Update.target_spec`, `Keyspace.Update.IsSound.exists_target`,
  `Keyspace.Update.refused_of_not_isSound` — **sound updates have an item**, others are refused;
* `Keyspace.Update.addresses_one_item` — **the item of an update**.
-/

set_option autoImplicit false

namespace Keyspace

/-! ### Places of an item -/

/-- **A path lies within a place** of an item if it is the path of that place, or goes on from it
into a map or a list. -/
def IsWithin (path place : String) : Prop :=
  path = place ∨ ∃ c rest, (c = '.' ∨ c = '[') ∧ path.toList = place.toList ++ c :: rest

/-- A path lies within the attribute that it starts at. -/
theorem isWithin_rootAttribute (path : String) : IsWithin path (rootAttribute path) := by
  let inName : Char → Bool := fun c => !(c == '.' || c == '[')
  have hroot : (rootAttribute path).toList = path.toList.takeWhile inName := String.toList_ofList
  have hsplit : path.toList.takeWhile inName ++ path.toList.dropWhile inName = path.toList :=
    List.takeWhile_append_dropWhile
  rw [← hroot] at hsplit
  cases hrest : path.toList.dropWhile inName with
  | nil =>
      rw [hrest, List.append_nil] at hsplit
      exact .inl (String.toList_injective hsplit.symm)
  | cons c rest =>
      rw [hrest] at hsplit
      have hc := List.head?_dropWhile_not inName path.toList
      rw [hrest] at hc
      have hmark : ¬c = '.' → c = '[' := by simpa [inName] using hc
      exact .inr ⟨c, rest, Decidable.or_iff_not_imp_left.2 hmark, hsplit.symm⟩

/-- **A path starts at an attribute if it lies within it**, if the name of the attribute is no path
itself. -/
theorem rootAttribute_eq_iff {path name : String}
    (hname : ∀ c ∈ name.toList, c ≠ '.' ∧ c ≠ '[') :
    rootAttribute path = name ↔ IsWithin path name := by
  constructor
  · rintro rfl
    exact isWithin_rootAttribute path
  · have hall : ∀ c ∈ name.toList, (!(c == '.' || c == '[')) = true := by
      intro c hc
      simpa using hname c hc
    rintro (rfl | ⟨c, rest, hc, hpath⟩)
    · rw [rootAttribute, List.takeWhile_eq_self_iff.2 hall, String.ofList_toList]
    · have hstop : (!(c == '.' || c == '[')) = false := by
        rcases hc with rfl | rfl <;> rfl
      rw [rootAttribute, hpath, List.takeWhile_append_of_pos hall, List.takeWhile_cons, hstop]
      simp

/-! ### Keys -/

/-- A key has a value for each key attribute, unless it has none for one or one too many. -/
theorem Key.exists_toItem {k : Key} {s : TableSchema} (h : k.sort.isSome = s.sortKey.isSome) :
    ∃ item, k.toItem s = .ok item := by
  unfold toItem
  split
  · exact ⟨_, rfl⟩
  · next hsort hkey => simp [hsort, hkey] at h
  · next hsort hkey => simp [hsort, hkey] at h
  · exact ⟨_, rfl⟩

/-- **The key attributes with the values of a key.** -/
theorem Key.toItem_spec {k : Key} {s : TableSchema} {item : Item} (h : k.toItem s = .ok item) :
    k.sort.isSome = s.sortKey.isSome ∧
      (s.sortKey ≠ some s.partitionKey →
        (Dict.names item).Perm s.keyAttributes ∧ item.get? s.partitionKey = some k.partition ∧
          ∀ name, s.sortKey = some name → item.get? name = k.sort) := by
  unfold toItem at h
  split at h
  · next key value hkey hsort =>
    obtain rfl := Except.ok.inj h
    rw [hkey, hsort]
    refine ⟨rfl, fun hdiffer => ?_⟩
    have hne : s.partitionKey ≠ key := fun heq => hdiffer (by rw [heq])
    have hshows : ∀ name, Dict.get? (Dict.ofList [(s.partitionKey, k.partition), (key, value)])
        name = if name = key then some value else
          if name = s.partitionKey then some k.partition else none := fun name => by
      rw [Dict.ofList, List.foldl_cons, List.foldl_cons, List.foldl_nil, Dict.get?_insert,
        Dict.get?_insert, Dict.get?_nil]
    refine ⟨?_, ?_, ?_⟩
    · have hkeys : s.keyAttributes = [s.partitionKey, key] := by
        rw [TableSchema.keyAttributes, hkey]
        rfl
      rw [hkeys, Dict.ofList, List.foldl_cons, List.foldl_cons, List.foldl_nil, Dict.insert_nil]
      unfold Dict.insert
      split
      · exact .swap _ _ _
      · rw [if_neg (Ne.symm hne)]
        rfl
    · rw [hshows, if_neg hne, if_pos rfl]
    · rintro name hname
      obtain rfl := Option.some.inj hname
      rw [hshows, if_pos rfl]
  · cases h
  · cases h
  · next hkey hsort =>
    obtain rfl := Except.ok.inj h
    rw [hkey, hsort]
    refine ⟨rfl, fun _ => ⟨?_, ?_, ?_⟩⟩
    · rw [TableSchema.keyAttributes, hkey]
      rfl
    · rw [Dict.get?_cons, if_pos rfl]
    · rintro name ⟨⟩

theorem Key.toItem_ne_error {e : Error} (he : e.isValidation = false) (k : Key) (s : TableSchema) :
    k.toItem s ≠ .error e := by
  unfold toItem
  split
  · simp
  · exact fun h => Error.ne_invalid he _ (Except.error.inj h).symm
  · exact fun h => Error.ne_invalid he _ (Except.error.inj h).symm
  · simp

namespace Update

/-! ### Sound updates -/

/-- **What is checked of an update** besides its expressions: no step has left an error, something
is changed, all key attributes have a value and no other has one, no key attribute is changed, and
no path is changed twice. -/
structure IsSound (u : Update) : Prop where
  error : u.error? = none
  changes : u.changes ≠ []
  partition : u.partition.isSome = true
  sort : u.sort.isSome = u.schema.sortKey.isSome
  spares : ∀ c ∈ u.changes, rootAttribute c.path ∉ u.schema.keyAttributes
  distinct : (u.changes.map Change.path).Nodup

/-- Changes are right after others if each spares the keys and all paths differ. -/
theorem invalidChange?_eq_none_iff {keys earlier : List String} {cs : List Change} :
    invalidChange? keys earlier cs = none ↔
      (∀ c ∈ cs, rootAttribute c.path ∉ keys ∧ c.path ∉ earlier) ∧
        (cs.map Change.path).Nodup := by
  induction cs generalizing earlier with
  | nil => simp [invalidChange?]
  | cons c rest ih =>
      unfold invalidChange?
      rw [List.forall_mem_cons, List.map_cons, List.nodup_cons]
      by_cases hkey : rootAttribute c.path ∈ keys
      · simp [hkey]
      · by_cases hearlier : c.path ∈ earlier
        · simp [hkey, hearlier]
        · rw [if_neg (by simpa using hkey), if_neg (by simpa using hearlier), ih]
          constructor
          · rintro ⟨hrest, hdistinct⟩
            refine ⟨⟨⟨hkey, hearlier⟩, fun d hd => ⟨(hrest d hd).1, fun hmem =>
              (hrest d hd).2 (List.mem_cons_of_mem _ hmem)⟩⟩, fun hmem => ?_, hdistinct⟩
            obtain ⟨d, hd, hpath⟩ := List.mem_map.1 hmem
            exact (hrest d hd).2 (hpath ▸ List.mem_cons_self)
          · rintro ⟨⟨-, hrest⟩, hother, hdistinct⟩
            refine ⟨fun d hd => ⟨(hrest d hd).1, fun hmem => ?_⟩, hdistinct⟩
            rcases List.mem_cons.1 hmem with hpath | hmem
            · exact hother (List.mem_map.2 ⟨d, hd, hpath⟩)
            · exact (hrest d hd).2 hmem

variable {u : Update}

/-- **An update that has an item is sound**, and the item has the values of its key. -/
theorem target_spec {key : Item} (h : u.target = .ok key) :
    u.IsSound ∧ ∃ v, u.partition = some v ∧
      Key.toItem { partition := v, sort := u.sort } u.schema = .ok key := by
  unfold target at h
  obtain ⟨parts, hparts, h⟩ := bind_eq_ok h
  split at h
  · cases h
  · next hchanges =>
    obtain ⟨v, hv, h⟩ := bind_eq_ok h
    obtain ⟨item, hitem, h⟩ := bind_eq_ok h
    split at h
    · cases h
    · next hvalid =>
      obtain rfl := Except.ok.inj h
      have hpartition : u.partition = some v := by
        unfold partitionValue at hv
        split at hv
        · next hsome => rw [hsome, Except.ok.inj hv]
        · cases hv
      obtain ⟨hspares, hdistinct⟩ := invalidChange?_eq_none_iff.1 hvalid
      refine ⟨⟨?_, by simpa using hchanges, by rw [hpartition]; rfl, (Key.toItem_spec hitem).1,
        fun c hc => (hspares c hc).1, hdistinct⟩, v, hpartition, hitem⟩
      cases herror : u.error? with
      | none => rfl
      | some e => rw [ConditionSet.parts_of_error herror] at hparts; cases hparts

/-- **A sound update has an item.** -/
theorem IsSound.exists_target (h : u.IsSound) : ∃ key, u.target = .ok key := by
  obtain ⟨v, hv⟩ := Option.isSome_iff_exists.1 h.partition
  obtain ⟨key, hkey⟩ := Key.exists_toItem (k := { partition := v, sort := u.sort }) h.sort
  have hparts : u.conditions.parts = .ok (u.conditions.conditions, u.conditions.fragments) := by
    rw [ConditionSet.parts, show u.conditions.error = none from h.error]
  have hvalid : invalidChange? u.schema.keyAttributes [] u.changes = none :=
    invalidChange?_eq_none_iff.2 ⟨fun c hc => ⟨h.spares c hc, List.not_mem_nil⟩, h.distinct⟩
  refine ⟨key, ?_⟩
  unfold target
  rw [hparts, partitionValue, hv]
  simp [bind, Except.bind, h.changes, hkey, hvalid]

/-- Without an error of a step all that can be wrong is wrong in itself. -/
theorem target_ne_error {e : Error} (he : e.isValidation = false) (hu : u.error? = none) :
    u.target ≠ .error e := by
  have hinvalid : ∀ {β : Type} (cause : Invalid), (.error (.invalid cause) : Except Error β) ≠
      .error e := fun cause h => Error.ne_invalid he cause (Except.error.inj h).symm
  unfold target
  refine bind_ne_error ?_ fun _ => ?_
  · rw [ConditionSet.parts, show u.conditions.error = none from hu]
    simp
  · split
    · exact hinvalid _
    · refine bind_ne_error ?_ fun v => bind_ne_error (Key.toItem_ne_error he _ _) fun key => ?_
      · unfold partitionValue
        split
        · simp
        · exact hinvalid _
      · split
        · exact hinvalid _
        · simp

/-- **An update that is not sound is refused.** -/
theorem refused_of_not_isSound (hu : u.error? = none) (h : ¬u.IsSound) :
    ∃ e, u.compile = .error e ∧ e.isValidation = true := by
  cases htarget : u.target with
  | ok key => exact absurd (target_spec htarget).1 h
  | error e =>
      refine ⟨e, by rw [compile_eq, htarget]; rfl, ?_⟩
      exact kind_of_error (fun _ hother => target_ne_error hother hu) htarget

/-- An update that is compiled has an item. -/
theorem target_of_compile {t : UpdateRequest} (h : u.compile = .ok t) : u.target = .ok t.key := by
  rw [compile_eq] at h
  obtain ⟨key, hkey, h⟩ := bind_eq_ok h
  obtain ⟨e, -, rfl⟩ := map_eq_ok h
  exact hkey

/-! ### The item of an update -/

/-- **An update that is sent is for exactly one item, and never changes its key.**  The key of the
request has a value for each key attribute and nothing else, namely the one that was given last;
there is a change, and none lies within a key attribute.  If one of this is missing, and no step has
left an error, the update is refused. -/
theorem addresses_one_item {ν : Type} [AsOperand ν] {s : TableSchema} (hs : s.validate = .ok ())
    (hkeys : ∀ key ∈ s.keyAttributes, ∀ c ∈ key.toList, c ≠ '.' ∧ c ≠ '[')
    (us : List (Nat × Step ν)) :
    let u := (Update.new s).stepsAt us
    let partition : Option Value := lastOf (us.filterMap fun x => x.2.says? x.1 .partition) none
    let sort : Option Value := lastOf (us.filterMap fun x => x.2.says? x.1 .sort) none
    let changes := us.filterMap fun x => x.2.change?
    (∀ t, u.compile = .ok t →
      -- the key attributes, each with the value given last
      (Dict.names t.key).Perm s.keyAttributes ∧ partition.isSome = true ∧
      t.key.get? s.partitionKey = partition ∧
      (∀ name, s.sortKey = some name → t.key.get? name = sort) ∧
      -- some change, and none of the key
      changes ≠ [] ∧ ∀ c ∈ changes, ∀ key ∈ s.keyAttributes, ¬IsWithin c.path key) ∧
    (u.error? = none →
      partition = none ∨ sort.isSome ≠ s.sortKey.isSome ∨ changes = [] ∨
        (∃ c ∈ changes, ∃ key ∈ s.keyAttributes, IsWithin c.path key) →
      ∃ e, u.compile = .error e ∧ e.isValidation = true) := by
  intro u partition sort changes
  -- what the steps have said is what the update has
  have hsaid (hu : u.error? = none) : u.partition = partition ∧ u.sort = sort ∧
      u.changes = changes ∧ u.schema = s := by
    have htook : (Update.new s).Took us u := took_of_error_none hu
    exact ⟨htook.settings .partition, htook.settings .sort, htook.changes, htook.table⟩
  constructor
  · intro t ht
    have htarget := target_of_compile ht
    obtain ⟨hsound, v, hv, hitem⟩ := target_spec htarget
    obtain ⟨hpartition, hsort, hchanges, hschema⟩ := hsaid hsound.error
    rw [hschema] at hitem
    obtain ⟨hnames, hfirst, hsecond⟩ := (Key.toItem_spec hitem).2
      (TableSchema.validate_iff_isUnambiguous.1 hs).keys.ne
    rw [← hpartition, ← hsort, ← hchanges]
    refine ⟨hnames, hsound.partition, hfirst.trans hv.symm, hsecond, hsound.changes,
      fun c hc key hkey hwithin => ?_⟩
    have hroot : rootAttribute c.path = key := (rootAttribute_eq_iff (hkeys key hkey)).2 hwithin
    exact hsound.spares c hc (by rw [hschema, hroot]; exact hkey)
  · intro hu hmissing
    obtain ⟨hpartition, hsort, hchanges, hschema⟩ := hsaid hu
    refine refused_of_not_isSound hu fun hsound => ?_
    rcases hmissing with hnone | hunfit | hempty | ⟨c, hc, key, hkey, hwithin⟩
    · have hsome := hsound.partition
      rw [hpartition, hnone] at hsome
      cases hsome
    · exact hunfit (by rw [← hsort, ← hschema]; exact hsound.sort)
    · exact hsound.changes (hchanges.trans hempty)
    · have hroot : rootAttribute c.path = key := (rootAttribute_eq_iff (hkeys key hkey)).2 hwithin
      exact hsound.spares c (by rw [hchanges]; exact hc) (by rw [hschema, hroot]; exact hkey)

end Update

/-! ### A library -/

namespace Library

/-- Books that each stand in one place. -/
def shelved : TableSchema :=
  { table := "library", partitionKey := "owner", sortKey := some "place", attributes := ["title"] }

/-- Another title for a book of ann's in the hall, not for one of bob's in the attic. -/
def retitledInTheHall : List (Nat × Update.Step) :=
  [(0, .ofPartition (.text "bob")), (0, .ofSort (.text "attic")),
    (1, .ofKey { partition := .text "ann", sort := some (.text "hall") }),
    (2, .apply .set "title" (.text "Emma"))]

/-- Another row in the hall as well. -/
def movedInTheHall : List (Nat × Update.Step) :=
  retitledInTheHall ++ [(3, .apply .increment "place.row" (.int 1))]

end Library

/-- A book gets another title, and another place in no way. -/
theorem library_moves_no_book :
    Library.shelved.validate = .ok () ∧
      (∃ t, ((Update.new Library.shelved).stepsAt Library.retitledInTheHall).compile = .ok t ∧
        (Dict.names t.key).Perm ["owner", "place"] ∧
        t.key.get? "owner" = some (.text "ann") ∧ t.key.get? "place" = some (.text "hall")) ∧
      ∃ e, ((Update.new Library.shelved).stepsAt Library.movedInTheHall).compile = .error e ∧
        e.isValidation = true := by
  have hvalid : Library.shelved.validate = .ok () := rfl
  have hkeys : ∀ key ∈ Library.shelved.keyAttributes, ∀ c ∈ key.toList, c ≠ '.' ∧ c ≠ '[' := by
    have hplain : (Library.shelved.keyAttributes.all fun key =>
        key.toList.all fun c => c != '.' && c != '[') = true := by decide
    simpa only [List.all_eq_true, Bool.and_eq_true, bne_iff_ne] using hplain
  obtain ⟨hsent, -⟩ := Update.addresses_one_item hvalid hkeys Library.retitledInTheHall
  obtain ⟨-, hrefused⟩ := Update.addresses_one_item hvalid hkeys Library.movedInTheHall
  refine ⟨hvalid, ?_, hrefused rfl (.inr (.inr (.inr ?_)))⟩
  · have hcompiles : ((Update.new Library.shelved).stepsAt
        Library.retitledInTheHall).compile.toOption.isSome = true := by decide +kernel
    cases hcompile : ((Update.new Library.shelved).stepsAt Library.retitledInTheHall).compile with
    | error e => rw [hcompile] at hcompiles; cases hcompiles
    | ok t =>
        obtain ⟨hnames, -, hfirst, hsecond, -⟩ := hsent t hcompile
        exact ⟨t, rfl, hnames, hfirst, hsecond "place" rfl⟩
  · exact ⟨.apply .increment "place.row" (.number "1"), List.mem_cons_of_mem _ List.mem_cons_self,
      "place", List.mem_cons_of_mem _ List.mem_cons_self,
      .inr ⟨'.', ['r', 'o', 'w'], .inl rfl, by decide⟩⟩

end Keyspace
