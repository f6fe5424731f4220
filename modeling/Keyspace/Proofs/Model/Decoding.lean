import Keyspace.Model
/-!
# Errors of decoding

An item that is no value of a model is an error of its own kind.  The models of any data and of
records have no other errors; in particular none of theirs is a timeout.

Main definitions:

* `Keyspace.Model.FailsAsMarshal` — a model whose items fail to be values with errors of decoding
  only;
* `Keyspace.Model.NeverLate` — a model whose values do not fail with a timeout.

Main results:

* `Keyspace.Datum.ofItem_ne_error`, `Keyspace.Model.readRecord_ne_error` — **what cannot be decoded
  is an error of decoding**;
* `Keyspace.Model.dynamic_failsAsMarshal`, `Keyspace.Model.record_failsAsMarshal`,
  `Keyspace.Model.dynamic_neverLate`, `Keyspace.Model.record_neverLate` — the models of any data and
  of records.
-/

set_option autoImplicit false

namespace Keyspace

variable {α β : Type} {e : Error}

/-! ### Errors of several steps -/

/-- An error of two steps is an error of one of them. -/
theorem bind_ne_error {x : Except Error α} {f : α → Except Error β}
    (hx : x ≠ .error e) (hf : ∀ a, f a ≠ .error e) : (x >>= f) ≠ .error e := by
  cases x with
  | ok a => exact hf a
  | error e' => exact fun h => hx (congrArg Except.error (Except.error.inj h))

theorem map_ne_error {x : Except Error α} (f : α → β) (hx : x ≠ .error e) :
    x.map f ≠ .error e := by
  cases x with
  | ok a => simp [Except.map]
  | error e' => exact fun h => hx (congrArg Except.error (Except.error.inj h))

theorem mapM_ne_error {f : α → Except Error β} (hf : ∀ a, f a ≠ .error e)
    (xs : List α) : xs.mapM f ≠ .error e := by
  induction xs with
  | nil => intro h; cases h
  | cons x rest ih =>
      rw [List.mapM_cons]
      exact bind_ne_error (hf x) fun y => bind_ne_error ih fun ys => by simp [pure, Except.pure]

/-- What fails with errors of one kind only has an error of that kind. -/
theorem kind_of_error {kind : Error → Bool} {x : Except Error α}
    (hx : ∀ e, kind e = false → x ≠ .error e) (he : x = .error e) : kind e = true :=
  Bool.of_not_eq_false fun hother => hx e hother he

/-- A result of two steps comes from results of both. -/
theorem bind_eq_ok {ε : Type} {x : Except ε α} {f : α → Except ε β} {b : β}
    (h : (x >>= f) = .ok b) : ∃ a, x = .ok a ∧ f a = .ok b := by
  cases x with
  | ok a => exact ⟨a, rfl, h⟩
  | error e => cases h

/-- What is made of a result is made of one. -/
theorem map_eq_ok {ε : Type} {x : Except ε α} {f : α → β} {b : β} (h : x.map f = .ok b) :
    ∃ a, x = .ok a ∧ f a = b := by
  cases x with
  | ok a => exact ⟨a, rfl, Except.ok.inj h⟩
  | error e => cases h

/-- There are as many results as there were elements. -/
theorem length_of_mapM {f : α → Except Error β} {xs : List α} {ys : List β}
    (h : xs.mapM f = .ok ys) : ys.length = xs.length := by
  induction xs generalizing ys with
  | nil => cases h; rfl
  | cons x rest ih =>
      rw [List.mapM_cons] at h
      obtain ⟨y, -, h⟩ := bind_eq_ok h
      obtain ⟨zs, hzs, h⟩ := bind_eq_ok h
      cases h
      rw [List.length_cons, List.length_cons, ih hzs]

/-! ### Data -/

namespace Datum

theorem ofNumber_ne_error (he : e ≠ .marshal) (digits : String) : ofNumber digits ≠ .error e := by
  unfold ofNumber
  split
  · simp
  · split
    · simp
    · split
      · simp
      · exact fun h => he (Except.error.inj h).symm

mutual

/-- A value without a datum cannot be turned into one, and nothing else is wrong with it. -/
theorem ofValue_ne_error (he : e ≠ .marshal) : (v : Value) → ofValue v ≠ .error e
  | .text s => by simp [ofValue]
  | .number n => by simpa [ofValue] using ofNumber_ne_error he n
  | .binary b => by simp [ofValue]
  | .bool b => by simp [ofValue]
  | .null true => by simp [ofValue]
  | .null false => by simpa [ofValue] using he.symm
  | .texts ss => by simp [ofValue]
  | .numbers ns => by
    simpa [ofValue] using map_ne_error _ (mapM_ne_error (ofNumber_ne_error he) ns)
  | .binaries bs => by simp [ofValue]
  | .list vs => by simpa [ofValue] using map_ne_error _ (ofValues_ne_error he vs)
  | .map es => by simpa [ofValue] using map_ne_error _ (ofEntries_ne_error he es)
  | .unknown => by simpa [ofValue] using he.symm

theorem ofValues_ne_error (he : e ≠ .marshal) : (vs : List Value) → ofValues vs ≠ .error e
  | [] => by simp [ofValues]
  | v :: vs => by
    unfold ofValues
    exact bind_ne_error (ofValue_ne_error he v) fun x =>
      bind_ne_error (ofValues_ne_error he vs) fun xs => by simp

theorem ofEntries_ne_error (he : e ≠ .marshal) :
    (es : List (String × Value)) → ofEntries es ≠ .error e
  | [] => by simp [ofEntries]
  | (name, v) :: es => by
    unfold ofEntries
    exact bind_ne_error (ofValue_ne_error he v) fun x =>
      bind_ne_error (ofEntries_ne_error he es) fun xs => by simp

end

/-- **An item whose values are no data is an error of decoding.** -/
theorem ofItem_ne_error (he : e ≠ .marshal) (item : Item) : ofItem item ≠ .error e :=
  map_ne_error _ (ofEntries_ne_error he item)

end Datum

/-! ### Records -/

namespace FieldKind

theorem textOf_ne_error (he : e ≠ .marshal) (v : Value) : textOf v ≠ .error e := by
  unfold textOf
  split
  · simp
  · exact fun h => he (Except.error.inj h).symm

theorem textOfBytes_ne_error (he : e ≠ .marshal) (bytes : List UInt8) :
    textOfBytes bytes ≠ .error e := by
  unfold textOfBytes
  split
  · simp
  · exact fun h => he (Except.error.inj h).symm

theorem read_ne_error (he : e ≠ .marshal) (kind : FieldKind) (v : Value) :
    kind.read v ≠ .error e := by
  have hmarshal : (.error .marshal : Except Error Datum) ≠ .error e :=
    fun h => he (Except.error.inj h).symm
  unfold read
  split
  · exact textOf_ne_error he v
  · simp
  · exact textOf_ne_error he v
  · split
    · simp
    · exact hmarshal
  · exact map_ne_error _ (mapM_ne_error (textOf_ne_error he) _)
  · simp
  · exact map_ne_error _ (mapM_ne_error (textOfBytes_ne_error he) _)
  · simp
  · exact hmarshal

end FieldKind

theorem Field.read_ne_error (he : e ≠ .marshal) (f : Field) (item : Item) :
    f.read item ≠ .error e := by
  unfold Field.read
  split
  · exact FieldKind.read_ne_error he _ _
  · split
    · exact fun h => he (Except.error.inj h).symm
    · simp

/-- **An item that is no record is an error of decoding.** -/
theorem Model.readRecord_ne_error (he : e ≠ .marshal) (fields : List Field) (item : Item) :
    Model.readRecord fields item ≠ .error e := by
  unfold Model.readRecord
  refine bind_ne_error (Datum.ofEntries_ne_error he _) fun _ => ?_
  refine bind_ne_error (mapM_ne_error (fun f => ?_) fields) fun entries => by simp
  exact bind_ne_error (Field.read_ne_error he f item) fun d => by simp

/-! ### Models -/

/-- An error of several items is an error of one. -/
theorem Model.decodeAll_ne_error {m : Model α} (h : ∀ item, m.decode item ≠ .error e)
    (items : List Item) : m.decodeAll items ≠ .error e := mapM_ne_error h items

theorem Model.decodeOption_ne_error {m : Model α} (h : ∀ item, m.decode item ≠ .error e)
    (item : Option Item) : item.mapM m.decode ≠ .error e := by
  cases item with
  | none => intro herror; cases herror
  | some item => exact map_ne_error _ (h item)

/-- **A model whose items fail to be values with errors of decoding only.** -/
def Model.FailsAsMarshal (m : Model α) : Prop :=
  ∀ item e, e ≠ .marshal → m.decode item ≠ .error e

/-- The model of any data has no other errors than those of decoding. -/
theorem Model.dynamic_failsAsMarshal (name : String) (schema : TableSchema) :
    (Model.dynamic name schema).FailsAsMarshal := fun item _ he => Datum.ofItem_ne_error he item

/-- The model of records has no other errors than those of decoding. -/
theorem Model.record_failsAsMarshal (name : String) (schema : TableSchema)
    (fields : List Field) : (Model.record name schema fields).FailsAsMarshal :=
  fun item _ he => readRecord_ne_error he fields item

/-- A model whose values do not fail with a timeout. -/
def Model.NeverLate (m : Model α) : Prop :=
  ∀ item operation attempts, m.decode item ≠ .error (.timeout operation attempts)

/-- The model of any data is never late. -/
theorem Model.dynamic_neverLate (name : String) (schema : TableSchema) :
    (Model.dynamic name schema).NeverLate := fun item _ _ =>
  Datum.ofItem_ne_error (by simp) item

/-- The model of records is never late. -/
theorem Model.record_neverLate (name : String) (schema : TableSchema) (fields : List Field) :
    (Model.record name schema fields).NeverLate := fun item _ _ =>
  readRecord_ne_error (by simp) fields item

namespace Model.NeverLate

variable {m : Model α}

theorem decodeAll (h : m.NeverLate) (items : List Item) (operation : Operation) (attempts : Nat) :
    m.decodeAll items ≠ .error (.timeout operation attempts) :=
  decodeAll_ne_error (fun item => h item operation attempts) items

theorem decodeOption (h : m.NeverLate) (item : Option Item) (operation : Operation)
    (attempts : Nat) : item.mapM m.decode ≠ .error (.timeout operation attempts) :=
  decodeOption_ne_error (fun item => h item operation attempts) item

end Model.NeverLate

end Keyspace
