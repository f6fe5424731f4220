import Keyspace.Proofs.Attribute.Tagged
import Keyspace.Wire.Form
/-!
# What a reply holds

A known value that was written as tagged JSON is the value that a reply with this JSON holds, down
to the flags of its nulls, and so are known items.  A reply has the form of a record if it is an
object in which each named member has the form of its name; so a form can be checked one member
at a time.

Main definitions:

* `Keyspace.Wire.Form.without` — the form of a record that says nothing of one member.

Main results:

* `Keyspace.Wire.value?_toJson`, `Keyspace.Wire.item?_toJson` — **known values and items come
  back as they are**;
* `Keyspace.Wire.fits_item`, `Keyspace.Wire.Form.fits_record_iff` — what has a form;
* `Keyspace.Wire.Form.fits_of_without` — one member apart from the others.
-/

set_option autoImplicit false

namespace Keyspace.Wire

open Value (listToJson entriesToJson allKnown entriesKnown)

/-! ### Values -/

/-- An object with one member that counts holds the value of that member. -/
theorem value?_tagged {tag : String} {inner : Json} (h : isIdle tag inner = false) :
    value? (.object [(tag, inner)]) = under? tag inner := by
  simp only [value?, variants?, h]
  cases under? tag inner <;> rfl

/-- The array under the tag of a flat value is read as what stands there. -/
theorem under?_flat {tag : String} {xs : List Json} {v : Value} (hl : tag ≠ "L") (hm : tag ≠ "M")
    (h : Value.flatUnder Value.strictNull tag (.array xs) = .ok v) :
    under? tag (.array xs) = some v := by
  simp [under?, flat?, hl, hm, h]

mutual

/-- **A known value comes back as it is.** -/
theorem value?_toJson : ∀ v : Value, v.isKnown = true → value? v.toJson = some v
  | .text _, _ => rfl
  | .number _, _ => rfl
  | .binary b, _ => by
      have hflat := Value.flatUnder_binary Value.strictNull b
      rw [Value.toJson, value?_tagged rfl]
      show flat? "B" (Value.binaryJson b) = _
      simp [flat?, hflat]
  | .bool _, _ => rfl
  | .null _, _ => rfl
  | .texts ss, _ =>
      (value?_tagged rfl).trans (under?_flat (by decide) (by decide) (Value.flatUnder_texts _ ss))
  | .numbers ns, _ =>
      (value?_tagged rfl).trans (under?_flat (by decide) (by decide) (Value.flatUnder_numbers _ ns))
  | .binaries bs, _ =>
      (value?_tagged rfl).trans
        (under?_flat (by decide) (by decide) (Value.flatUnder_binaries _ bs))
  | .list vs, h => by
      rw [Value.toJson, value?_tagged rfl]
      show (values? (listToJson vs)).map Value.list = _
      rw [values?_listToJson vs h]
      rfl
  | .map es, h => by
      rw [Value.toJson, value?_tagged rfl]
      show (entries? (entriesToJson es)).map Value.map = _
      rw [entries?_entriesToJson es h]
      rfl
  | .unknown, h => by cases h

theorem values?_listToJson : ∀ vs : List Value, allKnown vs = true →
    values? (listToJson vs) = some vs
  | [], _ => rfl
  | v :: vs, h => by
      obtain ⟨hv, hvs⟩ := Bool.and_eq_true_iff.1 h
      simp only [listToJson, values?, value?_toJson v hv, values?_listToJson vs hvs]
      rfl

theorem entries?_entriesToJson : ∀ es : List (String × Value), entriesKnown es = true →
    entries? (entriesToJson es) = some es
  | [], _ => rfl
  | (_, v) :: es, h => by
      obtain ⟨hv, hes⟩ := Bool.and_eq_true_iff.1 h
      simp only [entriesToJson, entries?, value?_toJson v hv, entries?_entriesToJson es hes]
      rfl

end

/-- **A known item comes back as it is.** -/
theorem item?_toJson {item : Item} (h : item.isKnown = true) : item? item.toJson = some item :=
  entries?_entriesToJson item h

/-! ### Forms -/

theorem isSome_entries? (ms : List (String × Json)) :
    (entries? ms).isSome = ms.all fun m => (value? m.2).isSome := by
  induction ms with
  | nil => rfl
  | cons m ms ih =>
      obtain ⟨name, x⟩ := m
      rw [List.all_cons, ← ih, entries?]
      cases value? x <;> cases entries? ms <;> rfl

/-- **What has the form of an item is read as one**, and nothing else is. -/
theorem fits_item (j : Json) : Form.item.fits j = (item? j).isSome := by
  cases j with
  | object ms =>
      rw [Form.item, Form.fits, item?]
      simp only [Form.fits]
      exact (isSome_entries? ms).symm
  | _ => rfl

namespace Form

theorem fitsMembers_iff {fs : List (String × Form)} {ms : Dict Json} :
    fitsMembers fs ms = true ↔
      ∀ e ∈ fs, ∀ x, (Json.object ms).get? e.1 = some x → e.2.fits x = true := by
  induction fs with
  | nil => simp [fitsMembers]
  | cons e fs ih =>
      obtain ⟨name, f⟩ := e
      rw [fitsMembers, Bool.and_eq_true, ih, List.forall_mem_cons]
      refine and_congr_left fun _ => ?_
      cases (Json.object ms).get? name <;> simp

/-- **A record is an object in which every member has the form of its name.** -/
theorem fits_record_iff {fs : List (String × Form)} {j : Json} :
    (record fs).fits j = true ↔
      (∃ ms, j = .object ms) ∧ ∀ e ∈ fs, ∀ x, j.get? e.1 = some x → e.2.fits x = true := by
  cases j with
  | object ms => simp [fits, fitsMembers_iff]
  | _ => simp [fits]

/-- The form of a record that says nothing of the member `name`. -/
def without (name : String) : Form → Form
  | record fs => record (fs.filter fun e => e.1 != name)
  | f => f

/-- A record with a member that has the form of its name, and the others have theirs. -/
theorem fits_of_without {fs : List (String × Form)} {name : String} {j : Json}
    (h : ((record fs).without name).fits j = true)
    (hmember : ∀ f x, (name, f) ∈ fs → j.get? name = some x → f.fits x = true) :
    (record fs).fits j = true := by
  obtain ⟨hobject, hothers⟩ := fits_record_iff.1 h
  refine fits_record_iff.2 ⟨hobject, fun e he x hx => ?_⟩
  by_cases hname : e.1 = name
  · subst hname
    exact hmember e.2 x he hx
  · exact hothers e (List.mem_filter.2 ⟨he, by simpa using hname⟩) x hx

end Form

end Keyspace.Wire
