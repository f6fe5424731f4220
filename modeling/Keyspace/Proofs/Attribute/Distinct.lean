import Keyspace.Proofs.Attribute.Tagged
/-!
# Tagged JSON tells values apart

The tag of a value tells its kind, and what stands under the tag tells the rest: the text, the
flag, the Base64 of the bytes, or the tagged values inside.  So no two values are written alike,
not even unknown ones, and neither are two items.

Main results:

* `Keyspace.Value.toJson_inj` — **values that are written alike are the same**;
* `Keyspace.Item.toJson_inj` — and so are items.
-/

set_option autoImplicit false

namespace Keyspace

namespace Value

/-- Bytes are told apart by their Base64. -/
theorem binaryJson_inj {b c : List UInt8} (h : binaryJson b = binaryJson c) : b = c := by
  have hchars := String.ofList_inj.1 (Json.string.inj h)
  have hread := congrArg (Bytes.Base64.decode Bytes.Base64.standard) hchars
  rw [Bytes.Base64.decode_encode Bytes.Base64.standard_lawful,
    Bytes.Base64.decode_encode Bytes.Base64.standard_lawful] at hread
  exact Option.some.inj hread

/-- Arrays of parts that are told apart are told apart. -/
theorem map_inj {α : Type} {f : α → Json} (hf : ∀ {a b}, f a = f b → a = b) {xs ys : List α}
    (h : Json.array (xs.map f) = .array (ys.map f)) : xs = ys :=
  List.map_injective_iff.2 (fun _ _ => hf) (Json.array.inj h)

/-- What stands under a tag. -/
theorem inner_eq {tag : String} {x y : Json}
    (h : Json.object [(tag, x)] = .object [(tag, y)]) : x = y := by
  obtain ⟨hmember, -⟩ := List.cons.inj (Json.object.inj h)
  exact (Prod.mk.inj hmember).2

mutual

/-- **Values that are written alike are the same.** -/
theorem toJson_inj : ∀ {v w : Value}, v.toJson = w.toJson → v = w
  | .text _, w, h => by cases w <;> simp_all [toJson]
  | .number _, w, h => by cases w <;> simp_all [toJson]
  | .bool _, w, h => by cases w <;> simp_all [toJson]
  | .null _, w, h => by cases w <;> simp_all [toJson]
  | .unknown, w, h => by cases w <;> simp_all [toJson]
  | .binary b, w, h => by
      cases w with
      | binary c => rw [binaryJson_inj (inner_eq h)]
      | _ => simp [toJson] at h
  | .texts ss, w, h => by
      cases w with
      | texts ts => rw [map_inj Json.string.inj (inner_eq h)]
      | _ => simp [toJson] at h
  | .numbers ns, w, h => by
      cases w with
      | numbers ms => rw [map_inj Json.string.inj (inner_eq h)]
      | _ => simp [toJson] at h
  | .binaries bs, w, h => by
      cases w with
      | binaries cs => rw [map_inj binaryJson_inj (inner_eq h)]
      | _ => simp [toJson] at h
  | .list vs, w, h => by
      cases w with
      | list ws => rw [listToJson_inj (Json.array.inj (inner_eq h))]
      | _ => simp [toJson] at h
  | .map es, w, h => by
      cases w with
      | map fs => rw [entriesToJson_inj (Json.object.inj (inner_eq h))]
      | _ => simp [toJson] at h

theorem listToJson_inj : ∀ {vs ws : List Value}, listToJson vs = listToJson ws → vs = ws
  | [], [], _ => rfl
  | v :: vs, w :: ws, h => by
      obtain ⟨hfirst, hrest⟩ := List.cons.inj h
      rw [toJson_inj hfirst, listToJson_inj hrest]

theorem entriesToJson_inj : ∀ {es fs : List (String × Value)},
    entriesToJson es = entriesToJson fs → es = fs
  | [], [], _ => rfl
  | (_, v) :: es, (_, w) :: fs, h => by
      obtain ⟨hfirst, hrest⟩ := List.cons.inj h
      obtain ⟨rfl, hvalue⟩ := Prod.mk.inj hfirst
      rw [toJson_inj hvalue, entriesToJson_inj hrest]

end

end Value

/-- **Items that are written alike are the same.** -/
theorem Item.toJson_inj {item other : Item} (h : item.toJson = other.toJson) : item = other :=
  Value.entriesToJson_inj (Json.object.inj h)

end Keyspace
