import Keyspace.Attribute.Tagged
import Keyspace.Proofs.Bytes.Base64
import Keyspace.Proofs.Json.Shape
/-!
# Tagged values are read back

A known value is read back from its tagged JSON, with every null flag set.  Written as tagged
JSON it holds no numbers of JSON, its objects are in order if its maps are, and each list and each
map in it makes two arrays and objects inside each other.

Main definitions:

* `Keyspace.Value.nesting` — the number of lists and maps inside each other;
* `Keyspace.Value.isOrdered` — the maps in a value are dictionaries.

Main results:

* `Keyspace.Value.ofJson_toJson` — **a known value is read back**;
* `Keyspace.Value.isSpelt_toJson`, `Keyspace.Value.canonical_toJson`,
  `Keyspace.Value.depth_toJson_le` — what tagged JSON looks like.
-/

set_option autoImplicit false

namespace Keyspace

instance Dict.decidableSorted {α : Type} (d : Dict α) : Decidable d.Sorted :=
  inferInstanceAs (Decidable (List.Pairwise _ _))

namespace Value

mutual

/-- The number of lists and maps inside each other. -/
def nesting : Value → Nat
  | .list vs => nestingOfList vs + 1
  | .map es => nestingOfEntries es + 1
  | _ => 0

/-- The nesting of the deepest value of a list. -/
def nestingOfList : List Value → Nat
  | [] => 0
  | v :: vs => max (nesting v) (nestingOfList vs)

/-- The nesting of the deepest value of a map. -/
def nestingOfEntries : List (String × Value) → Nat
  | [] => 0
  | (_, v) :: es => max (nesting v) (nestingOfEntries es)

end

mutual

/-- Whether the entries of every map in a value are in the order of a dictionary. -/
def isOrdered : Value → Bool
  | .list vs => allOrdered vs
  | .map es => decide (Dict.Sorted es) && entriesOrdered es
  | _ => true

/-- Whether the maps in all values of a list are in order. -/
def allOrdered : List Value → Bool
  | [] => true
  | v :: vs => isOrdered v && allOrdered vs

/-- Whether the maps in all values of a map are in order. -/
def entriesOrdered : List (String × Value) → Bool
  | [] => true
  | (_, v) :: es => isOrdered v && entriesOrdered es

end

/-! ### The shape of tagged JSON -/

theorem areSpelt_map {α : Type} {f : α → Json} (h : ∀ a, (f a).isSpelt = true) (xs : List α) :
    Json.areSpelt (xs.map f) = true := by
  induction xs with
  | nil => rfl
  | cons x xs ih => simp [Json.areSpelt, h, ih]

theorem areCanonical_map {α : Type} {f : α → Json} (h : ∀ a, (f a).Canonical) (xs : List α) :
    Json.AreCanonical (xs.map f) := by
  induction xs with
  | nil => trivial
  | cons x xs ih => exact ⟨h x, ih⟩

theorem depthOfElements_map {α : Type} {f : α → Json} (h : ∀ a, (f a).depth = 0) (xs : List α) :
    Json.depthOfElements (xs.map f) = 0 := by
  induction xs with
  | nil => rfl
  | cons x xs ih => simp [Json.depthOfElements, h, ih]

theorem names_entriesToJson (es : List (String × Value)) :
    Dict.names (entriesToJson es) = Dict.names es := by
  induction es with
  | nil => rfl
  | cons e es ih =>
      obtain ⟨name, v⟩ := e
      simpa [entriesToJson, Dict.names] using ih

/-- An object with one member holds the numbers of that member. -/
theorem isSpelt_tagged {tag : String} {j : Json} (h : j.isSpelt = true) :
    (Json.object [(tag, j)]).isSpelt = true := by
  simp [Json.isSpelt, Json.membersSpelt, h]

mutual

/-- **Tagged JSON holds no numbers.** -/
theorem isSpelt_toJson : ∀ v : Value, v.toJson.isSpelt = true
  | .text _ => rfl
  | .number _ => rfl
  | .binary _ => rfl
  | .bool _ => rfl
  | .null _ => rfl
  | .texts ss => isSpelt_tagged (areSpelt_map (fun _ => rfl) ss)
  | .numbers ns => isSpelt_tagged (areSpelt_map (fun _ => rfl) ns)
  | .binaries bs => isSpelt_tagged (areSpelt_map (fun _ => rfl) bs)
  | .list vs => isSpelt_tagged (areSpelt_listToJson vs)
  | .map es => isSpelt_tagged (membersSpelt_entriesToJson es)
  | .unknown => rfl

theorem areSpelt_listToJson : ∀ vs : List Value, Json.areSpelt (listToJson vs) = true
  | [] => rfl
  | v :: vs => by
      simp only [listToJson, Json.areSpelt, isSpelt_toJson v, areSpelt_listToJson vs]
      rfl

theorem membersSpelt_entriesToJson : ∀ es : List (String × Value),
    Json.membersSpelt (entriesToJson es) = true
  | [] => rfl
  | (_, v) :: es => by
      simp only [entriesToJson, Json.membersSpelt, isSpelt_toJson v, membersSpelt_entriesToJson es]
      rfl

end

/-- An object with one member is in order. -/
theorem canonical_tagged {tag : String} {j : Json} (h : j.Canonical) :
    (Json.object [(tag, j)]).Canonical :=
  ⟨List.pairwise_singleton _ _, h, trivial⟩

mutual

/-- **Tagged JSON is in order** if the value is. -/
theorem canonical_toJson : ∀ v : Value, v.isOrdered = true → v.toJson.Canonical
  | .text _, _ => canonical_tagged trivial
  | .number _, _ => canonical_tagged trivial
  | .binary _, _ => canonical_tagged trivial
  | .bool _, _ => canonical_tagged trivial
  | .null _, _ => canonical_tagged trivial
  | .texts ss, _ => canonical_tagged (areCanonical_map (f := Json.string) (fun _ => trivial) ss)
  | .numbers ns, _ => canonical_tagged (areCanonical_map (f := Json.string) (fun _ => trivial) ns)
  | .binaries bs, _ => canonical_tagged (areCanonical_map (f := binaryJson) (fun _ => trivial) bs)
  | .list vs, h => canonical_tagged (areCanonical_listToJson vs h)
  | .map es, h => by
      obtain ⟨hsorted, hall⟩ := Bool.and_eq_true_iff.1 h
      refine canonical_tagged ⟨?_, membersCanonical_entriesToJson es hall⟩
      rw [Dict.Sorted, names_entriesToJson]
      exact of_decide_eq_true hsorted
  | .unknown, _ => trivial

theorem areCanonical_listToJson : ∀ vs : List Value, allOrdered vs = true →
    Json.AreCanonical (listToJson vs)
  | [], _ => trivial
  | v :: vs, h =>
      have hall := Bool.and_eq_true_iff.1 h
      ⟨canonical_toJson v hall.1, areCanonical_listToJson vs hall.2⟩

theorem membersCanonical_entriesToJson : ∀ es : List (String × Value), entriesOrdered es = true →
    Json.MembersCanonical (entriesToJson es)
  | [], _ => trivial
  | (_, v) :: es, h =>
      have hall := Bool.and_eq_true_iff.1 h
      ⟨canonical_toJson v hall.1, membersCanonical_entriesToJson es hall.2⟩

end

mutual

/-- **Each list and each map makes two arrays and objects inside each other.** -/
theorem depth_toJson_le : ∀ v : Value, v.toJson.depth ≤ 2 * v.nesting + 2
  | .text _ => by simp [toJson, Json.depth, Json.depthOfMembers]
  | .number _ => by simp [toJson, Json.depth, Json.depthOfMembers]
  | .binary _ => by simp [toJson, binaryJson, Json.depth, Json.depthOfMembers]
  | .bool _ => by simp [toJson, Json.depth, Json.depthOfMembers]
  | .null _ => by simp [toJson, Json.depth, Json.depthOfMembers]
  | .texts ss => by
      have hzero := depthOfElements_map (f := Json.string) (fun _ => rfl) ss
      simp [toJson, Json.depth, Json.depthOfMembers, hzero]
  | .numbers ns => by
      have hzero := depthOfElements_map (f := Json.string) (fun _ => rfl) ns
      simp [toJson, Json.depth, Json.depthOfMembers, hzero]
  | .binaries bs => by
      have hzero := depthOfElements_map (f := binaryJson) (fun _ => rfl) bs
      simp [toJson, Json.depth, Json.depthOfMembers, hzero]
  | .list vs => by
      have hall := depthOfElements_listToJson_le vs
      simp only [toJson, Json.depth, Json.depthOfMembers, nesting]
      omega
  | .map es => by
      have hall := depthOfMembers_entriesToJson_le es
      simp only [toJson, Json.depth, Json.depthOfMembers, nesting]
      omega
  | .unknown => by simp [toJson, Json.depth]

theorem depthOfElements_listToJson_le : ∀ vs : List Value,
    Json.depthOfElements (listToJson vs) ≤ 2 * nestingOfList vs + 2
  | [] => by simp [listToJson, Json.depthOfElements]
  | v :: vs => by
      have hv := depth_toJson_le v
      have hvs := depthOfElements_listToJson_le vs
      simp only [listToJson, Json.depthOfElements, nestingOfList]
      omega

theorem depthOfMembers_entriesToJson_le : ∀ es : List (String × Value),
    Json.depthOfMembers (entriesToJson es) ≤ 2 * nestingOfEntries es + 2
  | [] => by simp [entriesToJson, Json.depthOfMembers]
  | (_, v) :: es => by
      have hv := depth_toJson_le v
      have hes := depthOfMembers_entriesToJson_le es
      simp only [entriesToJson, Json.depthOfMembers, nestingOfEntries]
      omega

end

/-! ### Reading -/

theorem mapM_ok {α β : Type} {f : α → Except Fault β} {g : β → α} (h : ∀ b, f (g b) = .ok b)
    (bs : List β) : (bs.map g).mapM f = .ok bs := by
  induction bs with
  | nil => rfl
  | cons b bs ih =>
      simp only [List.map_cons, List.mapM_cons, h, ih]
      rfl

theorem binaryOf_encode (b : List UInt8) :
    binaryOf (String.ofList (Bytes.Base64.encode Bytes.Base64.standard b)) = .ok b := by
  rw [binaryOf, String.toList_ofList, Bytes.Base64.decode_encode Bytes.Base64.standard_lawful]

/-- Texts under the tag of a set. -/
theorem textsUnder_map (tag : String) (ss : List String) :
    textsUnder tag (.array (ss.map .string)) = .ok ss :=
  mapM_ok (f := textUnder tag) (fun _ => rfl) ss

/-- Byte strings under the tag of a set are written as texts. -/
theorem textsUnder_binaries (tag : String) (bs : List (List UInt8)) :
    textsUnder tag (.array (bs.map binaryJson)) =
      .ok (bs.map fun b => String.ofList (Bytes.Base64.encode Bytes.Base64.standard b)) := by
  have htexts : bs.map binaryJson = (bs.map fun b =>
      String.ofList (Bytes.Base64.encode Bytes.Base64.standard b)).map .string := by
    rw [List.map_map]
    rfl
  rw [htexts, textsUnder_map]

/-- Bytes, however nulls are read. -/
theorem flatUnder_binary (rule : NullRule) (b : List UInt8) :
    flatUnder rule "B" (binaryJson b) = .ok (.binary b) := by
  simp [flatUnder, binaryJson, textUnder, binaryOf_encode, bind, Except.bind]

/-- A set of texts, however nulls are read. -/
theorem flatUnder_texts (rule : NullRule) (ss : List String) :
    flatUnder rule "SS" (.array (ss.map .string)) = .ok (.texts ss) := by
  simp [flatUnder, textsUnder_map, Except.map]

/-- A set of numbers, however nulls are read. -/
theorem flatUnder_numbers (rule : NullRule) (ns : List String) :
    flatUnder rule "NS" (.array (ns.map .string)) = .ok (.numbers ns) := by
  simp [flatUnder, textsUnder_map, Except.map]

/-- A set of byte strings, however nulls are read. -/
theorem flatUnder_binaries (rule : NullRule) (bs : List (List UInt8)) :
    flatUnder rule "BS" (.array (bs.map binaryJson)) = .ok (.binaries bs) := by
  have hbytes := mapM_ok binaryOf_encode bs
  simp [flatUnder, textsUnder_binaries, hbytes, bind, Except.bind]

mutual

/-- **A known value is read back**, with every null flag set. -/
theorem ofJson_toJson : ∀ v : Value, v.isKnown = true →
    ofJson anyNull v.toJson = .ok v.presentNulls
  | .text _, _ => rfl
  | .number _, _ => rfl
  | .binary b, _ => flatUnder_binary anyNull b
  | .bool _, _ => rfl
  | .null _, _ => rfl
  | .texts ss, _ => flatUnder_texts anyNull ss
  | .numbers ns, _ => flatUnder_numbers anyNull ns
  | .binaries bs, _ => flatUnder_binaries anyNull bs
  | .list vs, h => by
      show (ofElements anyNull (listToJson vs)).map Value.list = _
      rw [ofElements_listToJson vs h]
      rfl
  | .map es, h => by
      show (ofMembers anyNull (entriesToJson es)).map Value.map = _
      rw [ofMembers_entriesToJson es h]
      rfl
  | .unknown, h => by cases h

theorem ofElements_listToJson : ∀ vs : List Value, allKnown vs = true →
    ofElements anyNull (listToJson vs) = .ok (presentNullsOfList vs)
  | [], _ => rfl
  | v :: vs, h => by
      obtain ⟨hv, hvs⟩ := Bool.and_eq_true_iff.1 h
      simp only [listToJson, ofElements, ofJson_toJson v hv, ofElements_listToJson vs hvs]
      rfl

theorem ofMembers_entriesToJson : ∀ es : List (String × Value), entriesKnown es = true →
    ofMembers anyNull (entriesToJson es) = .ok (presentNullsOfEntries es)
  | [], _ => rfl
  | (_, v) :: es, h => by
      obtain ⟨hv, hes⟩ := Bool.and_eq_true_iff.1 h
      simp only [entriesToJson, ofMembers, ofJson_toJson v hv, ofMembers_entriesToJson es hes]
      rfl

end

end Value

end Keyspace
