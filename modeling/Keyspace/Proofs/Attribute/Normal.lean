import Keyspace.Proofs.Attribute.Tagged
import Keyspace.Proofs.Json.Read
import Keyspace.Proofs.Model.Decoding
import Mathlib.Order.MinMax
/-!
# Values that are read from tagged JSON

Whatever stands in a null is read as a set flag, and of two members of one name the later counts.
So a value that is read from tagged JSON may have been spelled in other words than it would be
written in.  But it is written in words that are read as itself, and these are no deeper than those
it was read from.

Main definitions:

* `Keyspace.Value.Normal` — a value whose JSON is read back as itself within some depth.

Main results:

* `Keyspace.Value.normal_of_ofJson`, `Keyspace.Value.normalEntries_of_ofMembers` — **what is read
  from tagged JSON is normal, and no deeper than the JSON**.
-/

set_option autoImplicit false

namespace Keyspace.Value

/-! ### Normal values -/

/-- **A value whose JSON is read back as itself**, within some depth: it is known, its maps are in
order and its nulls are present. -/
structure Normal (depth : Nat) (v : Value) : Prop where
  known : v.isKnown = true
  ordered : v.isOrdered = true
  present : v.presentNulls = v
  shallow : v.toJson.depth ≤ depth

/-- The values of a list are normal. -/
structure NormalList (depth : Nat) (vs : List Value) : Prop where
  known : allKnown vs = true
  ordered : allOrdered vs = true
  present : presentNullsOfList vs = vs
  shallow : Json.depthOfElements (listToJson vs) ≤ depth

/-- The values of a map are normal. -/
structure NormalEntries (depth : Nat) (es : List (String × Value)) : Prop where
  known : entriesKnown es = true
  ordered : entriesOrdered es = true
  present : presentNullsOfEntries es = es
  shallow : Json.depthOfMembers (entriesToJson es) ≤ depth

theorem NormalList.nil (depth : Nat) : NormalList depth [] := ⟨rfl, rfl, rfl, Nat.zero_le _⟩

theorem NormalList.cons {d d' : Nat} {v : Value} {vs : List Value} (hv : v.Normal d)
    (hvs : NormalList d' vs) : NormalList (max d d') (v :: vs) where
  known := Bool.and_eq_true_iff.2 ⟨hv.known, hvs.known⟩
  ordered := Bool.and_eq_true_iff.2 ⟨hv.ordered, hvs.ordered⟩
  present := by rw [presentNullsOfList, hv.present, hvs.present]
  shallow := max_le_max hv.shallow hvs.shallow

theorem NormalEntries.nil (depth : Nat) : NormalEntries depth [] := ⟨rfl, rfl, rfl, Nat.zero_le _⟩

theorem NormalEntries.cons {d d' : Nat} {v : Value} {es : List (String × Value)}
    (hv : v.Normal d) (hes : NormalEntries d' es) (name : String) :
    NormalEntries (max d d') ((name, v) :: es) where
  known := Bool.and_eq_true_iff.2 ⟨hv.known, hes.known⟩
  ordered := Bool.and_eq_true_iff.2 ⟨hv.ordered, hes.ordered⟩
  present := by rw [presentNullsOfEntries, hv.present, hes.present]
  shallow := max_le_max hv.shallow hes.shallow

/-- A list of normal values lies two arrays and objects above them. -/
theorem NormalList.list {depth : Nat} {vs : List Value} (h : NormalList depth vs) :
    (list vs).Normal (depth + 2) where
  known := h.known
  ordered := h.ordered
  present := by rw [presentNulls, h.present]
  shallow := by
    have hshallow := h.shallow
    simp only [toJson, Json.depth, Json.depthOfMembers]
    omega

/-- A map of normal values lies two objects above them. -/
theorem NormalEntries.map {depth : Nat} {es : List (String × Value)} (h : NormalEntries depth es)
    (hsorted : Dict.Sorted es) : (map es).Normal (depth + 2) where
  known := h.known
  ordered := Bool.and_eq_true_iff.2 ⟨decide_eq_true hsorted, h.ordered⟩
  present := by rw [presentNulls, h.present]
  shallow := by
    have hshallow := h.shallow
    simp only [toJson, Json.depth, Json.depthOfMembers]
    omega

/-! ### Reading -/

/-- Texts stand in an array. -/
theorem one_le_depth_of_textsUnder {tag : String} {inner : Json} {ss : List String}
    (h : textsUnder tag inner = .ok ss) : 1 ≤ inner.depth := by
  cases inner with
  | array xs => exact Nat.succ_le_succ (Nat.zero_le _)
  | _ => cases h

/-- A set is an array of texts under its tag. -/
theorem depth_set_le {α : Type} {f : α → Json} (hf : ∀ a, (f a).depth = 0) (tag : String)
    (xs : List α) {d : Nat} (hd : 1 ≤ d) :
    (Json.object [(tag, .array (xs.map f))]).depth ≤ d + 1 := by
  simpa [Json.depth, Json.depthOfMembers, depthOfElements_map hf] using hd

/-- **A value that holds no other values is normal.** -/
theorem normal_of_flatUnder {tag : String} {inner : Json} {v : Value}
    (h : flatUnder anyNull tag inner = .ok v) : v.Normal (inner.depth + 1) := by
  -- a value under its tag needs one object, and a set the array of its elements too
  have hone : 1 ≤ inner.depth + 1 := Nat.le_add_left 1 _
  unfold flatUnder at h
  split at h
  · obtain ⟨s, -, rfl⟩ := map_eq_ok h
    exact ⟨rfl, rfl, rfl, hone⟩
  split at h
  · obtain ⟨n, -, rfl⟩ := map_eq_ok h
    exact ⟨rfl, rfl, rfl, hone⟩
  split at h
  · obtain ⟨s, -, h⟩ := bind_eq_ok h
    obtain ⟨b, -, h⟩ := bind_eq_ok h
    cases h
    exact ⟨rfl, rfl, rfl, hone⟩
  split at h
  · cases inner with
    | bool b =>
        cases h
        exact ⟨rfl, rfl, rfl, hone⟩
    | _ => cases h
  split at h
  · cases h
    exact ⟨rfl, rfl, rfl, hone⟩
  split at h
  · obtain ⟨ss, hss, rfl⟩ := map_eq_ok h
    have harray := one_le_depth_of_textsUnder hss
    exact ⟨rfl, rfl, rfl, depth_set_le (f := Json.string) (fun _ => rfl) "SS" ss harray⟩
  split at h
  · obtain ⟨ns, hns, rfl⟩ := map_eq_ok h
    have harray := one_le_depth_of_textsUnder hns
    exact ⟨rfl, rfl, rfl, depth_set_le (f := Json.string) (fun _ => rfl) "NS" ns harray⟩
  split at h
  · obtain ⟨ss, hss, h⟩ := bind_eq_ok h
    obtain ⟨bs, -, h⟩ := bind_eq_ok h
    cases h
    have harray := one_le_depth_of_textsUnder hss
    exact ⟨rfl, rfl, rfl, depth_set_le (f := binaryJson) (fun _ => rfl) "BS" bs harray⟩
  · cases h

/-- What is neither an array nor an object is no list and no map. -/
theorem normal_of_scalar {tag : String} {inner : Json} {v : Value}
    (h : (if tag = "L" then .error (.notArray tag) else if tag = "M" then .error (.notObject tag)
      else flatUnder anyNull tag inner) = .ok v) : v.Normal (inner.depth + 1) := by
  split at h
  · cases h
  split at h
  · cases h
  · exact normal_of_flatUnder h

mutual

/-- **What is read from tagged JSON is normal**, and no deeper than the JSON. -/
theorem normal_of_ofJson : ∀ (j : Json) {v : Value}, j.Ordered → ofJson anyNull j = .ok v →
    v.Normal j.depth
  | .object [(tag, inner)], v, hj, h => by
      have hv := normal_of_ofTagged tag inner hj.2.1 h
      simpa [Json.depth, Json.depthOfMembers] using hv
  | .object [], _, _, h => by cases h
  | .object (_ :: _ :: _), _, _, h => by cases h
  | .array _, _, _, h => by cases h
  | .null, _, _, h => by cases h
  | .bool _, _, _, h => by cases h
  | .int _, _, _, h => by cases h
  | .real _, _, _, h => by cases h
  | .string _, _, _, h => by cases h

/-- What is read under a tag is one object deeper than what stands there. -/
theorem normal_of_ofTagged (tag : String) : ∀ (inner : Json) {v : Value}, inner.Ordered →
    ofTagged anyNull tag inner = .ok v → v.Normal (inner.depth + 1)
  | .array xs, v, hinner, h => by
      rw [ofTagged] at h
      split at h
      · obtain ⟨vs, hvs, rfl⟩ := map_eq_ok h
        exact (normalList_of_ofElements xs hinner hvs).list
      split at h
      · cases h
      · exact normal_of_flatUnder h
  | .object ms, v, hinner, h => by
      rw [ofTagged] at h
      split at h
      · obtain ⟨es, hes, rfl⟩ := map_eq_ok h
        obtain ⟨hnormal, hnames⟩ := normalEntries_of_ofMembers ms hinner.2 hes
        refine hnormal.map ?_
        rw [Dict.Sorted, hnames]
        exact hinner.1
      split at h
      · cases h
      · exact normal_of_flatUnder h
  | .null, _, _, h => normal_of_scalar h
  | .bool _, _, _, h => normal_of_scalar h
  | .int _, _, _, h => normal_of_scalar h
  | .real _, _, _, h => normal_of_scalar h
  | .string _, _, _, h => normal_of_scalar h

/-- What is read from the elements of an array. -/
theorem normalList_of_ofElements : ∀ (xs : List Json) {vs : List Value}, Json.ElementsOrdered xs →
    ofElements anyNull xs = .ok vs → NormalList (Json.depthOfElements xs) vs
  | [], _, _, h => by
      cases h
      exact .nil _
  | x :: xs, vs, hall, h => by
      obtain ⟨v, hv, h⟩ := bind_eq_ok h
      obtain ⟨rest, hrest, h⟩ := bind_eq_ok h
      cases h
      exact .cons (normal_of_ofJson x hall.1 hv) (normalList_of_ofElements xs hall.2 hrest)

/-- **What is read from the members of an object** has their names. -/
theorem normalEntries_of_ofMembers : ∀ (ms : List (String × Json)) {es : List (String × Value)},
    Json.MembersOrdered ms → ofMembers anyNull ms = .ok es →
      NormalEntries (Json.depthOfMembers ms) es ∧ Dict.names es = Dict.names ms
  | [], _, _, h => by
      cases h
      exact ⟨.nil _, rfl⟩
  | (name, x) :: ms, es, hall, h => by
      obtain ⟨v, hv, h⟩ := bind_eq_ok h
      obtain ⟨rest, hrest, h⟩ := bind_eq_ok h
      cases h
      obtain ⟨hothers, hnames⟩ := normalEntries_of_ofMembers ms hall.2 hrest
      exact ⟨.cons (normal_of_ofJson x hall.1 hv) hothers name, congrArg (name :: ·) hnames⟩

end

end Keyspace.Value
