import Keyspace.Proofs.Json.Shape
/-!
# Values that are read from shapes

A shape may spell a value in many ways: the members of an object may come in any order, and a name
may come twice.  The value that is read from it does not show that.  Its objects are dictionaries,
and no more arrays and objects stand inside each other than were allowed.

Main definitions:

* `Keyspace.Json.Ordered` — the objects in a value are dictionaries.

Main results:

* `Keyspace.Json.ordered_of_toJson?` — **what is read from a shape is in order and not too deep**.
-/

set_option autoImplicit false

namespace Keyspace.Json

open Outline (toJson? elementsToJson? membersToJson?)

mutual

/-- **The objects in a value are dictionaries.** -/
def Ordered : Json → Prop
  | .array xs => ElementsOrdered xs
  | .object ms => Dict.Sorted ms ∧ MembersOrdered ms
  | _ => True

/-- The objects in some elements are dictionaries. -/
def ElementsOrdered : List Json → Prop
  | [] => True
  | x :: xs => Ordered x ∧ ElementsOrdered xs

/-- The objects in some members are dictionaries. -/
def MembersOrdered : List (String × Json) → Prop
  | [] => True
  | (_, x) :: ms => Ordered x ∧ MembersOrdered ms

end

theorem membersOrdered_iff {ms : List (String × Json)} :
    MembersOrdered ms ↔ ∀ m ∈ ms, m.2.Ordered := by
  induction ms with
  | nil => simp [MembersOrdered]
  | cons m ms ih => rw [List.forall_mem_cons, MembersOrdered, ih]

theorem depthOfMembers_le_iff {ms : List (String × Json)} {d : Nat} :
    depthOfMembers ms ≤ d ↔ ∀ m ∈ ms, m.2.depth ≤ d := by
  induction ms with
  | nil => simp [depthOfMembers]
  | cons m ms ih => rw [List.forall_mem_cons, depthOfMembers, Nat.max_le, ih]

mutual

/-- **What is read from a shape is in order and not too deep.** -/
theorem ordered_of_toJson? : ∀ (o : Outline) {d : Nat} {j : Json}, toJson? d o = some j →
    j.Ordered ∧ j.depth ≤ d
  | .null, _, _, h => by
      cases h
      exact ⟨trivial, Nat.zero_le _⟩
  | .bool _, _, _, h => by
      cases h
      exact ⟨trivial, Nat.zero_le _⟩
  | .number literal, d, j, h => by
      rw [toJson?, Outline.number?] at h
      split at h
      · cases h
      · simp only at h
        split at h
        · cases h
          exact ⟨trivial, Nat.zero_le _⟩
        · cases h
          exact ⟨trivial, Nat.zero_le _⟩
  | .string text, _, _, h => by
      obtain ⟨s, -, rfl⟩ := Option.map_eq_some_iff.1 h
      exact ⟨trivial, Nat.zero_le _⟩
  | .array xs, d, j, h => by
      rw [toJson?] at h
      split at h
      · cases h
      · obtain ⟨vs, hvs, rfl⟩ := Option.map_eq_some_iff.1 h
        obtain ⟨hordered, hdepth⟩ := ordered_of_elementsToJson? xs hvs
        refine ⟨hordered, ?_⟩
        rw [depth]
        omega
  | .object ms, d, j, h => by
      rw [toJson?] at h
      split at h
      · cases h
      · obtain ⟨vs, hvs, rfl⟩ := Option.map_eq_some_iff.1 h
        obtain ⟨hordered, hdepth⟩ := ordered_of_membersToJson? ms hvs
        -- the dictionary of the members holds none but them
        have hmem : ∀ m ∈ Dict.ofList vs, m ∈ vs := fun m => Dict.mem_of_mem_ofList
        have hshallow : depthOfMembers (Dict.ofList vs) ≤ d - 1 :=
          depthOfMembers_le_iff.2 fun m hm => depthOfMembers_le_iff.1 hdepth m (hmem m hm)
        refine ⟨⟨Dict.sorted_ofList vs, membersOrdered_iff.2 fun m hm => ?_⟩, ?_⟩
        · exact membersOrdered_iff.1 hordered m (hmem m hm)
        · rw [ofMembers, depth]
          omega

/-- The elements of an array. -/
theorem ordered_of_elementsToJson? : ∀ (xs : List Outline) {d : Nat} {vs : List Json},
    elementsToJson? d xs = some vs → ElementsOrdered vs ∧ depthOfElements vs ≤ d
  | [], _, _, h => by
      cases h
      exact ⟨trivial, Nat.zero_le _⟩
  | x :: xs, d, vs, h => by
      obtain ⟨v, hv, h⟩ := Option.bind_eq_some_iff.1 h
      obtain ⟨rest, hrest, h⟩ := Option.bind_eq_some_iff.1 h
      cases h
      obtain ⟨hordered, hdepth⟩ := ordered_of_toJson? x hv
      obtain ⟨hall, hdepths⟩ := ordered_of_elementsToJson? xs hrest
      exact ⟨⟨hordered, hall⟩, Nat.max_le.2 ⟨hdepth, hdepths⟩⟩

/-- The members of an object. -/
theorem ordered_of_membersToJson? : ∀ (ms : List (Option String × Outline)) {d : Nat}
    {vs : List (String × Json)}, membersToJson? d ms = some vs →
      MembersOrdered vs ∧ depthOfMembers vs ≤ d
  | [], _, _, h => by
      cases h
      exact ⟨trivial, Nat.zero_le _⟩
  | (name, x) :: ms, d, vs, h => by
      obtain ⟨n, -, h⟩ := Option.bind_eq_some_iff.1 h
      obtain ⟨v, hv, h⟩ := Option.bind_eq_some_iff.1 h
      obtain ⟨rest, hrest, h⟩ := Option.bind_eq_some_iff.1 h
      cases h
      obtain ⟨hordered, hdepth⟩ := ordered_of_toJson? x hv
      obtain ⟨hall, hdepths⟩ := ordered_of_membersToJson? ms hrest
      exact ⟨⟨hordered, hall⟩, Nat.max_le.2 ⟨hdepth, hdepths⟩⟩

end

end Keyspace.Json
