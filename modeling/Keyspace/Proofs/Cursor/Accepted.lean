import Keyspace.Proofs.Attribute.Normal
import Keyspace.Proofs.Cursor.RoundTrip
/-!
# Cursors that are accepted

A cursor comes back from outside, and a text that nobody wrote as a cursor may be accepted all the
same: the envelope may be an array or hold more than it should, a name may stand twice, there may
be blanks between the tokens, and a null may hold anything.  None of this is left in the key that
is read.  Its own cursor can be written, and it is read as the same key: what was accepted was no
deeper than what may be read, and the key is not deeper than that.

Main definitions:

* `Keyspace.Cursor.envelope?` — the envelope that a text holds.

Main results:

* `Keyspace.Cursor.normal_of_readKey` — **the values of a key that is read are normal**;
* `Keyspace.Cursor.read_eq_ok_iff` — **what is accepted**;
* `Keyspace.Cursor.accepts_only_what_can_be_written` — a text is refused as a cursor, or it is
  another spelling of one.
-/

set_option autoImplicit false

namespace Keyspace

/-! ### Envelopes -/

/-- The key of an envelope is in order and leaves room for the envelope around it. -/
theorem Envelope.ordered_of_key? {o : Json.Outline} {entries : Dict Json}
    (h : key? o = some entries) :
    Dict.Sorted entries ∧ Json.MembersOrdered entries ∧
      Json.depthOfMembers entries + 1 ≤ maxKeyDepth := by
  obtain ⟨j, hj, hmembers⟩ := Option.bind_eq_some_iff.1 h
  obtain ⟨hordered, hdepth⟩ := Json.ordered_of_toJson? o hj
  cases j with
  | object ms =>
      cases hmembers
      exact ⟨hordered.1, hordered.2, hdepth⟩
  | _ => cases hmembers

/-- So is the key of an envelope that is read from bytes. -/
theorem Envelope.ordered_of_ofBytes? {bytes : List UInt8} {e : Envelope}
    (h : ofBytes? bytes = some e) :
    Dict.Sorted e.key ∧ Json.MembersOrdered e.key ∧
      Json.depthOfMembers e.key + 1 ≤ maxKeyDepth := by
  obtain ⟨o, -, h⟩ := Option.bind_eq_some_iff.1 h
  obtain ⟨⟨version, key, shape⟩, -, h⟩ := Option.bind_eq_some_iff.1 h
  obtain ⟨v, -, h⟩ := Option.bind_eq_some_iff.1 h
  obtain ⟨k, hk, h⟩ := Option.bind_eq_some_iff.1 h
  obtain ⟨s, -, h⟩ := Option.bind_eq_some_iff.1 h
  cases h
  exact ordered_of_key? hk

namespace Cursor

open Keyspace.Bytes

/-- **The envelope that a text holds**, if it holds one. -/
def envelope? (text : String) : Option Envelope :=
  (Base64.decode Base64.urlSafe (Text.trim text).toList).bind Envelope.ofBytes?

/-! ### Keys -/

/-- **The values of a key that is read are normal**, and no deeper than its JSON. -/
theorem normal_of_readKey : ∀ (entries : Dict Json) {key : Item}, Json.MembersOrdered entries →
    readKey entries = .ok key →
      Value.NormalEntries (Json.depthOfMembers entries) key ∧
        Dict.names key = Dict.names entries
  | [], _, _, h => by
      cases h
      exact ⟨.nil _, rfl⟩
  | (name, j) :: rest, key, hall, h => by
      rw [readKey] at h
      split at h
      · cases h
      · next v hv =>
          obtain ⟨item, hitem, h⟩ := bind_eq_ok h
          cases h
          obtain ⟨hothers, hnames⟩ := normal_of_readKey rest hall.2 hitem
          exact ⟨.cons (Value.normal_of_ofJson j hall.1 hv) hothers name,
            congrArg (name :: ·) hnames⟩

/-- The later of two owners counts, and what stands in its null does not. -/
example : (Envelope.key? (.object
    [(some "owner", .object [(some "S", .string (some "ann"))]),
      (some "owner", .object [(some "NULL", .array [.bool false])])])).map readKey =
    some (.ok [("owner", .null true)]) := by
  rfl

/-- **What is accepted**: a text with an envelope of the current version and of the own shape, and
with a key of tagged values that is not empty. -/
theorem read_eq_ok_iff {text : String} {shape : Fingerprint} {key : Item} :
    read text shape = .ok key ↔
      ∃ e, envelope? text = some e ∧ e.version = version ∧ e.shape = shape.hex ∧
        e.key ≠ [] ∧ readKey e.key = .ok key := by
  unfold read envelope?
  cases Base64.decode Base64.urlSafe (Text.trim text).toList with
  | none => simp
  | some bytes =>
      cases hbytes : Envelope.ofBytes? bytes with
      | none => simp [hbytes]
      | some e =>
          simp only [hbytes, Option.bind_some, Option.some.injEq, exists_eq_left']
          by_cases hversion : e.version = version
          · by_cases hshape : e.shape = shape.hex
            · by_cases hkey : e.key = []
              · simp [hversion, hshape, hkey]
              · simp [hversion, hshape, hkey]
            · simp [hversion, hshape]
          · simp [hversion]

/-- A key that is accepted is not empty, and its cursor is read as the same key. -/
theorem read_again {text : String} {shape : Fingerprint} {key : Item}
    (h : read text shape = .ok key) :
    key ≠ [] ∧ ∃ again, encode key shape = .ok again ∧ read again shape = .ok key := by
  obtain ⟨e, he, -, -, hnonempty, hkey⟩ := read_eq_ok_iff.1 h
  obtain ⟨bytes, -, hbytes⟩ := Option.bind_eq_some_iff.1 he
  obtain ⟨hsorted, hordered, hdepth⟩ := Envelope.ordered_of_ofBytes? hbytes
  obtain ⟨hnormal, hnames⟩ := normal_of_readKey e.key hordered hkey
  have hne : key ≠ [] := by
    rintro rfl
    exact hnonempty (List.map_eq_nil_iff.1 hnames.symm)
  have hsorted' : Dict.Sorted key := by
    rw [Dict.Sorted, hnames]
    exact hsorted
  have hshallow : (Json.object (Value.entriesToJson key)).depth ≤ Envelope.maxKeyDepth :=
    (Nat.succ_le_succ hnormal.shallow).trans hdepth
  obtain ⟨again, hagain⟩ : ∃ again, encode key shape = .ok again := ⟨_, if_pos hnormal.known⟩
  refine ⟨hne, again, hagain, ?_⟩
  have hblank : Text.isBlankText "" = true := rfl
  have hread := read_of_key? hne hnormal.known hnormal.present
    (key?_entriesToJson hsorted' hnormal.ordered hshallow) hagain hblank hblank shape
  rwa [String.empty_append, String.append_empty, if_pos rfl] at hread

/-- **A text is refused as a cursor, or it is another spelling of one.**  It is accepted only if it
holds an envelope of version 1 and of the own shape, and then the cursor of the key that
is read can be written and is read as the same key. -/
theorem accepts_only_what_can_be_written (text : String) (shape : Fingerprint) :
    (∃ fault, decode text shape = .error (.cursor fault)) ∨
    ∃ key, decode text shape = .ok key ∧ key ≠ [] ∧
      (∃ e, envelope? text = some e ∧ e.version = 1 ∧ e.shape = shape.hex) ∧
      ∃ again, encode key shape = .ok again ∧ decode again shape = .ok key := by
  unfold decode
  cases hread : read text shape with
  | error fault => exact .inl ⟨fault, rfl⟩
  | ok key =>
      obtain ⟨e, he, hversion, hshape, -, -⟩ := read_eq_ok_iff.1 hread
      obtain ⟨hne, again, hagain, hsame⟩ := read_again hread
      refine .inr ⟨key, rfl, hne, ⟨e, he, hversion, hshape⟩, again, hagain, ?_⟩
      rw [hsame]
      rfl

end Cursor

end Keyspace
