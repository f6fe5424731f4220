import Keyspace.Cursor.Basic
import Keyspace.Proofs.Attribute.Tagged
/-!
# Cursors are read back

A cursor is read back as the key it was written for, by whoever asks with the fingerprint it was
written with.  With any other fingerprint it is refused, whatever key it holds.

Main definitions:

* `Keyspace.Cursor.Portable` — the keys that a cursor carries unchanged.

Main results:

* `Keyspace.Envelope.ofBytes?_toBytes` — **a written envelope is read part by part**;
* `Keyspace.Cursor.eq_of_decode` — **only the fingerprint of a cursor reads it**;
* `Keyspace.Cursor.read_of_key?`, `Keyspace.Cursor.read_of_encode` — **what a cursor is read as**;
* `Keyspace.Cursor.reads_back_under_its_shape` — cursors are read back, under their own shape only.
-/

set_option autoImplicit false

namespace Keyspace

/-! ### Envelopes -/

namespace Envelope

/-- An envelope holds no number but its version. -/
theorem isSpelt_toJson {e : Envelope}
    (hversion : Json.isLiteral (toString (e.version : Int)) = true)
    (hkey : Json.membersSpelt e.key = true) : e.toJson.isSpelt = true := by
  simp only [toJson, Json.isSpelt, Json.membersSpelt, hversion, hkey, Bool.and_self]

/-- The parts of an envelope stand in its shape under their names. -/
theorem parts?_outline (e : Envelope) :
    parts? e.toJson.outline = some (.number (toString (e.version : Int)),
      .object (Json.outlineOfMembers e.key), .string (some e.shape)) := by
  simp [toJson, Json.outline, Json.outlineOfMembers, parts?, only?]

/-- **A written envelope is read part by part.** -/
theorem ofBytes?_toBytes {e : Envelope}
    (hversion : Json.isLiteral (toString (e.version : Int)) = true)
    (hkey : Json.membersSpelt e.key = true) :
    ofBytes? e.toJson.toBytes =
      (version? (.number (toString (e.version : Int)))).bind fun version =>
        (key? (Json.object e.key).outline).map fun key => ⟨version, key, e.shape⟩ := by
  rw [ofBytes?, Json.outline_ofBytes? (isSpelt_toJson hversion hkey)]
  simp only [Option.bind_eq_bind, Option.bind_some, parts?_outline, shape?, Option.map_eq_bind]
  rfl

end Envelope

/-! ### Cursors -/

namespace Cursor

open Keyspace.Bytes

/-- **The keys that a cursor carries unchanged**: dictionaries without unknown values, whose nulls
are present and which are not too deep. -/
structure Portable (key : Item) : Prop where
  nonempty : key ≠ []
  known : key.isKnown = true
  sorted : Dict.Sorted key
  ordered : Value.entriesOrdered key = true
  present : Value.presentNullsOfEntries key = key
  shallow : 2 * Value.nestingOfEntries key + 3 ≤ Envelope.maxKeyDepth

/-- The JSON of a key that is in order and not too deep is read back. -/
theorem key?_entriesToJson {key : Item} (hsorted : Dict.Sorted key)
    (hordered : Value.entriesOrdered key = true)
    (hdepth : (Json.object (Value.entriesToJson key)).depth ≤ Envelope.maxKeyDepth) :
    Envelope.key? (Json.object (Value.entriesToJson key)).outline =
      some (Value.entriesToJson key) := by
  have hcanonical : (Json.object (Value.entriesToJson key)).Canonical := by
    refine ⟨?_, Value.membersCanonical_entriesToJson key hordered⟩
    rw [Dict.Sorted, Value.names_entriesToJson]
    exact hsorted
  rw [Envelope.key?, Json.toJson?_outline _ hcanonical hdepth]
  rfl

/-- The JSON of a portable key is read back. -/
theorem Portable.key? {key : Item} (h : Portable key) :
    Envelope.key? (Json.object (Value.entriesToJson key)).outline =
      some (Value.entriesToJson key) := by
  have hmembers := Value.depthOfMembers_entriesToJson_le key
  have hshallow := h.shallow
  refine key?_entriesToJson h.sorted h.ordered ?_
  simp only [Json.depth]
  omega

/-- The values of a known key are read back. -/
theorem readKey_entriesToJson : ∀ key : Item, Value.entriesKnown key = true →
    readKey (Value.entriesToJson key) = .ok (Value.presentNullsOfEntries key)
  | [], _ => rfl
  | (_, v) :: rest, h => by
      obtain ⟨hv, hrest⟩ := Bool.and_eq_true_iff.1 h
      simp only [Value.entriesToJson, readKey, Value.ofJson_toJson v hv,
        readKey_entriesToJson rest hrest]
      rfl

theorem membersSpelt_envelope (key : Item) (shape : Fingerprint) :
    Json.membersSpelt (envelope key shape).key = true :=
  Value.membersSpelt_entriesToJson _

/-- A cursor is written of the bytes of its envelope. -/
theorem encode_eq {key : Item} {shape : Fingerprint} {text : String}
    (h : encode key shape = .ok text) :
    key.isKnown = true ∧
      text.toList = Base64.encode Base64.urlSafe (envelope key shape).toJson.toBytes := by
  unfold encode at h
  split at h
  · next hknown =>
      rw [← Except.ok.inj h]
      exact ⟨hknown, String.toList_ofList⟩
  · cases h

/-- What holds of the symbols of the alphabet for addresses holds of the characters of a cursor. -/
theorem forall_encode {p : Char → Bool} (hp : ∀ n < 64, p (Base64.urlSafe.symbol n) = true)
    {key : Item} {shape : Fingerprint} {text : String} (h : encode key shape = .ok text) :
    ∀ c ∈ text.toList, p c = true := by
  rw [(encode_eq h).2]
  exact Base64.forall_encode_urlSafe hp

/-- The bytes of a cursor, with blanks around it, are those of its envelope. -/
theorem decode_trim {key : Item} {shape : Fingerprint} {text : String}
    (h : encode key shape = .ok text) {before after : String}
    (hbefore : Text.isBlankText before = true) (hafter : Text.isBlankText after = true) :
    Base64.decode Base64.urlSafe (Text.trim (before ++ text ++ after)).toList =
      some (envelope key shape).toJson.toBytes := by
  have hvisible : ∀ c ∈ text.toList, Text.isBlank c = false := by
    intro c hc
    simpa using forall_encode (p := fun c => !Text.isBlank c) (by decide) h c hc
  rw [Text.trim_of_blanks hbefore hafter hvisible, (encode_eq h).2,
    Base64.decode_encode Base64.urlSafe_lawful]

theorem isLiteral_version : Json.isLiteral (toString (version : Int)) = true := by decide

/-- The version of a written cursor is the one that is asked for. -/
theorem version?_version :
    Envelope.version? (.number (toString (version : Int))) = some version := by
  decide

/-- The envelope of a written cursor, as far as it can be read. -/
theorem ofBytes?_envelope (key : Item) (shape : Fingerprint) :
    Envelope.ofBytes? (envelope key shape).toJson.toBytes =
      (Envelope.key? (Json.object (envelope key shape).key).outline).map fun entries =>
        ⟨version, entries, shape.hex⟩ := by
  have hparts := Envelope.ofBytes?_toBytes (e := envelope key shape) isLiteral_version
    (membersSpelt_envelope key shape)
  rw [show (envelope key shape).version = version from rfl, version?_version] at hparts
  exact hparts

/-- **Only the fingerprint of a cursor reads it**, whatever its key is. -/
theorem eq_of_decode {key key' : Item} {shape shape' : Fingerprint} {text : String}
    (h : encode key shape = .ok text) (hread : decode text shape' = .ok key') :
    shape' = shape := by
  have hblank : Text.isBlankText "" = true := rfl
  have htrim := decode_trim h hblank hblank
  rw [String.empty_append, String.append_empty] at htrim
  unfold decode read at hread
  rw [htrim] at hread
  simp only [ofBytes?_envelope] at hread
  cases hkey : Envelope.key? (Json.object (envelope key shape).key).outline with
  | none => simp [hkey] at hread
  | some entries =>
      simp only [hkey, Option.map_some] at hread
      rw [if_neg (by simp)] at hread
      split at hread
      · cases hread
      · next hshape =>
          cases shape
          cases shape'
          simpa using (not_not.1 hshape).symm

/-- **A cursor is read back as its key**, if the JSON of the key is, with the fingerprint it was
written with and no other. -/
theorem read_of_key? {key : Item} (hnonempty : key ≠ []) (hknown : key.isKnown = true)
    (hpresent : Value.presentNullsOfEntries key = key)
    (hkey : Envelope.key? (Json.object (Value.entriesToJson key)).outline =
      some (Value.entriesToJson key)) {shape : Fingerprint} {text : String}
    (h : encode key shape = .ok text) {before after : String}
    (hbefore : Text.isBlankText before = true) (hafter : Text.isBlankText after = true)
    (shape' : Fingerprint) :
    read (before ++ text ++ after) shape' =
      if shape = shape' then .ok key else .error .otherShape := by
  have hentries : (envelope key shape).key = Value.entriesToJson key := by
    rw [envelope, hpresent]
  have hbytes : Envelope.ofBytes? (envelope key shape).toJson.toBytes =
      some ⟨version, Value.entriesToJson key, shape.hex⟩ := by
    rw [ofBytes?_envelope, hentries, hkey, Option.map_some]
  have hsome : (Value.entriesToJson key).isEmpty = false := by
    cases hcases : key with
    | nil => exact absurd hcases hnonempty
    | cons e rest => rfl
  have hvalues : readKey (Value.entriesToJson key) = .ok key := by
    rw [readKey_entriesToJson key hknown, hpresent]
  unfold read
  rw [decode_trim h hbefore hafter]
  simp only [hbytes, hsome, hvalues]
  by_cases hshape : shape = shape'
  · subst hshape
    simp
  · have hhex : shape.hex ≠ shape'.hex := fun heq => by
      cases shape
      cases shape'
      exact hshape (congrArg Fingerprint.mk heq)
    simp [hshape, hhex]

/-- **The cursor of a portable key is read back**, with the fingerprint it was written with and no
other. -/
theorem read_of_encode {key : Item} (hkey : Portable key) {shape : Fingerprint} {text : String}
    (h : encode key shape = .ok text) {before after : String}
    (hbefore : Text.isBlankText before = true) (hafter : Text.isBlankText after = true)
    (shape' : Fingerprint) :
    read (before ++ text ++ after) shape' =
      if shape = shape' then .ok key else .error .otherShape :=
  read_of_key? hkey.nonempty hkey.known hkey.present hkey.key? h hbefore hafter shape'

/-- **A portable key has a cursor.** -/
theorem encode_of_portable {key : Item} (h : Portable key) (shape : Fingerprint) :
    ∃ text, encode key shape = .ok text := by
  exact ⟨_, if_pos h.known⟩

/-- **A cursor is read back under its own shape only.**  It is fit for addresses, and blanks around
it do not matter. -/
theorem reads_back_under_its_shape {key : Item} (hnonempty : key ≠ [])
    (hknown : key.isKnown = true) (hsorted : Dict.Sorted key)
    (hordered : Value.entriesOrdered key = true)
    (hpresent : Value.presentNullsOfEntries key = key)
    (hnesting : Value.nestingOfEntries key ≤ 32) (shape other : Fingerprint) :
    ∃ text, encode key shape = .ok text ∧
      (∀ c ∈ text.toList, Base64.isUrlSafe c = true) ∧
      ∀ before after, Text.isBlankText before = true → Text.isBlankText after = true →
        decode (before ++ text ++ after) shape = .ok key ∧
        (other ≠ shape →
          decode (before ++ text ++ after) other = .error (.cursor .otherShape)) := by
  have hportable : Portable key := by
    refine ⟨hnonempty, hknown, hsorted, hordered, hpresent, ?_⟩
    rw [show Envelope.maxKeyDepth = 126 from rfl]
    omega
  obtain ⟨text, htext⟩ := encode_of_portable hportable shape
  refine ⟨text, htext, forall_encode (by decide) htext, fun before after hbefore hafter => ?_⟩
  have hread := read_of_encode hportable htext hbefore hafter
  constructor
  · rw [decode, hread, if_pos rfl]
    rfl
  · intro hother
    rw [decode, hread, if_neg (Ne.symm hother)]
    rfl

end Cursor

/-! ### A library -/

/-- A key with values of every kind, among them texts with characters that JSON escapes, and
lengths of byte strings that end in every kind of Base64 group. -/
def Library.everyKind : Item :=
  [("binaries", .binaries [[], [0], [0, 159], [0, 159, 255]]), ("binary", .binary [251, 255]),
    ("bool", .bool false),
    ("list", .list [.map [], .list [], .map [("a\"b", .number "1.50"), ("b", .null true)]]),
    ("map", .map [("é", .list [.text "\\ \n \x01 𝄞"])]), ("null", .null true),
    ("number", .number "-2.5"), ("numbers", .numbers ["1", "2"]), ("text", .text ""),
    ("texts", .texts ["a", "b"])]

/-- The cursor of such a key is read back with blanks around it, and not under another shape. -/
theorem library_key_reads_back :
    ∃ text, Cursor.encode Library.everyKind (.of "library|query|owner=") = .ok text ∧
      (∀ c ∈ text.toList, Bytes.Base64.isUrlSafe c = true) ∧
      Cursor.decode (" " ++ text ++ "\n") (.of "library|query|owner=") = .ok Library.everyKind ∧
      Cursor.decode (" " ++ text ++ "\n") (.of "library|query|title=") =
        .error (.cursor .otherShape) := by
  obtain ⟨text, htext, hsafe, hread⟩ := Cursor.reads_back_under_its_shape
    (by decide : Library.everyKind ≠ []) (by decide) (by decide) (by decide) (by rfl) (by decide)
    (.of "library|query|owner=") (.of "library|query|title=")
  obtain ⟨hown, hother⟩ := hread " " "\n" (by decide) (by decide)
  exact ⟨text, htext, hsafe, hown, hother (by decide +kernel)⟩

end Keyspace
