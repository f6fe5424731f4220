import Keyspace.Proofs.Placeholder.Tokens
import Keyspace.Proofs.Text.Utf8
/-!
# Placeholders among bytes

The placeholders of a text can be found in one pass over its UTF-8 bytes: a sign is one byte, a
word is the bytes behind it that are ASCII letters, digits or underscores, and no byte of any other
character is one of these.  So a placeholder begins and ends between two characters, and what is
cut out of the text there is the placeholder that its characters show.

Main definitions:

* `Keyspace.Placeholder.spans` — where the placeholders stand among the bytes;
* `Keyspace.Placeholder.slice?` — a part of a text, if it cuts no character.

Main results:

* `Keyspace.Placeholder.takeWhile_utf8`, `Keyspace.Placeholder.dropWhile_utf8` — a word among
  characters and among bytes;
* `Keyspace.Placeholder.mapM_slice?_spans` — **what the pass over the bytes cuts out**.
-/

set_option autoImplicit false

namespace Keyspace.Placeholder

open Text (utf8 utf8_append)

/-! ### One pass over the bytes -/

/-- A byte that is the sign of a name or of a value. -/
def isSignByte (b : UInt8) : Bool := isSign (Char.ofUInt8 b)

/-- A byte of a placeholder's word. -/
def isWordByte (b : UInt8) : Bool := isWordChar (Char.ofUInt8 b)

/-- Bytes of a text from one place to another: the byte at `stop` is no longer among them. -/
structure Span where
  start : Nat
  stop : Nat
  deriving DecidableEq, Repr

/-- The spans of the placeholders in some bytes, the first of which stands at `start`.  The bytes of
a word are not looked at again. -/
def spansFrom (start : Nat) : List UInt8 → List Span
  | [] => []
  | b :: bs =>
    if isSignByte b then
      let word := bs.takeWhile isWordByte
      let stop := start + 1 + word.length
      let rest := spansFrom stop (bs.dropWhile isWordByte)
      if word.isEmpty then rest else ⟨start, stop⟩ :: rest
    else spansFrom (start + 1) bs
termination_by bs => bs.length
decreasing_by
  · exact Nat.lt_succ_of_le (List.dropWhile_suffix isWordByte).length_le
  · exact Nat.lt_succ_self _

/-- **Where the placeholders of a text stand** among its bytes. -/
def spans (s : String) : List Span := spansFrom 0 (Text.bytes s)

/-- A place among the bytes of a text that is between two characters, or at one of its ends. -/
abbrev IsBoundary (s : String) (place : Nat) : Prop := (String.Pos.Raw.mk place).IsValid s

/-- The part of a text that some of its bytes spell, if they cut no character. -/
def slice? (s : String) (span : Span) : Option String :=
  if h : IsBoundary s span.start ∧ IsBoundary s span.stop then
    (s.slice? (s.pos _ h.1) (s.pos _ h.2)).map String.Slice.copy
  else none

/-! ### The bytes of words -/

/-- The characters of words are characters of ASCII. -/
theorem lt_of_isWordChar {c : Char} (h : isWordChar c = true) : c.toNat < 0x80 := by
  have hnat : c.toNat = c.val.toNat := rfl
  rcases (Bool.or_eq_true _ _).mp h with hword | hsign
  · rcases (Bool.or_eq_true _ _).mp hword with hletter | hdigit
    · rcases (Bool.or_eq_true _ _).mp hletter with hupper | hlower
      · have hle : c.val.toNat ≤ 90 := UInt32.le_iff_toNat_le.1 (of_decide_eq_true hupper).2
        omega
      · have hle : c.val.toNat ≤ 122 :=
          UInt32.le_iff_toNat_le.1 (of_decide_eq_true ((Bool.and_eq_true _ _).mp hlower).2)
        omega
    · have hle : c.val.toNat ≤ 57 :=
        UInt32.le_iff_toNat_le.1 (of_decide_eq_true ((Bool.and_eq_true _ _).mp hdigit).2)
      omega
  · rw [eq_of_beq hsign]
    decide

/-- The signs are characters of ASCII. -/
theorem lt_of_isSign {c : Char} (h : isSign c = true) : c.toNat < 0x80 := by
  simp only [isSign, Bool.or_eq_true, beq_iff_eq] at h
  rcases h with rfl | rfl <;> decide

theorem toNat_ofUInt8 (b : UInt8) : (Char.ofUInt8 b).toNat = b.toNat := UInt8.toNat_toUInt32 b

/-- The byte of a character of ASCII stands for this character. -/
theorem ofUInt8_toUInt8 {c : Char} (h : c.toNat < 0x80) : Char.ofUInt8 c.toUInt8 = c := by
  refine Char.toNat_inj.1 ?_
  rw [toNat_ofUInt8]
  show c.toNat % 256 = c.toNat
  omega

/-- No byte of a character that is not one of ASCII is a sign or one of a word. -/
theorem isSignByte_of_mem {c : Char} (h : ¬c.toNat < 0x80) {b : UInt8}
    (hb : b ∈ String.utf8EncodeChar c) : isSignByte b = false ∧ isWordByte b = false := by
  have hlarge : 0x80 ≤ b.toNat := Text.le_of_mem_utf8EncodeChar (Nat.not_lt.1 h) hb
  rw [← toNat_ofUInt8] at hlarge
  exact ⟨Bool.eq_false_iff.2 fun hsign => absurd (lt_of_isSign hsign) (Nat.not_lt.2 hlarge),
    Bool.eq_false_iff.2 fun hword => absurd (lt_of_isWordChar hword) (Nat.not_lt.2 hlarge)⟩

theorem utf8_cons (c : Char) (cs : List Char) :
    utf8 (c :: cs) = String.utf8EncodeChar c ++ utf8 cs := rfl

theorem utf8_cons_of_ascii {c : Char} (h : c.toNat < 0x80) (cs : List Char) :
    utf8 (c :: cs) = c.toUInt8 :: utf8 cs := by
  rw [utf8_cons, Text.utf8EncodeChar_of_ascii h, List.singleton_append]

theorem utf8_eq_nil_iff {cs : List Char} : utf8 cs = [] ↔ cs = [] := by
  cases cs with
  | nil => simp [utf8]
  | cons c cs => simp [utf8_cons]

/-- **A word among bytes** is the bytes of the word among characters. -/
theorem takeWhile_utf8 (cs : List Char) :
    (utf8 cs).takeWhile isWordByte = utf8 (cs.takeWhile isWordChar) := by
  induction cs with
  | nil => rfl
  | cons c cs ih =>
      by_cases hascii : c.toNat < 0x80
      · have hbyte : isWordByte c.toUInt8 = isWordChar c := by
          rw [isWordByte, ofUInt8_toUInt8 hascii]
        rw [utf8_cons_of_ascii hascii, List.takeWhile_cons, List.takeWhile_cons, hbyte, ih]
        split
        · rw [utf8_cons_of_ascii hascii]
        · rfl
      · obtain ⟨b, bs, hcons⟩ := List.exists_cons_of_ne_nil (String.utf8EncodeChar_ne_nil (c := c))
        have hb : isWordByte b = false :=
          (isSignByte_of_mem hascii (hcons ▸ List.mem_cons_self)).2
        have hc : isWordChar c = false :=
          Bool.eq_false_iff.2 fun hword => hascii (lt_of_isWordChar hword)
        rw [utf8_cons, hcons, List.cons_append, List.takeWhile_cons, List.takeWhile_cons, hb, hc]
        rfl

theorem dropWhile_utf8 (cs : List Char) :
    (utf8 cs).dropWhile isWordByte = utf8 (cs.dropWhile isWordChar) := by
  refine (List.append_right_inj ((utf8 cs).takeWhile isWordByte)).1 ?_
  rw [List.takeWhile_append_dropWhile, takeWhile_utf8, ← utf8_append,
    List.takeWhile_append_dropWhile]

/-! ### Parts of texts -/

theorem rawEndPos_ofList (cs : List Char) :
    (String.ofList cs).rawEndPos = ⟨(utf8 cs).length⟩ := by
  simp [String.rawEndPos, utf8, String.utf8ByteSize, List.utf8Encode]

/-- What stands between two parts of a text is cut out of it. -/
theorem slice?_between (pre mid post : List Char) :
    slice? (String.ofList (pre ++ mid ++ post))
        ⟨(utf8 pre).length, (utf8 pre).length + (utf8 mid).length⟩ =
      some (String.ofList mid) := by
  have hstart : String.ofList (pre ++ mid ++ post) =
      String.ofList pre ++ (String.ofList mid ++ String.ofList post) := by
    simp only [String.ofList_append, String.append_assoc]
  have hstop : String.ofList (pre ++ mid ++ post) =
      String.ofList pre ++ String.ofList mid ++ String.ofList post := by
    simp only [String.ofList_append]
  have hplaces : String.Pos.Raw.mk ((utf8 pre).length + (utf8 mid).length) =
      (String.ofList pre ++ String.ofList mid).rawEndPos := by
    rw [← String.ofList_append, rawEndPos_ofList, utf8_append, List.length_append]
  have hvalid : IsBoundary (String.ofList (pre ++ mid ++ post)) (utf8 pre).length ∧
      IsBoundary (String.ofList (pre ++ mid ++ post))
        ((utf8 pre).length + (utf8 mid).length) :=
    ⟨String.Pos.Raw.isValid_iff_exists_append.2 ⟨_, _, hstart, (rawEndPos_ofList pre).symm⟩,
      String.Pos.Raw.isValid_iff_exists_append.2 ⟨_, _, hstop, hplaces⟩⟩
  obtain ⟨hle, hcopy⟩ := String.copy_slice_eq_iff_splits.2
    ⟨String.ofList pre, String.ofList post,
      (⟨hstart, String.offset_pos.trans (rawEndPos_ofList pre).symm⟩ :
        (String.pos _ _ hvalid.1).Splits _ _),
      (⟨hstop, String.offset_pos.trans hplaces⟩ : (String.pos _ _ hvalid.2).Splits _ _)⟩
  rw [slice?, dif_pos hvalid, String.slice?, dif_pos hle, Option.map_some, hcopy]

/-! ### What the pass cuts out -/

/-- Bytes that are no signs are passed over. -/
theorem spansFrom_append {bs : List UInt8} (h : ∀ b ∈ bs, isSignByte b = false) (start : Nat)
    (rest : List UInt8) : spansFrom start (bs ++ rest) = spansFrom (start + bs.length) rest := by
  induction bs generalizing start with
  | nil => rfl
  | cons b bs ih =>
      have hb : isSignByte b = false := h b List.mem_cons_self
      rw [List.cons_append, spansFrom, hb, if_neg Bool.false_ne_true,
        ih (fun d hd => h d (List.mem_cons_of_mem b hd)), List.length_cons]
      congr 1
      omega

/-- A character that is no sign is passed over. -/
theorem spansFrom_other {c : Char} (h : isSign c = false) (start : Nat) (cs : List Char) :
    spansFrom start (utf8 (c :: cs)) = spansFrom (start + (utf8 [c]).length) (utf8 cs) := by
  have hbytes : ∀ b ∈ utf8 [c], isSignByte b = false := by
    by_cases hascii : c.toNat < 0x80
    · rw [utf8_cons_of_ascii hascii]
      intro b hb
      obtain rfl : b = c.toUInt8 := by simpa [utf8] using hb
      rwa [isSignByte, ofUInt8_toUInt8 hascii]
    · rw [utf8_cons, show utf8 [] = [] from rfl, List.append_nil]
      exact fun b hb => (isSignByte_of_mem hascii hb).1
  rw [← List.singleton_append, utf8_append, spansFrom_append hbytes]

/-- A sign and the word behind it are one span, unless the word is empty. -/
theorem spansFrom_sign {c : Char} (h : isSign c = true) (start : Nat) (cs : List Char) :
    spansFrom start (utf8 (c :: cs)) =
      (if cs.takeWhile isWordChar = [] then []
        else [⟨start, start + (utf8 (c :: cs.takeWhile isWordChar)).length⟩]) ++
      spansFrom (start + (utf8 (c :: cs.takeWhile isWordChar)).length)
        (utf8 (cs.dropWhile isWordChar)) := by
  have hascii := lt_of_isSign h
  have hbyte : isSignByte c.toUInt8 = true := by rwa [isSignByte, ofUInt8_toUInt8 hascii]
  have hstop : start + (utf8 (c :: cs.takeWhile isWordChar)).length =
      start + 1 + (utf8 (cs.takeWhile isWordChar)).length := by
    rw [utf8_cons_of_ascii hascii, List.length_cons]
    omega
  rw [utf8_cons_of_ascii hascii, spansFrom, if_pos hbyte, takeWhile_utf8, dropWhile_utf8, hstop]
  simp only [List.isEmpty_iff, utf8_eq_nil_iff]
  split
  · rfl
  · rfl

/-- Behind the word of a sign there are the same placeholders as behind the sign. -/
theorem tokensOf_sign {c : Char} (h : isSign c = true) (cs : List Char) :
    tokensOf (c :: cs) =
      (if cs.takeWhile isWordChar = [] then [] else [c :: cs.takeWhile isWordChar]) ++
        tokensOf (cs.dropWhile isWordChar) := by
  have hplain : ∀ d ∈ cs.takeWhile isWordChar, isSign d = false := by
    intro d hd
    have hword : isWordChar d = true := List.all_eq_true.1 List.all_takeWhile d hd
    refine Bool.eq_false_iff.2 fun hsign => ?_
    rw [isWordChar_of_isSign hsign] at hword
    cases hword
  rw [← tokensOf_append_of_plain (cs.dropWhile isWordChar) hplain,
    List.takeWhile_append_dropWhile, tokensOf]
  by_cases hempty : cs.takeWhile isWordChar = []
  · simp [hempty]
  · simp [h, hempty]

/-- **What is cut out behind some characters** is the placeholders behind them. -/
theorem mapM_slice?_spansFrom : ∀ pre cs : List Char,
    (spansFrom (utf8 pre).length (utf8 cs)).mapM (slice? (String.ofList (pre ++ cs))) =
      some ((tokensOf cs).map String.ofList)
  | pre, [] => by
      rw [show utf8 [] = [] from rfl, spansFrom]
      rfl
  | pre, c :: cs => by
      cases hsign : isSign c with
      | false =>
          have hrest := mapM_slice?_spansFrom (pre ++ [c]) cs
          rw [List.append_assoc, List.singleton_append, utf8_append, List.length_append] at hrest
          rw [spansFrom_other hsign, hrest]
          simp [tokensOf, hsign]
      | true =>
          have hrest := mapM_slice?_spansFrom (pre ++ c :: cs.takeWhile isWordChar)
            (cs.dropWhile isWordChar)
          have hslice := slice?_between pre (c :: cs.takeWhile isWordChar)
            (cs.dropWhile isWordChar)
          rw [utf8_append, List.length_append] at hrest
          rw [List.append_assoc, List.cons_append, List.takeWhile_append_dropWhile] at hrest hslice
          rw [spansFrom_sign hsign, tokensOf_sign hsign, List.mapM_append, hrest]
          split
          · rfl
          · rw [List.mapM_cons, hslice]
            rfl
termination_by _ cs => cs.length
decreasing_by
  · exact Nat.lt_succ_self _
  · exact Nat.lt_succ_of_le (List.dropWhile_suffix isWordChar).length_le

/-- **What the pass over the bytes of a text cuts out** is the placeholders of the text. -/
theorem mapM_slice?_spans (s : String) : (spans s).mapM (slice? s) = some (tokens s) := by
  simpa [spans, Text.bytes, tokens, utf8] using mapM_slice?_spansFrom [] s.toList

end Keyspace.Placeholder
