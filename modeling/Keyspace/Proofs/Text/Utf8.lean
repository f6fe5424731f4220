import Keyspace.Text.Blank
import Keyspace.Text.Utf8
/-!
# Texts and their bytes

The bytes of a text spell that text.  A character of ASCII is one byte, its number, and the bytes
of every other character are 128 at least.  Blanks around a text without blanks are left out when
it is trimmed, and nothing but blanks is.

Main results:

* `Keyspace.Text.ofUtf8?_utf8` — **the bytes of some characters spell them**;
* `Keyspace.Text.utf8EncodeChar_of_ascii`, `Keyspace.Text.le_of_mem_utf8EncodeChar` — the bytes of
  a character;
* `Keyspace.Text.trim_of_blanks`, `Keyspace.Text.exists_blanks_around` — trimming.
-/

set_option autoImplicit false

namespace Keyspace.Text

/-! ### Bytes -/

/-- **The bytes of some characters spell them.** -/
theorem ofUtf8?_utf8 (cs : List Char) : ofUtf8? (utf8 cs) = some (String.ofList cs) := by
  have hbytes : (⟨(utf8 cs).toArray⟩ : ByteArray) = cs.utf8Encode := by
    apply ByteArray.ext
    simp [utf8, List.utf8Encode]
  unfold ofUtf8? String.fromUTF8?
  rw [hbytes, dif_pos ByteArray.isValidUTF8_utf8Encode]
  rfl

/-- A character of ASCII is one byte. -/
theorem utf8EncodeChar_of_ascii {c : Char} (h : c.toNat < 0x80) :
    String.utf8EncodeChar c = [c.toUInt8] := by
  refine String.utf8EncodeChar_eq_singleton (Char.utf8Size_eq_one_iff.2 ?_)
  rw [UInt32.le_iff_toNat_le]
  exact Nat.le_of_lt_succ h

/-- Characters of ASCII are one byte each. -/
theorem utf8_of_ascii {cs : List Char} (h : ∀ c ∈ cs, c.toNat < 0x80) :
    utf8 cs = cs.map Char.toUInt8 := by
  induction cs with
  | nil => rfl
  | cons c cs ih =>
      have hc := utf8EncodeChar_of_ascii (h c List.mem_cons_self)
      have hcs := ih fun d hd => h d (List.mem_cons_of_mem c hd)
      rw [List.map_cons, ← hcs, utf8, List.flatMap_cons, hc]
      rfl

/-- The bytes of a character that is not one of ASCII are no characters of ASCII. -/
theorem le_of_mem_utf8EncodeChar {c : Char} (h : 0x80 ≤ c.toNat) {b : UInt8}
    (hb : b ∈ String.utf8EncodeChar c) : 0x80 ≤ b.toNat := by
  have hsmall : ¬ c.val.toNat ≤ 127 := by
    have hval : c.toNat = c.val.toNat := rfl
    omega
  have hmax : c.val.toNat < 0x110000 := by
    have hvalid := c.valid
    simp only [UInt32.isValidChar, Nat.isValidChar] at hvalid
    omega
  unfold String.utf8EncodeChar at hb
  simp only [hsmall, if_false] at hb
  -- the leading byte has its high bits set, and so has each byte that continues it
  split at hb
  · simp only [List.mem_cons, List.not_mem_nil, or_false] at hb
    rcases hb with rfl | rfl <;> simp only [UInt8.toNat_ofNat'] <;> omega
  · split at hb
    · simp only [List.mem_cons, List.not_mem_nil, or_false] at hb
      rcases hb with rfl | rfl | rfl <;> simp only [UInt8.toNat_ofNat'] <;> omega
    · simp only [List.mem_cons, List.not_mem_nil, or_false] at hb
      rcases hb with rfl | rfl | rfl | rfl <;> simp only [UInt8.toNat_ofNat'] <;> omega

/-! ### Blanks -/

theorem trimStart_append {pre cs : List Char} (h : pre.all isBlank = true) :
    trimStart (pre ++ cs) = trimStart cs := by
  unfold trimStart
  rw [List.dropWhile_append_of_pos]
  simpa using h

/-- Characters that are not blank are kept. -/
theorem trimStart_of_visible {cs : List Char} (h : ∀ c ∈ cs, isBlank c = false) :
    trimStart cs = cs := by
  cases cs with
  | nil => rfl
  | cons c cs =>
      have hc := h c List.mem_cons_self
      simp [trimStart, hc]

/-- **Blanks around a text without blanks** are left out. -/
theorem trim_of_blanks {pre s post : String} (hpre : isBlankText pre = true)
    (hpost : isBlankText post = true) (hs : ∀ c ∈ s.toList, isBlank c = false) :
    trim (pre ++ s ++ post) = s := by
  have hend : trimEnd (trimStart (s.toList ++ post.toList)) = s.toList := by
    cases hcs : s.toList with
    | nil =>
        rw [List.nil_append, ← List.append_nil post.toList, trimStart_append hpost]
        rfl
    | cons c cs =>
        rw [hcs] at hs
        have hfirst : trimStart (c :: cs ++ post.toList) = c :: cs ++ post.toList := by
          have hc := hs c List.mem_cons_self
          simp [trimStart, hc]
        have hback : ∀ d ∈ (c :: cs).reverse, isBlank d = false := fun d hd =>
          hs d (List.mem_reverse.1 hd)
        rw [hfirst, trimEnd, List.reverse_append, trimStart_append, trimStart_of_visible hback,
          List.reverse_reverse]
        rw [List.all_reverse]
        exact hpost
  have hall : (pre ++ s ++ post).toList = pre.toList ++ (s.toList ++ post.toList) := by
    simp [String.toList_append, List.append_assoc]
  rw [trim, hall, trimStart_append hpre, hend, String.ofList_toList]

/-- Nothing but blanks is left out at the start. -/
theorem exists_trimStart (cs : List Char) :
    ∃ pre, cs = pre ++ trimStart cs ∧ pre.all isBlank = true :=
  ⟨cs.takeWhile isBlank, List.takeWhile_append_dropWhile.symm, List.all_takeWhile⟩

/-- **Nothing but blanks is left out** at the two ends of a text. -/
theorem exists_blanks_around (s : String) :
    ∃ pre post, s = pre ++ trim s ++ post ∧ isBlankText pre = true ∧ isBlankText post = true := by
  obtain ⟨pre, hpre, hpreBlank⟩ := exists_trimStart s.toList
  obtain ⟨post, hpost, hpostBlank⟩ := exists_trimStart (trimStart s.toList).reverse
  have hrest : trimStart s.toList = trimEnd (trimStart s.toList) ++ post.reverse := by
    have hback := congrArg List.reverse hpost
    rwa [List.reverse_reverse, List.reverse_append] at hback
  refine ⟨String.ofList pre, String.ofList post.reverse, ?_, ?_, ?_⟩
  · rw [trim, ← String.ofList_append, ← String.ofList_append, List.append_assoc, ← hrest, ← hpre,
      String.ofList_toList]
  · rw [isBlankText, String.toList_ofList]
    exact hpreBlank
  · rw [isBlankText, String.toList_ofList, List.all_reverse]
    exact hpostBlank

end Keyspace.Text
