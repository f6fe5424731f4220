import Keyspace.Placeholder
/-!
# The placeholders of joined texts

Expressions are written piece by piece.  The placeholders of a joined text are those of its pieces,
as long as no piece prolongs a word at the end of the piece before it: a piece that is empty or
starts with no character of a word is *apart* from what stands before it.

Main definitions:

* `Keyspace.Placeholder.isApart` — a text that prolongs no word before it;
* `Keyspace.Placeholder.isPlain` — a text without signs.

Main results:

* `Keyspace.Placeholder.tokens_append` — **the placeholders of a joined text**;
* `Keyspace.Placeholder.tokens_intercalate` — those of texts with a separator between them;
* `Keyspace.Placeholder.tokens_ofName`, `Keyspace.Placeholder.tokens_ofValue` — an issued
  placeholder is read as itself, and `Keyspace.Placeholder.ofName_inj`,
  `Keyspace.Placeholder.ofValue_inj` — no two issued ones are the same.
-/

set_option autoImplicit false

namespace Keyspace.Placeholder

/-! ### Joined characters -/

/-- Characters that prolong no word before them. -/
def isApartChars : List Char → Bool
  | [] => true
  | c :: _ => !isWordChar c

/-- Nothing of a word stands at the front of characters that are apart. -/
theorem takeWhile_of_isApartChars {cs : List Char} (h : isApartChars cs = true) :
    cs.takeWhile isWordChar = [] := by
  cases cs with
  | nil => rfl
  | cons c cs =>
      have hc : isWordChar c = false := by simpa [isApartChars] using h
      simp [hc]

/-- A word in front of characters that are apart ends where they start. -/
theorem takeWhile_append_of_isApartChars (a : List Char) {b : List Char}
    (h : isApartChars b = true) :
    (a ++ b).takeWhile isWordChar = a.takeWhile isWordChar := by
  rw [List.takeWhile_append, takeWhile_of_isApartChars h, List.append_nil]
  split
  · next hlen => exact ((List.takeWhile_prefix isWordChar).eq_of_length hlen).symm
  · rfl

/-- **The placeholders of joined characters** are those of the parts. -/
theorem tokensOf_append (a : List Char) {b : List Char} (h : isApartChars b = true) :
    tokensOf (a ++ b) = tokensOf a ++ tokensOf b := by
  induction a with
  | nil => rfl
  | cons c cs ih =>
      simp only [List.cons_append, tokensOf, takeWhile_append_of_isApartChars cs h, ih]
      split
      · rfl
      · rfl

/-- Characters without a sign have no placeholder, and change none behind them. -/
theorem tokensOf_append_of_plain {a : List Char} (b : List Char)
    (h : ∀ c ∈ a, isSign c = false) : tokensOf (a ++ b) = tokensOf b := by
  induction a with
  | nil => rfl
  | cons c cs ih =>
      have hc : isSign c = false := h c List.mem_cons_self
      have hcs : ∀ d ∈ cs, isSign d = false := fun d hd => h d (List.mem_cons_of_mem c hd)
      simp [tokensOf, hc, ih hcs]

/-- A sign and a word are one placeholder. -/
theorem tokensOf_sign_cons {sign : Char} {word : List Char} (hs : isSign sign = true)
    (hne : word ≠ []) (hw : ∀ c ∈ word, isWordChar c = true) :
    tokensOf (sign :: word) = [sign :: word] := by
  have hplain : ∀ c ∈ word, isSign c = false := by
    intro c hc
    cases hsign : isSign c with
    | false => rfl
    | true =>
        have hno : isWordChar c = false := isWordChar_of_isSign hsign
        rw [hw c hc] at hno
        cases hno
  have hrest : tokensOf word = [] := by
    simpa [tokensOf] using tokensOf_append_of_plain [] hplain
  have htake : word.takeWhile isWordChar = word := by
    have happend := takeWhile_append_of_isApartChars word (b := []) rfl
    rw [List.takeWhile_append_of_pos hw] at happend
    simpa using happend.symm
  simp [tokensOf, hs, htake, hne, hrest]

/-! ### Joined texts -/

/-- A text that prolongs no word before it. -/
def isApart (s : String) : Bool := isApartChars s.toList

/-- A text without signs. -/
def isPlain (s : String) : Bool := s.toList.all fun c => !isSign c

@[simp] theorem tokens_empty : tokens "" = [] := by decide

/-- **The placeholders of a joined text**, if the second part is apart. -/
theorem tokens_append (s : String) {t : String} (h : isApart t = true) :
    tokens (s ++ t) = tokens s ++ tokens t := by
  simp only [tokens, String.toList_append, tokensOf_append s.toList h, List.map_append]

theorem tokens_append_of_isPlain {s : String} (t : String) (h : isPlain s = true) :
    tokens (s ++ t) = tokens t := by
  have hs : ∀ c ∈ s.toList, isSign c = false := by
    intro c hc
    simpa using List.all_eq_true.1 h c hc
  simp only [tokens, String.toList_append, tokensOf_append_of_plain t.toList hs]

theorem tokens_of_isPlain {s : String} (h : isPlain s = true) : tokens s = [] := by
  have := tokens_append_of_isPlain "" h
  simpa using this

/-- A joined text is apart if its first part is and is not empty. -/
theorem isApart_append {s : String} (t : String) (hne : s ≠ "") (h : isApart s = true) :
    isApart (s ++ t) = true := by
  cases hs : s.toList with
  | nil => exact absurd (String.toList_inj.1 (by simpa using hs)) hne
  | cons c cs =>
      simp only [isApart, String.toList_append, hs, List.cons_append] at h ⊢
      exact h

/-- Texts one after the other, with a separator that holds no sign and starts with no character of
a word between them: their placeholders stand one after the other too. -/
theorem tokens_intercalate {sep : String} (hp : isPlain sep = true) (hne : sep ≠ "")
    (ha : isApart sep = true) (parts : List String) :
    tokens (sep.intercalate parts) = parts.flatMap tokens := by
  induction parts with
  | nil => simp
  | cons x rest ih =>
      cases rest with
      | nil => simp
      | cons y more =>
          rw [String.intercalate_cons_cons, String.append_assoc,
            tokens_append x (isApart_append _ hne ha), tokens_append_of_isPlain _ hp, ih]
          simp

/-! ### Issued placeholders -/

/-- The digits of a number are characters of a word. -/
theorem isWordChar_of_mem_toString {n : Nat} {c : Char} (h : c ∈ (toString n).toList) :
    isWordChar c = true := by
  have hdigits : c ∈ Nat.toDigits 10 n := by simpa using h
  have hc : c.isDigit = true := Nat.isDigit_of_mem_toDigits (by decide) (by decide) hdigits
  simp [isWordChar, Char.isAlphanum, hc]

/-- Numbers with the same digits are the same. -/
theorem toString_nat_inj {m n : Nat} (h : (toString m).toList = (toString n).toList) : m = n := by
  have hdigits : Nat.toDigits 10 m = Nat.toDigits 10 n := by simpa using h
  have hread := congrArg (fun digits => Nat.ofDigitChars 10 digits 0) hdigits
  simpa using hread

/-- An issued name is read as itself. -/
theorem tokens_ofName (n : Nat) : tokens (ofName n) = [ofName n] := by
  have hw : ∀ c ∈ 'n' :: (toString n).toList, isWordChar c = true := by
    intro c hc
    rcases List.mem_cons.1 hc with rfl | hc
    · decide
    · exact isWordChar_of_mem_toString hc
  have htext : (ofName n).toList = '#' :: 'n' :: (toString n).toList := by
    simp [ofName, String.toList_append]
  rw [tokens, htext, tokensOf_sign_cons (by decide) (List.cons_ne_nil _ _) hw, ← htext]
  simp

/-- An issued value is read as itself. -/
theorem tokens_ofValue (n : Nat) : tokens (ofValue n) = [ofValue n] := by
  have hw : ∀ c ∈ 'v' :: (toString n).toList, isWordChar c = true := by
    intro c hc
    rcases List.mem_cons.1 hc with rfl | hc
    · decide
    · exact isWordChar_of_mem_toString hc
  have htext : (ofValue n).toList = ':' :: 'v' :: (toString n).toList := by
    simp [ofValue, String.toList_append]
  rw [tokens, htext, tokensOf_sign_cons (by decide) (List.cons_ne_nil _ _) hw, ← htext]
  simp

theorem ofName_inj {m n : Nat} (h : ofName m = ofName n) : m = n := by
  refine toString_nat_inj ?_
  have htext := congrArg String.toList h
  simpa [ofName, String.toList_append] using htext

theorem ofValue_inj {m n : Nat} (h : ofValue m = ofValue n) : m = n := by
  refine toString_nat_inj ?_
  have htext := congrArg String.toList h
  simpa [ofValue, String.toList_append] using htext

@[simp] theorem isName_ofName (n : Nat) : isName (ofName n) = true := by
  simp [isName, ofName, String.toList_append]

@[simp] theorem isValue_ofValue (n : Nat) : isValue (ofValue n) = true := by
  simp [isValue, ofValue, String.toList_append]

theorem isApart_ofName (n : Nat) : isApart (ofName n) = true := by
  simp [isApart, isApartChars, ofName, String.toList_append]
  decide

theorem isApart_ofValue (n : Nat) : isApart (ofValue n) = true := by
  simp [isApart, isApartChars, ofValue, String.toList_append]
  decide

/-- No placeholder stands for both a name and a value. -/
theorem isValue_of_isName {p : String} (h : isName p = true) : isValue p = false := by
  have hp : p.toList.head? = some '#' := by simpa [isName] using h
  simp [isValue, hp]

/-- Every placeholder of a text stands for a name or for a value. -/
theorem isName_or_isValue_of_mem_tokens {s p : String} (h : p ∈ tokens s) :
    isName p = true ∨ isValue p = true := by
  obtain ⟨cs, hcs, rfl⟩ := List.mem_map.1 h
  revert hcs
  induction s.toList with
  | nil => intro hcs; simp [tokensOf] at hcs
  | cons c rest ih =>
      intro hcs
      simp only [tokensOf] at hcs
      split at hcs
      · next hsign =>
          rcases List.mem_cons.1 hcs with rfl | hcs
          · have hc : isSign c = true := (Bool.and_eq_true_iff.1 hsign).1
            simpa [isSign, isName, isValue] using hc
          · exact ih hcs
      · exact ih hcs

end Keyspace.Placeholder
