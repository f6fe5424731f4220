import Keyspace.Proofs.Placeholder.Bytes
/-!
# The placeholders of a text are the longest ones

A placeholder is a sign with a word behind it, and `#title` holds others that are shorter.  Those
of a text are the ones over which no other one reaches: a placeholder begins with a sign, which is
no character of a word, so none can be prolonged to the front, and it can be prolonged to the back
as long as a character of a word follows.

Main definitions:

* `Keyspace.Placeholder.IsPlaceholder` — characters that are a placeholder and nothing else;
* `Keyspace.Placeholder.IsLongest` — a placeholder among some characters over which no other one
  reaches.

Main results:

* `Keyspace.Placeholder.isLongest_iff` — such a placeholder is one that no character of a word
  follows;
* `Keyspace.Placeholder.mem_tokensOf_iff` — the placeholders that are found are these;
* `Keyspace.Placeholder.finds_the_longest` — **what is found in a text**, whether by its characters
  or by its bytes.
-/

set_option autoImplicit false

namespace Keyspace.Placeholder

variable {cs pre t post : List Char}

/-- Characters that are a placeholder: a sign and at least one character of a word. -/
def IsPlaceholder (t : List Char) : Prop :=
  ∃ sign word, t = sign :: word ∧ isSign sign = true ∧ word ≠ [] ∧
    ∀ c ∈ word, isWordChar c = true

/-- A placeholder that stands in `cs` between `pre` and `post`, and no other one reaches over it. -/
structure IsLongest (cs pre t post : List Char) : Prop where
  splits : cs = pre ++ t ++ post
  isPlaceholder : IsPlaceholder t
  longest : ∀ pre' t' post', cs = pre' ++ t' ++ post' → IsPlaceholder t' →
    pre' <+: pre → post' <:+ post → pre' = pre ∧ post' = post

/-! ### Placeholders that cannot be prolonged -/

/-- A placeholder before a character of a word can be prolonged by it. -/
theorem IsPlaceholder.append (h : IsPlaceholder t) {c : Char} (hc : isWordChar c = true) :
    IsPlaceholder (t ++ [c]) := by
  obtain ⟨sign, word, rfl, hsign, -, hword⟩ := h
  refine ⟨sign, word ++ [c], rfl, hsign, by simp, fun d hd => ?_⟩
  rcases List.mem_append.1 hd with hd | hd
  · exact hword d hd
  · rwa [List.mem_singleton.1 hd]

/-- A placeholder around another one begins with it, and goes on with characters of a word. -/
theorem IsPlaceholder.around {x y : List Char} (ht : IsPlaceholder t)
    (h : IsPlaceholder (x ++ t ++ y)) : x = [] ∧ ∀ c ∈ y, isWordChar c = true := by
  obtain ⟨sign, word, rfl, hsign, -, -⟩ := ht
  obtain ⟨sign', word', heq, -, -, hword'⟩ := h
  cases x with
  | nil =>
      obtain ⟨-, rfl⟩ := List.cons.inj heq
      exact ⟨rfl, fun c hc => hword' c (List.mem_append_right _ hc)⟩
  | cons d x =>
      obtain ⟨-, rfl⟩ := List.cons.inj heq
      have hno : isWordChar sign = false := isWordChar_of_isSign hsign
      rw [hword' sign (by simp)] at hno
      cases hno

/-- **A placeholder is a longest one if no character of a word follows**, and only then. -/
theorem isLongest_iff : IsLongest cs pre t post ↔
    cs = pre ++ t ++ post ∧ IsPlaceholder t ∧ isApartChars post = true := by
  constructor
  · rintro ⟨hsplits, ht, hlongest⟩
    refine ⟨hsplits, ht, ?_⟩
    cases post with
    | nil => rfl
    | cons c rest =>
        simp only [isApartChars, Bool.not_eq_true']
        refine Bool.eq_false_iff.2 fun hc => ?_
        have hsame := (hlongest pre (t ++ [c]) rest (by simp [hsplits]) (ht.append hc)
          List.prefix_rfl (List.suffix_cons c rest)).2
        exact absurd (congrArg List.length hsame) (by simp)
  · rintro ⟨hsplits, ht, hapart⟩
    refine ⟨hsplits, ht, fun pre' t' post' hsplits' ht' hpre hpost => ?_⟩
    obtain ⟨x, rfl⟩ := hpre
    obtain ⟨y, rfl⟩ := hpost
    obtain rfl : x ++ t ++ y = t' := by
      rw [hsplits] at hsplits'
      have hfront : x ++ t ++ y ++ post' = t' ++ post' := by simpa using hsplits'
      exact List.append_cancel_right hfront
    obtain ⟨rfl, hword⟩ := ht.around ht'
    cases y with
    | nil => simp
    | cons c y =>
        have hno : isWordChar c = false := by simpa [isApartChars] using hapart
        rw [hword c List.mem_cons_self] at hno
        cases hno

/-! ### What is found -/

theorem isApartChars_dropWhile (cs : List Char) :
    isApartChars (cs.dropWhile isWordChar) = true := by
  have hhead := List.head?_dropWhile_not isWordChar cs
  cases hrest : cs.dropWhile isWordChar with
  | nil => rfl
  | cons c rest =>
      rw [hrest] at hhead
      simpa [isApartChars] using hhead

/-- Where the first character is a sign, there is one placeholder that no character of a word
follows, if there is a word. -/
theorem exists_front_iff {c : Char} :
    (∃ post, c :: cs = t ++ post ∧ IsPlaceholder t ∧ isApartChars post = true) ↔
      isSign c = true ∧ cs.takeWhile isWordChar ≠ [] ∧ t = c :: cs.takeWhile isWordChar := by
  constructor
  · rintro ⟨post, hsplit, ⟨sign, word, rfl, hsign, hne, hword⟩, hapart⟩
    obtain ⟨rfl, hrest⟩ := List.cons.inj hsplit
    have htake : cs.takeWhile isWordChar = word := by
      rw [hrest, List.append_eq, List.takeWhile_append_of_pos hword,
        takeWhile_of_isApartChars hapart, List.append_nil]
    rw [htake]
    exact ⟨hsign, hne, rfl⟩
  · rintro ⟨hsign, hne, rfl⟩
    refine ⟨cs.dropWhile isWordChar, ?_, ⟨c, _, rfl, hsign, hne, fun d hd => ?_⟩,
      isApartChars_dropWhile cs⟩
    · rw [List.cons_append, List.takeWhile_append_dropWhile]
    · exact List.all_eq_true.1 List.all_takeWhile d hd

/-- **The placeholders that are found** are those that no character of a word follows. -/
theorem mem_tokensOf_iff : t ∈ tokensOf cs ↔
    ∃ pre post, cs = pre ++ t ++ post ∧ IsPlaceholder t ∧ isApartChars post = true := by
  induction cs with
  | nil =>
      constructor
      · intro h
        cases h
      · rintro ⟨pre, post, hsplit, ⟨sign, word, rfl, -⟩, -⟩
        simp at hsplit
  | cons c cs ih =>
      have hfound : t ∈ tokensOf (c :: cs) ↔
          (isSign c = true ∧ cs.takeWhile isWordChar ≠ [] ∧ t = c :: cs.takeWhile isWordChar) ∨
            t ∈ tokensOf cs := by
        rw [tokensOf]
        by_cases hsign : isSign c = true
        · by_cases hempty : cs.takeWhile isWordChar = []
          · simp [hempty]
          · simp [hsign, hempty]
        · simp [hsign]
      rw [hfound, ih, ← exists_front_iff]
      constructor
      · rintro (⟨post, hsplit, ht⟩ | ⟨pre, post, rfl, ht⟩)
        · exact ⟨[], post, hsplit, ht⟩
        · exact ⟨c :: pre, post, rfl, ht⟩
      · rintro ⟨pre, post, hsplit, ht⟩
        cases pre with
        | nil => exact .inl ⟨post, hsplit, ht⟩
        | cons d pre =>
            obtain ⟨-, rfl⟩ := List.cons.inj hsplit
            exact .inr ⟨pre, post, rfl, ht⟩

theorem exists_of_mapM {α β : Type} {f : α → Option β} {xs : List α} {ys : List β}
    (h : xs.mapM f = some ys) {x : α} (hx : x ∈ xs) : ∃ y, f x = some y := by
  induction xs generalizing ys with
  | nil => cases hx
  | cons x' xs ih =>
      rw [List.mapM_cons] at h
      obtain ⟨y, hy, h⟩ := Option.bind_eq_some_iff.1 h
      obtain ⟨rest, hrest, -⟩ := Option.bind_eq_some_iff.1 h
      rcases List.mem_cons.1 hx with rfl | hx
      · exact ⟨y, hy⟩
      · exact ih hrest hx

/-- Both ends of a part that was cut out are between characters. -/
theorem isBoundary_of_slice? {s : String} {span : Span} {part : String}
    (h : slice? s span = some part) : IsBoundary s span.start ∧ IsBoundary s span.stop := by
  rw [slice?] at h
  split at h
  · assumption
  · cases h

/-- **What is found in a text.**  One pass over its bytes cuts it only between characters, and what
it cuts out are the placeholders; these are the parts of the text that are a longest placeholder.
Where no character of a word follows, the text can be divided: the placeholders of the whole are
those of the two parts. -/
theorem finds_the_longest :
    (∀ s : String, (∀ span ∈ spans s, IsBoundary s span.start ∧ IsBoundary s span.stop) ∧
      (spans s).mapM (slice? s) = some (tokens s) ∧
      ∀ t : String, t ∈ tokens s ↔ ∃ pre post, IsLongest s.toList pre t.toList post) ∧
    ∀ a b : String, isApart b = true →
      ∀ t : String, t ∈ tokens (a ++ b) ↔ t ∈ tokens a ∨ t ∈ tokens b := by
  refine ⟨fun s => ⟨fun span hspan => ?_, mapM_slice?_spans s, fun t => ?_⟩, fun a b hb t => ?_⟩
  · obtain ⟨part, hpart⟩ := exists_of_mapM (mapM_slice?_spans s) hspan
    exact isBoundary_of_slice? hpart
  · have htext : t ∈ tokens s ↔ t.toList ∈ tokensOf s.toList := by
      rw [tokens, List.mem_map]
      constructor
      · rintro ⟨cs, hcs, rfl⟩
        rwa [String.toList_ofList]
      · exact fun ht => ⟨t.toList, ht, String.ofList_toList⟩
    simp only [htext, mem_tokensOf_iff, isLongest_iff]
  · rw [tokens_append a hb, List.mem_append]

namespace Library

/-- A condition up to its last value; what is not ASCII ends a word. -/
def front : String := "begins_with(#n0é, :v_1"

/-- What follows, with signs that no word follows. -/
def back : String := ") OR ##:n1ß = :"

end Library

/-- The placeholders of the condition are found in its two parts. -/
theorem library_condition_is_divided :
    isApart Library.back = true ∧ "#n0" ∈ tokens (Library.front ++ Library.back) ∧
      ":v_1" ∈ tokens (Library.front ++ Library.back) ∧
      ":n1" ∈ tokens (Library.front ++ Library.back) ∧
      ":" ∉ tokens (Library.front ++ Library.back) := by
  have hapart : isApart Library.back = true := by decide +kernel
  have hdivided := finds_the_longest.2 Library.front Library.back hapart
  refine ⟨hapart, (hdivided _).2 (.inl ?_), (hdivided _).2 (.inl ?_), (hdivided _).2 (.inr ?_),
    fun h => ?_⟩
  · decide +kernel
  · decide +kernel
  · decide +kernel
  · rcases (hdivided _).1 h with h | h
    · revert h
      decide +kernel
    · revert h
      decide +kernel

end Keyspace.Placeholder
