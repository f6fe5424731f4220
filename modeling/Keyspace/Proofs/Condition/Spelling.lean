import Keyspace.Condition.Basic
import Keyspace.Proofs.Dict.Union
import Keyspace.Proofs.Text.Utf8
/-!
# How an operator is spelt

An operator is read from a text that is one of its spellings, in any case and with blanks around
it, and from no other text.  A text that spells no operator is wrong in itself.

Main definitions:

* `Keyspace.Operator.Spells` — a text spells an operator;
* `Keyspace.Operator.misspelling` — what is wrong with a text that spells none.

Main results:

* `Keyspace.Operator.read_eq_ok_iff` — **the texts from which an operator is read**;
* `Keyspace.Operator.read_eq_error_iff` — all others are wrong in themselves;
* `Keyspace.Operator.spells_text` — an operator is spelt by its own text.
-/

set_option autoImplicit false

namespace Keyspace.Operator

/-- **A text spells an operator**: blanks around a word that is one of the operator's spellings but
for the case of its letters. -/
def Spells (text : String) (op : Operator) : Prop :=
  ∃ before word after spelling, text = before ++ word ++ after ∧
    Text.isBlankText before = true ∧ Text.isBlankText after = true ∧
      (spelling, op) ∈ spellings ∧ word.toList.map Char.toUpper = spelling.toList

/-! ### Case and blanks -/

/-- A blank has no case. -/
theorem toUpper_of_isBlank {c : Char} (h : Text.isBlank c = true) : c.toUpper = c := by
  unfold Char.toUpper
  split
  · next hletter =>
      have hlow : 97 ≤ c.toNat := hletter.1
      have hhigh : c.toNat ≤ 122 := hletter.2
      simp only [Text.isBlank, Bool.or_eq_true, Bool.and_eq_true, decide_eq_true_eq,
        beq_iff_eq] at h
      omega
  · rfl

/-- No spelling has a blank in it, whatever the case of its letters. -/
theorem isBlank_of_mem_word {word : List Char} {spelling : String} {op : Operator}
    (hspelling : (spelling, op) ∈ spellings) (hword : word.map Char.toUpper = spelling.toList) :
    ∀ c ∈ word, Text.isBlank c = false := by
  intro c hc
  have hvisible : (spellings.all fun e => e.1.toList.all fun d => !Text.isBlank d) = true := by
    decide
  have hupper : Text.isBlank c.toUpper = false := by
    have hall := List.all_eq_true.1 (List.all_eq_true.1 hvisible _ hspelling) c.toUpper
      (hword ▸ List.mem_map_of_mem hc)
    simpa using hall
  cases hblank : Text.isBlank c with
  | false => rfl
  | true => rw [toUpper_of_isBlank hblank, hblank] at hupper; cases hupper

/-- A spelling is one of a single operator. -/
theorem lookup_spellings_iff {spelling : String} {op : Operator} :
    spellings.lookup spelling = some op ↔ (spelling, op) ∈ spellings := by
  have hunique : ∀ e ∈ spellings, spellings.lookup e.1 = some e.2 := by decide
  exact ⟨fun h => Dict.mem_of_get? h, fun h => hunique _ h⟩

/-! ### Reading -/

theorem read?_eq_some_iff {text : String} {op : Operator} :
    read? text = some op ↔ Spells text op := by
  unfold read?
  rw [lookup_spellings_iff]
  constructor
  · intro hspelling
    obtain ⟨before, after, htext, hbefore, hafter⟩ := Text.exists_blanks_around text
    refine ⟨before, Text.trim text, after, normalized text, htext, hbefore, hafter, hspelling, ?_⟩
    rw [normalized, String.toList_ofList]
  · rintro ⟨before, word, after, spelling, rfl, hbefore, hafter, hspelling, hword⟩
    have htrim := Text.trim_of_blanks hbefore hafter (isBlank_of_mem_word hspelling hword)
    rw [normalized, htrim, hword, String.ofList_toList]
    exact hspelling

/-- A text of blanks spells no operator. -/
theorem not_spells_of_isBlankText {text : String} (h : Text.isBlankText text = true)
    (op : Operator) : ¬Spells text op := by
  rintro ⟨before, word, after, spelling, rfl, -, -, hspelling, hword⟩
  -- some character of the word is not blank, since no spelling is empty
  have hlong : ∀ e ∈ spellings, e.1.toList ≠ [] := by decide
  obtain ⟨c, hc⟩ := List.exists_mem_of_ne_nil word.toList fun hnil => by
    rw [hnil] at hword
    exact hlong _ hspelling hword.symm
  have hvisible := isBlank_of_mem_word hspelling hword c hc
  have hblank := List.all_eq_true.1 h c (by simp [String.toList_append, hc])
  rw [hvisible] at hblank
  cases hblank

/-- **An operator is read from the texts that spell it**, and from no others. -/
theorem read_eq_ok_iff {text : String} {op : Operator} :
    Operator.read text = .ok op ↔ Spells text op := by
  unfold Operator.read
  split
  · next hblank =>
      refine ⟨fun h => ?_, fun h => absurd h (not_spells_of_isBlankText hblank op)⟩
      cases h
  · rw [← read?_eq_some_iff]
    cases read? text <;> simp

/-- What is wrong with a text that spells no operator. -/
def misspelling (text : String) : Invalid :=
  if Text.isBlankText text then .emptyOperator else .unsupportedOperator text

/-- **A text that spells no operator is wrong in itself.** -/
theorem read_eq_error_iff {text : String} :
    Operator.read text = .error (.invalid (misspelling text)) ↔ ∀ op, ¬Spells text op := by
  constructor
  · intro h op hspells
    rw [read_eq_ok_iff.2 hspells] at h
    cases h
  · intro h
    have hnone : read? text = none := by
      refine Option.eq_none_iff_forall_ne_some.2 fun op hop => h op (read?_eq_some_iff.1 hop)
    unfold Operator.read misspelling
    rw [hnone]
    split <;> rfl

/-- **An operator is spelt by its own text.** -/
theorem spells_text (op : Operator) : Spells op.text op := by
  have hread : ∀ op ∈ all, read? op.text = some op := by decide
  exact read?_eq_some_iff.1 (hread op (mem_all op))

end Keyspace.Operator
