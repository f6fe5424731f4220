import Keyspace.Json.Printer
import Keyspace.Json.Token
import Keyspace.Proofs.Text.Utf8
import Mathlib.Data.List.Forall2
/-!
# The tokens of written JSON

What was written is cut into the tokens that it was written of, whatever the texts in it hold: a
quote, a backslash or a control character inside a string never ends it.

Main definitions:

* `Keyspace.Json.tokens` — the tokens that a value is written of;
* `Keyspace.Json.isLiteral`, `Keyspace.Json.isSpelt` — numbers that are cut out as one token;
* `Keyspace.Json.Token.Cuts` — characters that are cut into some tokens, whatever follows.

Main results:

* `Keyspace.Json.Token.cuts_quoted` — **a written string is one token, with its text**;
* `Keyspace.Json.cuts_chars` — **a written value is cut into its tokens**.
-/

set_option autoImplicit false

namespace Keyspace.Json

/-! ### The tokens of a value -/

/-- Tokens with a comma between each two parts. -/
def separated : List (List Token) → List Token
  | [] => []
  | [ts] => ts
  | ts :: rest => ts ++ .comma :: separated rest

mutual

/-- **The tokens that a value is written of.** -/
def tokens : Json → List Token
  | .null => [.null]
  | .bool b => [.bool b]
  | .int n => [.number (toString n)]
  | .real literal => [.number literal]
  | .string s => [.string (some s)]
  | .array xs => .openArray :: separated (tokensOfElements xs) ++ [.closeArray]
  | .object ms => .openObject :: separated (tokensOfMembers ms) ++ [.closeObject]

/-- The tokens of each element. -/
def tokensOfElements : List Json → List (List Token)
  | [] => []
  | x :: xs => tokens x :: tokensOfElements xs

/-- The tokens of each member. -/
def tokensOfMembers : List (String × Json) → List (List Token)
  | [] => []
  | (name, x) :: ms => (.string (some name) :: .colon :: tokens x) :: tokensOfMembers ms

end

/-- A text that is cut out as one number: it begins like one and holds nothing else. -/
def isLiteral (literal : String) : Bool :=
  literal.toList.all (fun c => c.toNat < 0x80 && Token.inNumber c.toUInt8) &&
    (literal.toList.head?.any fun c => Token.beginsNumber c.toUInt8) &&
    Token.isNumber literal.toList

mutual

/-- Whether all numbers in a value are cut out as one token. -/
def isSpelt : Json → Bool
  | .int n => isLiteral (toString n)
  | .real literal => isLiteral literal
  | .array xs => areSpelt xs
  | .object ms => membersSpelt ms
  | _ => true

/-- Whether all numbers in some elements are cut out as one token. -/
def areSpelt : List Json → Bool
  | [] => true
  | x :: xs => isSpelt x && areSpelt xs

/-- Whether all numbers in some members are cut out as one token. -/
def membersSpelt : List (String × Json) → Bool
  | [] => true
  | (_, x) :: ms => isSpelt x && membersSpelt ms

end

namespace Token

/-! ### One byte -/

theorem cut_cons {mode mode' : Mode} {b : UInt8} {ts : List Token}
    (h : step mode b = some (ts, mode')) (bs : List UInt8) :
    cut mode (b :: bs) = (cut mode' bs).map (ts ++ ·) := by
  simp only [cut, h, Option.bind_eq_bind, Option.bind_some, Option.map_eq_bind]
  rfl

/-- A byte that completes no token. -/
theorem cut_cons_quiet {mode mode' : Mode} {b : UInt8} (h : step mode b = some ([], mode'))
    (bs : List UInt8) : cut mode (b :: bs) = cut mode' bs := by
  rw [cut_cons h]
  simp

/-! ### Strings -/

/-- The pieces that a character of a string is read as. -/
def pieces (c : Char) : List Piece :=
  if (escape c).length = 6 then [.unit c.toNat] else (String.utf8EncodeChar c).map .byte

/-- Bytes that stand in a string as they are. -/
theorem cut_plain {bs : List UInt8}
    (h : ∀ b ∈ bs, b ≠ '"'.toUInt8 ∧ b ≠ '\\'.toUInt8 ∧ ¬ b < 0x20) (ps : List Piece)
    (rest : List UInt8) :
    cut (.string ps) (bs ++ rest) = cut (.string ((bs.map .byte).reverse ++ ps)) rest := by
  induction bs generalizing ps with
  | nil => rfl
  | cons b bs ih =>
      obtain ⟨hquote, hbackslash, hcontrol⟩ := h b List.mem_cons_self
      have hstep : step (.string ps) b = some ([], .string (.byte b :: ps)) := by
        simp only [step, if_neg hquote, if_neg hbackslash, if_neg hcontrol]
      rw [List.cons_append, cut_cons_quiet hstep, ih fun d hd => h d (List.mem_cons_of_mem b hd)]
      simp

/-- An escape of one letter. -/
theorem cut_letter {b : UInt8} {p : Piece} (hb : b ≠ 'u'.toUInt8) (hp : escaped? b = some p)
    (ps : List Piece) (rest : List UInt8) :
    cut (.string ps) ('\\'.toUInt8 :: b :: rest) = cut (.string (p :: ps)) rest := by
  have hfirst : step (.string ps) '\\'.toUInt8 = some ([], .escape ps) := rfl
  have hsecond : step (.escape ps) b = some ([], .string (p :: ps)) := by
    simp only [step, if_neg hb, hp, Option.map_some]
  rw [cut_cons_quiet hfirst, cut_cons_quiet hsecond]

/-- The value of a written hexadecimal digit. -/
theorem hexValue?_hexDigit {n : Nat} (h : n < 16) :
    hexValue? (Bytes.hexDigit n).toUInt8 = some n ∧ (Bytes.hexDigit n).toNat < 0x80 := by
  have hall : ∀ n < 16, hexValue? (Bytes.hexDigit n).toUInt8 = some n ∧
      (Bytes.hexDigit n).toNat < 0x80 := by decide
  exact hall n h

/-- An escape of four hexadecimal digits, the first two of them zero. -/
theorem cut_hex {n : Nat} (h : n < 0x20) (ps : List Piece) (rest : List UInt8) :
    cut (.string ps) ('\\'.toUInt8 :: 'u'.toUInt8 :: '0'.toUInt8 :: '0'.toUInt8 ::
      (Bytes.hexDigit (n / 16)).toUInt8 :: (Bytes.hexDigit (n % 16)).toUInt8 :: rest) =
      cut (.string (.unit n :: ps)) rest := by
  have hhigh := (hexValue?_hexDigit (n := n / 16) (by omega)).1
  have hlow := (hexValue?_hexDigit (n := n % 16) (by omega)).1
  have hbackslash : step (.string ps) '\\'.toUInt8 = some ([], .escape ps) := rfl
  have hu : step (.escape ps) 'u'.toUInt8 = some ([], .hex ps 3 0) := rfl
  have hzero : step (.hex ps 3 0) '0'.toUInt8 = some ([], .hex ps 2 0) := rfl
  have hzero' : step (.hex ps 2 0) '0'.toUInt8 = some ([], .hex ps 1 0) := rfl
  have hthird : step (.hex ps 1 0) (Bytes.hexDigit (n / 16)).toUInt8 =
      some ([], .hex ps 0 (n / 16)) := by
    simp only [step, hhigh, Option.map_some, Nat.zero_mul, Nat.zero_add]
  have hlast : step (.hex ps 0 (n / 16)) (Bytes.hexDigit (n % 16)).toUInt8 =
      some ([], .string (.unit n :: ps)) := by
    simp only [step, hlow, Option.map_some]
    rw [show n / 16 * 16 + n % 16 = n by omega]
  rw [cut_cons_quiet hbackslash, cut_cons_quiet hu, cut_cons_quiet hzero, cut_cons_quiet hzero',
    cut_cons_quiet hthird, cut_cons_quiet hlast]

/-- The byte of a character of ASCII is the number of the character. -/
theorem toNat_toUInt8 {c : Char} (h : c.toNat < 0x80) : c.toUInt8.toNat = c.toNat := by
  show c.toNat % 256 = c.toNat
  omega

/-- The byte of a character of ASCII is the byte of no other one. -/
theorem ne_of_ascii {c d : Char} (hc : c.toNat < 0x80) (hd : d.toNat < 0x80) (h : c ≠ d) :
    c.toUInt8 ≠ d.toUInt8 := by
  intro heq
  have hnat := congrArg UInt8.toNat heq
  rw [toNat_toUInt8 hc, toNat_toUInt8 hd] at hnat
  exact h (Char.toNat_inj.1 hnat)

/-- The bytes of a character that needs no escape. -/
theorem plain_of_mem {c : Char} (hquote : c ≠ '"') (hbackslash : c ≠ '\\')
    (hcontrol : ¬ c.toNat < 0x20) {b : UInt8} (hb : b ∈ String.utf8EncodeChar c) :
    b ≠ '"'.toUInt8 ∧ b ≠ '\\'.toUInt8 ∧ ¬ b < 0x20 := by
  by_cases hc : c.toNat < 0x80
  · rw [Text.utf8EncodeChar_of_ascii hc, List.mem_singleton] at hb
    subst hb
    refine ⟨ne_of_ascii hc (by decide) hquote, ne_of_ascii hc (by decide) hbackslash, ?_⟩
    rw [UInt8.lt_iff_toNat_lt, toNat_toUInt8 hc]
    exact hcontrol
  · have hhigh := Text.le_of_mem_utf8EncodeChar (by omega) hb
    refine ⟨?_, ?_, ?_⟩
    · rintro rfl
      exact absurd hhigh (by decide)
    · rintro rfl
      exact absurd hhigh (by decide)
    · rw [UInt8.lt_iff_toNat_lt, show (0x20 : UInt8).toNat = 0x20 from rfl]
      omega

/-- **A character of a string**, escaped or not, is read as its pieces. -/
theorem cut_escape (c : Char) (ps : List Piece) (rest : List UInt8) :
    cut (.string ps) (Text.utf8 (escape c) ++ rest) =
      cut (.string ((pieces c).reverse ++ ps)) rest := by
  by_cases hletter : c ∈ ['"', '\\', '\x08', '\x0c', '\n', '\r', '\t']
  · simp only [List.mem_cons, List.not_mem_nil, or_false] at hletter
    rcases hletter with rfl | rfl | rfl | rfl | rfl | rfl | rfl
    · exact cut_letter (b := '"'.toUInt8) (by decide) rfl ps rest
    · exact cut_letter (b := '\\'.toUInt8) (by decide) rfl ps rest
    · exact cut_letter (b := 'b'.toUInt8) (by decide) rfl ps rest
    · exact cut_letter (b := 'f'.toUInt8) (by decide) rfl ps rest
    · exact cut_letter (b := 'n'.toUInt8) (by decide) rfl ps rest
    · exact cut_letter (b := 'r'.toUInt8) (by decide) rfl ps rest
    · exact cut_letter (b := 't'.toUInt8) (by decide) rfl ps rest
  · simp only [List.mem_cons, List.not_mem_nil, or_false, not_or] at hletter
    obtain ⟨hquote, hbackslash, hb, hf, hn, hr, ht⟩ := hletter
    by_cases hcontrol : c.toNat < 0x20
    · have hescape : escape c = ['\\', 'u', '0', '0', Bytes.hexDigit (c.toNat / 16),
          Bytes.hexDigit (c.toNat % 16)] := by
        simp only [escape, hquote, hbackslash, hb, hf, hn, hr, ht, hcontrol, if_true, if_false]
      have hhigh := (hexValue?_hexDigit (n := c.toNat / 16) (by omega)).2
      have hlow := (hexValue?_hexDigit (n := c.toNat % 16) (by omega)).2
      have hbytes : Text.utf8 (escape c) = ['\\'.toUInt8, 'u'.toUInt8, '0'.toUInt8, '0'.toUInt8,
          (Bytes.hexDigit (c.toNat / 16)).toUInt8, (Bytes.hexDigit (c.toNat % 16)).toUInt8] := by
        rw [hescape]
        simp only [Text.utf8, List.flatMap_cons, List.flatMap_nil,
          Text.utf8EncodeChar_of_ascii hhigh, Text.utf8EncodeChar_of_ascii hlow]
        rfl
      rw [hbytes, pieces, hescape]
      exact cut_hex hcontrol ps rest
    · have hescape : escape c = [c] := by
        simp only [escape, hquote, hbackslash, hb, hf, hn, hr, ht, hcontrol, if_false]
      rw [pieces, hescape, if_neg (by simp), show Text.utf8 [c] = String.utf8EncodeChar c by
        simp [Text.utf8]]
      exact cut_plain (fun b hb => plain_of_mem hquote hbackslash hcontrol hb) ps rest

/-- The characters of a string are read as their pieces. -/
theorem cut_escapes (cs : List Char) (ps : List Piece) (rest : List UInt8) :
    cut (.string ps) (Text.utf8 (cs.flatMap escape) ++ rest) =
      cut (.string ((cs.flatMap pieces).reverse ++ ps)) rest := by
  induction cs generalizing ps with
  | nil => rfl
  | cons c cs ih =>
      rw [List.flatMap_cons, Text.utf8_append, List.append_assoc, cut_escape, ih,
        List.flatMap_cons, List.reverse_append, List.append_assoc]

/-! ### The text of a string -/

theorem bytesOfPieces_bytes (bs : List UInt8) (ps : List Piece) :
    bytesOfPieces (bs.map .byte ++ ps) = (bytesOfPieces ps).map (bs ++ ·) := by
  induction bs with
  | nil => simp
  | cons b bs ih =>
      rw [List.map_cons, List.cons_append, bytesOfPieces, ih, Option.map_map]
      rfl

/-- A unit that is no half stands for a character of its own. -/
theorem bytesOfPieces_unit {u : Nat} (h : u < 0xD800) (ps : List Piece) :
    bytesOfPieces (.unit u :: ps) =
      (bytesOfPieces ps).map (String.utf8EncodeChar (Char.ofNat u) ++ ·) := by
  have hhigh : isHighHalf u = false := by
    simp only [isHighHalf, Bool.and_eq_false_iff, decide_eq_false_iff_not]
    omega
  have hlow : isLowHalf u = false := by
    simp only [isLowHalf, Bool.and_eq_false_iff, decide_eq_false_iff_not]
    omega
  rcases ps with _ | ⟨b | v, ps⟩ <;> simp [bytesOfPieces, hhigh, hlow]

/-- The pieces of some characters spell their bytes. -/
theorem bytesOfPieces_flatMap (cs : List Char) :
    bytesOfPieces (cs.flatMap pieces) = some (Text.utf8 cs) := by
  induction cs with
  | nil => rfl
  | cons c cs ih =>
      have hbytes : Text.utf8 (c :: cs) = String.utf8EncodeChar c ++ Text.utf8 cs := by
        simp [Text.utf8]
      rw [List.flatMap_cons, pieces, hbytes]
      split
      · next hlength =>
          have hcontrol : c.toNat < 0x20 := by
            by_contra hc
            revert hlength
            unfold escape
            simp only [hc, if_false]
            split_ifs <;> simp
          rw [List.singleton_append, bytesOfPieces_unit (by omega), ih, Char.ofNat_toNat]
          rfl
      · rw [bytesOfPieces_bytes, ih]
        rfl

/-- The pieces of a text spell it. -/
theorem textOfPieces_flatMap (s : String) :
    textOfPieces (s.toList.flatMap pieces) = some s := by
  rw [textOfPieces, bytesOfPieces_flatMap, Option.bind_some, Text.ofUtf8?_utf8,
    String.ofList_toList]

/-! ### Characters that are cut into some tokens -/

/-- Bytes before which a word and a number end. -/
def Delimits (rest : List UInt8) : Prop :=
  ∀ b, rest.head? = some b → isLetter b = false ∧ inNumber b = false

/-- Characters that are cut into some tokens, whatever follows that is not a part of them. -/
def Cuts (cs : List Char) (ts : List Token) : Prop :=
  ∀ rest, Delimits rest → cut .between (Text.utf8 cs ++ rest) = (cut .between rest).map (ts ++ ·)

theorem delimits_nil : Delimits [] := by
  intro b hb
  cases hb

theorem delimits_cons {b : UInt8} (h : isLetter b = false ∧ inNumber b = false)
    (rest : List UInt8) : Delimits (b :: rest) := by
  intro d hd
  cases hd
  exact h

/-- What was cut is all there is. -/
theorem Cuts.ofBytes {cs : List Char} {ts : List Token} (h : Cuts cs ts) :
    ofBytes (Text.utf8 cs) = some ts := by
  have hall := h [] delimits_nil
  rw [List.append_nil] at hall
  rw [Token.ofBytes, hall]
  simp [cut, finish]

/-- Parts with a character of its own between them. -/
theorem Cuts.append {cs ds : List Char} {c : Char} {t : Token} {ts us : List Token}
    (hcs : Cuts cs ts) (hds : Cuts ds us) (hc : c.toNat < 0x80)
    (hdelimits : isLetter c.toUInt8 = false ∧ inNumber c.toUInt8 = false)
    (ht : step .between c.toUInt8 = some ([t], .between)) :
    Cuts (cs ++ c :: ds) (ts ++ t :: us) := by
  intro rest hrest
  have hbytes : Text.utf8 (cs ++ c :: ds) = Text.utf8 cs ++ c.toUInt8 :: Text.utf8 ds := by
    simp [Text.utf8, Text.utf8EncodeChar_of_ascii hc]
  rw [hbytes, List.append_assoc, List.cons_append, hcs _ (delimits_cons hdelimits _), cut_cons ht,
    hds rest hrest, Option.map_map, Option.map_map]
  congr 1
  funext more
  simp

/-! ### Strings, words and numbers -/

/-- **A written string is one token, with its text.** -/
theorem cuts_quoted (s : String) : Cuts (quoted s) [.string (some s)] := by
  intro rest _
  have hbytes : Text.utf8 (quoted s) ++ rest =
      '"'.toUInt8 :: (Text.utf8 (s.toList.flatMap escape) ++ '"'.toUInt8 :: rest) := by
    rw [quoted, Text.utf8_append, List.append_assoc]
    rfl
  have hopen : step .between '"'.toUInt8 = some ([], .string []) := rfl
  have hclose : step (.string ((s.toList.flatMap pieces).reverse ++ [])) '"'.toUInt8 =
      some ([.string (some s)], .between) := by
    rw [List.append_nil, step, if_pos rfl, List.reverse_reverse, textOfPieces_flatMap]
  rw [hbytes, cut_cons_quiet hopen, cut_escapes, cut_cons hclose]

/-- A token that ends where something else begins. -/
theorem cut_pending {mode : Mode} {t : Token} (hfinish : finish mode = some [t])
    (hstep : ∀ b, isLetter b = false → inNumber b = false → step mode b = after (some t) b)
    {rest : List UInt8} (hrest : Delimits rest) :
    cut mode rest = (cut .between rest).map ([t] ++ ·) := by
  cases rest with
  | nil =>
      rw [cut, hfinish]
      rfl
  | cons b bs =>
      obtain ⟨hletter, hnumber⟩ := hrest b rfl
      have hafter := hstep b hletter hnumber
      cases hstart : start b with
      | none =>
          have hnone : step mode b = none := by simp [hafter, after, hstart]
          have hbetween : step .between b = none := hstart
          simp [cut, hnone, hbetween]
      | some next =>
          obtain ⟨ts, mode'⟩ := next
          have hsome : step mode b = some (t :: ts, mode') := by simp [hafter, after, hstart]
          have hbetween : step .between b = some (ts, mode') := hstart
          rw [cut_cons hsome, cut_cons hbetween, Option.map_map]
          rfl

theorem cut_word {letters : List UInt8} {t : Token} (h : ofWord? letters = some t)
    {rest : List UInt8} (hrest : Delimits rest) :
    cut (.word letters) rest = (cut .between rest).map ([t] ++ ·) := by
  refine cut_pending (by simp [finish, h]) (fun b hletter _ => ?_) hrest
  simp only [step, hletter, h]
  rfl

theorem cuts_null : Cuts "null".toList [.null] := by
  intro rest hrest
  show cut .between ('n'.toUInt8 :: 'u'.toUInt8 :: 'l'.toUInt8 :: 'l'.toUInt8 :: rest) = _
  rw [cut_cons_quiet rfl, cut_cons_quiet rfl, cut_cons_quiet rfl, cut_cons_quiet rfl,
    cut_word rfl hrest]

theorem cuts_true : Cuts "true".toList [.bool true] := by
  intro rest hrest
  show cut .between ('t'.toUInt8 :: 'r'.toUInt8 :: 'u'.toUInt8 :: 'e'.toUInt8 :: rest) = _
  rw [cut_cons_quiet rfl, cut_cons_quiet rfl, cut_cons_quiet rfl, cut_cons_quiet rfl,
    cut_word rfl hrest]

theorem cuts_false : Cuts "false".toList [.bool false] := by
  intro rest hrest
  show cut .between ('f'.toUInt8 :: 'a'.toUInt8 :: 'l'.toUInt8 :: 's'.toUInt8 :: 'e'.toUInt8 ::
    rest) = _
  rw [cut_cons_quiet rfl, cut_cons_quiet rfl, cut_cons_quiet rfl, cut_cons_quiet rfl,
    cut_cons_quiet rfl, cut_word rfl hrest]

/-- A byte that begins a number is no blank and no quote. -/
theorem step_beginsNumber {b : UInt8} (h : beginsNumber b = true) :
    step .between b = some ([], .number [b]) := by
  have hspace : isSpace b = false := by
    cases hs : isSpace b with
    | false => rfl
    | true =>
        simp only [isSpace, Bool.or_eq_true, beq_iff_eq] at hs
        rcases hs with ((rfl | rfl) | rfl) | rfl <;> exact absurd h (by decide)
  have hquote : b ≠ '"'.toUInt8 := by
    rintro rfl
    exact absurd h (by decide)
  simp only [step, start, hspace, h, if_neg hquote, if_true]
  rfl

/-- Bytes that stand in a number. -/
theorem cut_inNumber {bs : List UInt8} (h : ∀ b ∈ bs, inNumber b = true) (sofar rest : List UInt8) :
    cut (.number sofar) (bs ++ rest) = cut (.number (bs.reverse ++ sofar)) rest := by
  induction bs generalizing sofar with
  | nil => rfl
  | cons b bs ih =>
      have hstep : step (.number sofar) b = some ([], .number (b :: sofar)) := by
        simp only [step, h b List.mem_cons_self, if_true]
      rw [List.cons_append, cut_cons_quiet hstep, ih fun d hd => h d (List.mem_cons_of_mem b hd)]
      simp

/-- **A literal is one number.** -/
theorem cuts_literal {literal : String} (h : isLiteral literal = true) :
    Cuts literal.toList [.number literal] := by
  simp only [isLiteral, Bool.and_eq_true, List.all_eq_true, decide_eq_true_eq] at h
  obtain ⟨⟨hall, hfirst⟩, hnumber⟩ := h
  have hbytes := Text.utf8_of_ascii fun c hc => (hall c hc).1
  have htoken : ofNumber? (literal.toList.map Char.toUInt8).reverse = some (.number literal) := by
    have hback : (literal.toList.map Char.toUInt8).map (fun b => Char.ofNat b.toNat) =
        literal.toList := by
      rw [List.map_map]
      refine (List.map_congr_left fun c hc => ?_).trans (List.map_id _)
      show Char.ofNat c.toUInt8.toNat = c
      rw [toNat_toUInt8 (hall c hc).1, Char.ofNat_toNat]
    rw [ofNumber?, List.reverse_reverse, hback, if_pos hnumber, String.ofList_toList]
  intro rest hrest
  rw [hbytes]
  cases hcs : literal.toList with
  | nil => simp [hcs] at hfirst
  | cons c cs =>
      rw [hcs] at hall hfirst htoken
      have hbegins : beginsNumber c.toUInt8 = true := by simpa using hfirst
      have hin : ∀ b ∈ cs.map Char.toUInt8, inNumber b = true := by
        intro b hb
        obtain ⟨d, hd, rfl⟩ := List.mem_map.1 hb
        exact (hall d (List.mem_cons_of_mem c hd)).2
      rw [List.map_cons, List.cons_append, cut_cons_quiet (step_beginsNumber hbegins),
        cut_inNumber hin]
      rw [List.map_cons, List.reverse_cons] at htoken
      refine cut_pending (by simp only [finish, htoken, Option.map_some]) (fun b _ hb => ?_) hrest
      simp only [step, hb, htoken]
      rfl

/-! ### Arrays and objects -/

/-- Parts with commas between them. -/
theorem cuts_joinComma {ps : List (List Char)} {tss : List (List Token)}
    (h : List.Forall₂ Cuts ps tss) : Cuts (joinComma ps) (separated tss) := by
  induction h with
  | nil =>
      intro rest _
      simp [joinComma, separated, Text.utf8]
  | @cons p ts ps tss hp hps ih =>
      cases hps with
      | nil => exact hp
      | cons _ _ => exact hp.append ih (by decide) (by decide) rfl

/-- Parts in brackets. -/
theorem Cuts.enclosed {cs : List Char} {ts : List Token} {c d : Char} {t u : Token}
    (h : Cuts cs ts) (hc : c.toNat < 0x80) (hd : d.toNat < 0x80)
    (hdelimits : isLetter d.toUInt8 = false ∧ inNumber d.toUInt8 = false)
    (ht : step .between c.toUInt8 = some ([t], .between))
    (hu : step .between d.toUInt8 = some ([u], .between)) :
    Cuts (c :: cs ++ [d]) (t :: ts ++ [u]) := by
  intro rest _
  have hbytes : Text.utf8 (c :: cs ++ [d]) = c.toUInt8 :: (Text.utf8 cs ++ [d.toUInt8]) := by
    simp [Text.utf8, Text.utf8EncodeChar_of_ascii hc, Text.utf8EncodeChar_of_ascii hd]
  rw [hbytes, List.cons_append, List.append_assoc, List.singleton_append, cut_cons ht,
    h _ (delimits_cons hdelimits _), cut_cons hu, Option.map_map, Option.map_map]
  congr 1
  funext more
  simp

end Token

/-! ### Values -/

open Token (Cuts)

mutual

/-- **A written value is cut into its tokens.** -/
theorem cuts_chars : ∀ j : Json, j.isSpelt = true → Cuts j.chars j.tokens
  | .null, _ => Token.cuts_null
  | .bool true, _ => Token.cuts_true
  | .bool false, _ => Token.cuts_false
  | .int n, h => by exact Token.cuts_literal h
  | .real _, h => Token.cuts_literal h
  | .string s, _ => Token.cuts_quoted s
  | .array xs, h =>
      (Token.cuts_joinComma (cuts_charsOfElements xs h)).enclosed (by decide) (by decide)
        (by decide) rfl rfl
  | .object ms, h =>
      (Token.cuts_joinComma (cuts_charsOfMembers ms h)).enclosed (by decide) (by decide)
        (by decide) rfl rfl

/-- The elements of an array. -/
theorem cuts_charsOfElements : ∀ xs : List Json, areSpelt xs = true →
    List.Forall₂ Cuts (charsOfElements xs) (tokensOfElements xs)
  | [], _ => .nil
  | x :: xs, h => by
      obtain ⟨hx, hxs⟩ := Bool.and_eq_true_iff.1 h
      exact .cons (cuts_chars x hx) (cuts_charsOfElements xs hxs)

/-- The members of an object. -/
theorem cuts_charsOfMembers : ∀ ms : List (String × Json), membersSpelt ms = true →
    List.Forall₂ Cuts (charsOfMembers ms) (tokensOfMembers ms)
  | [], _ => .nil
  | (name, x) :: ms, h => by
      obtain ⟨hx, hms⟩ := Bool.and_eq_true_iff.1 h
      have hmember := (Token.cuts_quoted name).append (cuts_chars x hx) (c := ':') (t := .colon)
        (by decide) (by decide) rfl
      exact .cons hmember (cuts_charsOfMembers ms hms)

end

/-- **The tokens of a written value.** -/
theorem ofBytes_toBytes {j : Json} (h : j.isSpelt = true) :
    Token.ofBytes j.toBytes = some j.tokens := (cuts_chars j h).ofBytes

end Keyspace.Json
