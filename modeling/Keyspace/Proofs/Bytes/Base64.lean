import Keyspace.Bytes.Base64
/-!
# Reading what was written in Base64

In an alphabet with a symbol of its own for each number below 64, none of which is the padding
sign, the bytes that were written are read back.

Main definitions:

* `Keyspace.Bytes.Base64.Alphabet.Lawful` — alphabets without ambiguity;
* `Keyspace.Bytes.Base64.isUrlSafe` — the characters that may stand in addresses.

Main results:

* `Keyspace.Bytes.Base64.decode_encode` — **writing and then reading gives the bytes back**;
* `Keyspace.Bytes.Base64.mem_encode`, `Keyspace.Bytes.Base64.forall_encode_urlSafe` — the
  characters of a written text.
-/

set_option autoImplicit false

namespace Keyspace.Bytes.Base64

/-! ### Alphabets -/

/-- Each number below 64 is the number of its symbol, and no symbol is the padding sign. -/
structure Alphabet.Lawful (a : Alphabet) : Prop where
  value_symbol : ∀ n < 64, a.value? (a.symbol n) = some n
  symbol_ne : ∀ n < 64, (a.symbol n == '=') = false

theorem standard_lawful : standard.Lawful := ⟨by decide, by decide⟩

theorem urlSafe_lawful : urlSafe.Lawful := ⟨by decide, by decide⟩

/-! ### One group of symbols -/

/-- A number below 256 is the number of its byte. -/
theorem ofNat_eq_of_toNat {n : Nat} {b : UInt8} (h : n = b.toNat) : UInt8.ofNat n = b := by
  rw [h, UInt8.ofNat_toNat]

variable {a : Alphabet}

/-- Two symbols give a byte back. -/
theorem decodeTwo_symbols (ha : a.Lawful) (x : UInt8) :
    decodeTwo a (a.symbol (x.toNat * 16 / 64)) (a.symbol (x.toNat * 16 % 64)) = some [x] := by
  have hx := x.toNat_lt
  have hn : x.toNat * 16 / 64 * 64 + x.toNat * 16 % 64 = x.toNat * 16 := by omega
  simp only [decodeTwo, ha.value_symbol (x.toNat * 16 / 64) (by omega),
    ha.value_symbol (x.toNat * 16 % 64) (by omega), hn, Option.bind_eq_bind, Option.bind_some]
  rw [if_pos (by omega), ofNat_eq_of_toNat (b := x) (by omega)]

/-- Three symbols give two bytes back. -/
theorem decodeThree_symbols (ha : a.Lawful) (x y : UInt8) {n : Nat}
    (hn : n = (x.toNat * 256 + y.toNat) * 4) :
    decodeThree a (a.symbol (n / 4096)) (a.symbol (n / 64 % 64)) (a.symbol (n % 64)) =
      some [x, y] := by
  have hx := x.toNat_lt
  have hy := y.toNat_lt
  have hjoin : (n / 4096 * 64 + n / 64 % 64) * 64 + n % 64 = n := by omega
  simp only [decodeThree, ha.value_symbol (n / 4096) (by omega),
    ha.value_symbol (n / 64 % 64) (by omega), ha.value_symbol (n % 64) (by omega), hjoin,
    Option.bind_eq_bind, Option.bind_some]
  rw [if_pos (by omega), ofNat_eq_of_toNat (b := x) (by omega),
    ofNat_eq_of_toNat (b := y) (by omega)]

/-- Four symbols give three bytes back. -/
theorem decodeFour_symbols (ha : a.Lawful) (x y z : UInt8) {n : Nat}
    (hn : n = (x.toNat * 256 + y.toNat) * 256 + z.toNat) :
    decodeFour a (a.symbol (n / 262144)) (a.symbol (n / 4096 % 64)) (a.symbol (n / 64 % 64))
      (a.symbol (n % 64)) = some [x, y, z] := by
  have hx := x.toNat_lt
  have hy := y.toNat_lt
  have hz := z.toNat_lt
  have hjoin : ((n / 262144 * 64 + n / 4096 % 64) * 64 + n / 64 % 64) * 64 + n % 64 = n := by
    omega
  simp only [decodeFour, ha.value_symbol (n / 262144) (by omega),
    ha.value_symbol (n / 4096 % 64) (by omega), ha.value_symbol (n / 64 % 64) (by omega),
    ha.value_symbol (n % 64) (by omega), hjoin, Option.bind_eq_bind, Option.bind_some]
  rw [ofNat_eq_of_toNat (b := x) (by omega), ofNat_eq_of_toNat (b := y) (by omega),
    ofNat_eq_of_toNat (b := z) (by omega)]

/-! ### Whole texts -/

/-- Two symbols and their padding end a text. -/
theorem decode_end_two (p q : Char) : decode a (p :: q :: a.padding 2) = decodeTwo a p q := by
  cases hp : a.padded with
  | true => simp [Alphabet.padding, hp, decode, List.replicate]
  | false => simp [Alphabet.padding, hp, decode]

/-- Three symbols and their padding end a text. -/
theorem decode_end_three (p q : Char) {r : Char} (hr : (r == '=') = false) :
    decode a (p :: q :: r :: a.padding 1) = decodeThree a p q r := by
  cases hp : a.padded with
  | true => simp [Alphabet.padding, hp, decode, hr]
  | false => simp [Alphabet.padding, hp, decode]

/-- Four symbols without padding stand before the rest of a text. -/
theorem decode_front (p q r : Char) {w : Char} (hw : (w == '=') = false) (rest : List Char) :
    decode a (p :: q :: r :: w :: rest) =
      (decodeFour a p q r w).bind fun front => (decode a rest).map (front ++ ·) := by
  simp only [decode, hw, Bool.and_false, Bool.false_eq_true, if_false, Option.map_eq_bind]
  rfl

/-- **Writing and then reading gives the bytes back.** -/
theorem decode_encode (ha : a.Lawful) (bs : List UInt8) : decode a (encode a bs) = some bs := by
  -- the cases are those of `encode`: the end with its padding, and three bytes before more
  induction bs using encode.induct with
  | case1 => rfl
  | case2 x => rw [encode, decode_end_two, decodeTwo_symbols ha]
  | case3 x y =>
      rw [encode, decode_end_three _ _ (ha.symbol_ne _ (by omega)), decodeThree_symbols ha x y rfl]
  | case4 x y z rest ih =>
      rw [encode, decode_front _ _ _ (ha.symbol_ne _ (by omega)), decodeFour_symbols ha x y z rfl,
        ih]
      rfl

/-- A written text is made of symbols, and of padding if the alphabet asks for it. -/
theorem mem_encode {bs : List UInt8} {c : Char} (h : c ∈ encode a bs) :
    (∃ n < 64, c = a.symbol n) ∨ a.padded = true ∧ c = '=' := by
  have hpadding : ∀ {k}, c ∈ a.padding k → a.padded = true ∧ c = '=' := by
    intro k hc
    unfold Alphabet.padding at hc
    split at hc
    · next hp => exact ⟨hp, (List.mem_replicate.1 hc).2⟩
    · cases hc
  induction bs using encode.induct with
  | case1 => cases h
  | case2 x =>
      have hx := x.toNat_lt
      simp only [encode, List.mem_cons] at h
      rcases h with rfl | rfl | h
      · exact Or.inl ⟨_, by omega, rfl⟩
      · exact Or.inl ⟨_, by omega, rfl⟩
      · exact Or.inr (hpadding h)
  | case3 x y =>
      have hx := x.toNat_lt
      have hy := y.toNat_lt
      simp only [encode, List.mem_cons] at h
      rcases h with rfl | rfl | rfl | h
      · exact Or.inl ⟨_, by omega, rfl⟩
      · exact Or.inl ⟨_, by omega, rfl⟩
      · exact Or.inl ⟨_, by omega, rfl⟩
      · exact Or.inr (hpadding h)
  | case4 x y z rest ih =>
      have hx := x.toNat_lt
      have hy := y.toNat_lt
      have hz := z.toNat_lt
      simp only [encode, List.mem_cons] at h
      rcases h with rfl | rfl | rfl | rfl | h
      · exact Or.inl ⟨_, by omega, rfl⟩
      · exact Or.inl ⟨_, by omega, rfl⟩
      · exact Or.inl ⟨_, by omega, rfl⟩
      · exact Or.inl ⟨_, by omega, rfl⟩
      · exact ih h

/-- What holds of the symbols of the alphabet for addresses holds of every character of a text
that is written in it. -/
theorem forall_encode_urlSafe {p : Char → Bool} (hp : ∀ n < 64, p (urlSafe.symbol n) = true)
    {bs : List UInt8} : ∀ c ∈ encode urlSafe bs, p c = true := by
  intro c hc
  rcases mem_encode hc with ⟨n, hn, rfl⟩ | ⟨hpadded, _⟩
  · exact hp n hn
  · cases hpadded

/-- A character that may stand in addresses. -/
def isUrlSafe (c : Char) : Bool := c.isAlphanum || c == '-' || c == '_'

end Keyspace.Bytes.Base64
