import QmkSonix.Unicode.Model
import Mathlib.Data.Nat.Bitwise

/-! `decode_utf8` against the UTF-8 encoding of a character. -/

namespace QmkSonix.Unicode

/-- The bytes that encode a character. -/
def encode (char : Char) : List (BitVec 8) := (String.utf8EncodeChar char).map UInt8.toBitVec

/-! ### The classes of a lead byte -/

theorem lead_two {byte : ℕ} (fits : byte < 256) :
    byte &&& 0xE0 = 0xC0 ↔ 0xC0 ≤ byte ∧ byte < 0xE0 := by
  have all : ∀ byte < 256, byte &&& 0xE0 = 0xC0 ↔ 0xC0 ≤ byte ∧ byte < 0xE0 := by decide +kernel
  exact all byte fits

theorem lead_three {byte : ℕ} (fits : byte < 256) :
    byte &&& 0xF0 = 0xE0 ↔ 0xE0 ≤ byte ∧ byte < 0xF0 := by
  have all : ∀ byte < 256, byte &&& 0xF0 = 0xE0 ↔ 0xE0 ≤ byte ∧ byte < 0xF0 := by decide +kernel
  exact all byte fits

theorem lead_four {byte : ℕ} (fits : byte < 256) :
    byte &&& 0xF8 = 0xF0 ∧ byte ≤ 0xF4 ↔ 0xF0 ≤ byte ∧ byte ≤ 0xF4 := by
  have all : ∀ byte < 256, byte &&& 0xF8 = 0xF0 ∧ byte ≤ 0xF4 ↔ 0xF0 ≤ byte ∧ byte ≤ 0xF4 := by
    decide +kernel
  exact all byte fits

/-! ### The bits that a byte carries -/

theorem and_mask (byte bits : ℕ) : byte &&& (2 ^ bits - 1) = byte % 2 ^ bits :=
  Nat.and_two_pow_sub_one_eq_mod byte bits

/-- Six more bits. -/
theorem join_six (high byte : ℕ) : high <<< 6 ||| (byte &&& 0x3F) = high * 64 + byte % 64 := by
  rw [show (0x3F : ℕ) = 2 ^ 6 - 1 from rfl, and_mask,
    ← Nat.shiftLeft_add_eq_or_of_lt (Nat.mod_lt _ (by decide)), Nat.shiftLeft_eq]

theorem join_twelve (high second third : ℕ) :
    high <<< 12 ||| (second &&& 0x3F) <<< 6 ||| (third &&& 0x3F) =
      (high * 64 + second % 64) * 64 + third % 64 := by
  rw [show high <<< 12 = (high <<< 6) <<< 6 by rw [← Nat.shiftLeft_add],
    ← Nat.shiftLeft_or_distrib, join_six, join_six]

theorem join_eighteen (high second third fourth : ℕ) :
    high <<< 18 ||| (second &&& 0x3F) <<< 12 ||| (third &&& 0x3F) <<< 6 ||| (fourth &&& 0x3F) =
      ((high * 64 + second % 64) * 64 + third % 64) * 64 + fourth % 64 := by
  rw [show high <<< 18 = (high <<< 12) <<< 6 by rw [← Nat.shiftLeft_add],
    show (second &&& 0x3F) <<< 12 = ((second &&& 0x3F) <<< 6) <<< 6 by rw [← Nat.shiftLeft_add],
    ← Nat.shiftLeft_or_distrib, ← Nat.shiftLeft_or_distrib, join_twelve, join_six]

/-- `decode_utf8` in terms of sums. -/
theorem decodeUtf8_eq (str : ℕ → BitVec 8) :
    decodeUtf8 str = Decoded.withoutSurrogates
      (if (str 0).toNat < 0x80 then ⟨(str 0).toNat, 1⟩
      else if 0xC0 ≤ (str 0).toNat ∧ (str 0).toNat < 0xE0 then
        ⟨((str 0).toNat % 32 * 64 + (str 1).toNat % 64 : ℕ), 2⟩
      else if 0xE0 ≤ (str 0).toNat ∧ (str 0).toNat < 0xF0 then
        ⟨(((str 0).toNat % 16 * 64 + (str 1).toNat % 64) * 64 + (str 2).toNat % 64 : ℕ), 3⟩
      else if 0xF0 ≤ (str 0).toNat ∧ (str 0).toNat ≤ 0xF4 then
        ⟨((((str 0).toNat % 8 * 64 + (str 1).toNat % 64) * 64 + (str 2).toNat % 64) * 64 +
          (str 3).toNat % 64 : ℕ), 4⟩
      else ⟨-1, 1⟩) := by
  have fits := (str 0).isLt
  simp only [decodeUtf8, lead_two fits, lead_three fits, lead_four fits, join_six, join_twelve,
    join_eighteen, show (0x1F : ℕ) = 2 ^ 5 - 1 from rfl, show (0x0F : ℕ) = 2 ^ 4 - 1 from rfl,
    show (0x07 : ℕ) = 2 ^ 3 - 1 from rfl, and_mask]
  rfl

/-! ### Lengths -/

/-- How many bytes `decode_utf8` takes from a lead byte on. -/
def leadLength (lead : BitVec 8) : ℕ :=
  if lead.toNat < 0xC0 then 1
  else if lead.toNat < 0xE0 then 2
  else if lead.toNat < 0xF0 then 3
  else if lead.toNat ≤ 0xF4 then 4
  else 1

theorem leadLength_pos (lead : BitVec 8) : 0 < leadLength lead := by
  unfold leadLength
  split_ifs <;> omega

theorem withoutSurrogates_length (decoded : Decoded) :
    decoded.withoutSurrogates.length = decoded.length := by
  unfold Decoded.withoutSurrogates
  split <;> rfl

theorem decodeUtf8_length (str : ℕ → BitVec 8) :
    (decodeUtf8 str).length = leadLength (str 0) := by
  rw [decodeUtf8_eq, withoutSurrogates_length, leadLength]
  split_ifs <;> first | rfl | omega

/-- `decode_utf8` depends on the bytes that it takes only. -/
theorem decodeUtf8_congr {str other : ℕ → BitVec 8}
    (same : ∀ i < leadLength (str 0), str i = other i) : decodeUtf8 str = decodeUtf8 other := by
  have first := same 0 (leadLength_pos _)
  rw [decodeUtf8_eq, decodeUtf8_eq, ← first]
  congr 1
  simp only [leadLength] at same
  split_ifs with ascii two three four
  · rfl
  · rw [same 1 (by split_ifs <;> omega)]
  · rw [same 1 (by split_ifs <;> omega), same 2 (by split_ifs <;> omega)]
  · rw [same 1 (by split_ifs <;> omega), same 2 (by split_ifs <;> omega),
      same 3 (by split_ifs <;> omega)]
  · rfl

/-- The code point is none, or a number. -/
theorem decodeUtf8_codePoint (str : ℕ → BitVec 8) :
    (decodeUtf8 str).codePoint = -1 ∨ 0 ≤ (decodeUtf8 str).codePoint := by
  rw [decodeUtf8_eq, Decoded.withoutSurrogates]
  split_ifs
  all_goals first | exact .inl rfl | exact .inr (Int.natCast_nonneg _)

/-! ### What the encoding of a character decodes to -/

/-- Some bytes stand at a place. -/
def Reads (str : ℕ → BitVec 8) (bytes : List (BitVec 8)) : Prop :=
  ∀ i (inside : i < bytes.length), str i = bytes[i]

theorem reads_cons {str : ℕ → BitVec 8} {byte : BitVec 8} {rest : List (BitVec 8)} :
    Reads str (byte :: rest) ↔ str 0 = byte ∧ Reads (fun i => str (i + 1)) rest := by
  constructor
  · intro reads
    exact ⟨reads 0 (Nat.succ_pos _), fun i inside => reads (i + 1) (Nat.succ_lt_succ inside)⟩
  · rintro ⟨first, later⟩ i inside
    cases i with
    | zero => exact first
    | succ i => exact later i (Nat.lt_of_succ_lt_succ inside)

theorem char_range (char : Char) :
    char.toNat < 0xD800 ∨ 0xDFFF < char.toNat ∧ char.toNat < 0x110000 := char.valid

theorem withoutSurrogates_kept {n length : ℕ} (plain : n < 0xD800 ∨ 0xDFFF < n) :
    (⟨n, length⟩ : Decoded).withoutSurrogates = ⟨n, length⟩ := by
  unfold Decoded.withoutSurrogates
  rw [if_neg]
  show ¬((0xD800 : ℤ) ≤ n ∧ (n : ℤ) ≤ 0xDFFF)
  omega

/-- A byte of an encoding, as a number. -/
theorem byte_toNat {byte : BitVec 8} {n : ℕ} (stands : byte = (UInt8.ofNat n).toBitVec)
    (small : n < 256) : byte.toNat = n := by
  rw [stands]
  exact Nat.mod_eq_of_lt small

theorem decode_encode {str : ℕ → BitVec 8} {char : Char} (reads : Reads str (encode char)) :
    decodeUtf8 str = ⟨char.toNat, (encode char).length⟩ := by
  have range := char_range char
  have plain : char.toNat < 0xD800 ∨ 0xDFFF < char.toNat := by omega
  rw [decodeUtf8_eq]
  simp only [encode, String.utf8EncodeChar, show char.val.toNat = char.toNat from rfl] at reads ⊢
  by_cases one : char.toNat ≤ 0x7F
  · simp only [one, ↓reduceIte, List.map_cons, List.map_nil, reads_cons] at reads ⊢
    have first := byte_toNat reads.1 (by omega)
    rw [first, if_pos (by omega), withoutSurrogates_kept plain]
    rfl
  · by_cases two : char.toNat ≤ 0x7FF
    · simp only [one, two, ↓reduceIte, List.map_cons, List.map_nil, reads_cons] at reads ⊢
      have first := byte_toNat reads.1 (by omega)
      have second := byte_toNat reads.2.1 (by omega)
      rw [if_neg (by omega), if_pos (by omega), first, second, show (char.toNat / 64 % 32 + 0xC0) %
        32 * 64 + (char.toNat % 64 + 0x80) % 64 = char.toNat by omega, withoutSurrogates_kept plain]
      rfl
    · by_cases three : char.toNat ≤ 0xFFFF
      · simp only [one, two, three, ↓reduceIte, List.map_cons, List.map_nil, reads_cons] at reads ⊢
        have first := byte_toNat reads.1 (by omega)
        have second := byte_toNat reads.2.1 (by omega)
        have third := byte_toNat reads.2.2.1 (by omega)
        rw [if_neg (by omega), if_neg (by omega), if_pos (by omega), first, second, third,
          show ((char.toNat / 4096 % 16 + 0xE0) % 16 * 64 + (char.toNat / 64 % 64 + 0x80) % 64) * 64 +
            (char.toNat % 64 + 0x80) % 64 = char.toNat by omega, withoutSurrogates_kept plain]
        rfl
      · simp only [one, two, three, ↓reduceIte, List.map_cons, List.map_nil, reads_cons] at reads ⊢
        have first := byte_toNat reads.1 (by omega)
        have second := byte_toNat reads.2.1 (by omega)
        have third := byte_toNat reads.2.2.1 (by omega)
        have fourth := byte_toNat reads.2.2.2.1 (by omega)
        rw [if_neg (by omega), if_neg (by omega), if_neg (by omega), if_pos (by omega), first,
          second, third, fourth, show (((char.toNat / 262144 % 8 + 0xF0) % 8 * 64 +
            (char.toNat / 4096 % 64 + 0x80) % 64) * 64 + (char.toNat / 64 % 64 + 0x80) % 64) * 64 +
            (char.toNat % 64 + 0x80) % 64 = char.toNat by omega, withoutSurrogates_kept plain]
        rfl

end QmkSonix.Unicode
