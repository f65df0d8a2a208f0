import QmkSonix.Eeprom.Log

/-! The encodings of the write log: what the headers that the entry writers
build decode to. -/

namespace QmkSonix.Eeprom

theorem and_low (small : BitVec.toNat x < 0x2000) : x &&& (0x1FFF : HalfWord) = x := by
  apply BitVec.eq_of_toNat_eq
  have mask : BitVec.toNat x &&& (2 ^ 13 - 1) = BitVec.toNat x := by
    rw [Nat.and_two_pow_sub_one_eq_mod]
    omega
  simpa using mask

theorem and_clear {mask : HalfWord} (small : BitVec.toNat x < 0x2000)
    (clear : (0x1FFF : HalfWord) &&& mask = 0) : x &&& mask = 0 := by
  rw [← and_low small, BitVec.and_assoc, clear]
  exact BitVec.and_zero

/-- A tag over a 13-bit payload: masks above the payload see the tag alone. -/
theorem tagged_and {tag mask : HalfWord} (small : BitVec.toNat x < 0x2000)
    (clear : (0x1FFF : HalfWord) &&& mask = 0) : (x ||| tag) &&& mask = tag &&& mask := by
  rw [BitVec.and_or_distrib_right, and_clear small clear]
  exact BitVec.zero_or

theorem tagged_payload {tag : HalfWord} (small : BitVec.toNat x < 0x2000)
    (high : tag &&& 0x1FFF = 0) : (x ||| tag) &&& 0x1FFF = x := by
  rw [BitVec.and_or_distrib_right, and_low small, high]
  exact BitVec.or_zero

theorem halved_small (bound : BitVec.toNat address < feeAddressMaxSize) :
    (address >>> 1 : HalfWord).toNat < 0x2000 := by
  simp [Nat.shiftRight_eq_div_pow, feeAddressMaxSize] at bound ⊢
  omega

theorem halved_doubled (even : BitVec.toNat address % 2 = 0) :
    (address >>> 1) <<< 1 = (address : HalfWord) := by
  apply BitVec.eq_of_toNat_eq
  simp [Nat.shiftRight_eq_div_pow, Nat.shiftLeft_eq]
  omega

section Byte

/-- Byte-Entry: `0XXXXXXX YYYYYYYY`. -/
def byteHeader (address : HalfWord) (value : Byte) : HalfWord :=
  (address <<< 8) ||| value.setWidth 16

theorem byteHeader_toNat (small : BitVec.toNat address < 0x80) (value : Byte) :
    (byteHeader address value).toNat = address.toNat * 256 + value.toNat := by
  have below := value.isLt
  have shifted : (address <<< 8 : HalfWord).toNat = address.toNat <<< 8 := by
    simp [Nat.shiftLeft_eq]
    omega
  have widened : (value.setWidth 16).toNat = value.toNat := by simp; omega
  rw [byteHeader, BitVec.toNat_or, shifted, widened,
    ← Nat.shiftLeft_add_eq_or_of_lt (by omega), Nat.shiftLeft_eq]

theorem byteHeader_not_word (small : BitVec.toNat address < 0x80) (value : Byte) :
    byteHeader address value &&& feeWordEncoding = 0 := by
  have below := value.isLt
  have bound : (byteHeader address value).toNat < 0x8000 := by
    rw [byteHeader_toNat small]; omega
  have low : byteHeader address value &&& 0x7FFF = byteHeader address value := by
    apply BitVec.eq_of_toNat_eq
    have mask : (byteHeader address value).toNat &&& (2 ^ 15 - 1) =
        (byteHeader address value).toNat := by
      rw [Nat.and_two_pow_sub_one_eq_mod]
      omega
    simpa using mask
  rw [← low, BitVec.and_assoc]
  exact BitVec.and_zero

theorem byteHeader_used (small : BitVec.toNat address < 0x80) (value : Byte) :
    byteHeader address value ≠ feeEmptyWord := by
  intro same
  have size := byteHeader_toNat small value
  have below := value.isLt
  rw [same] at size
  simp [feeEmptyWord] at size
  omega

theorem byteHeader_single (small : BitVec.toNat address < 0x80) (value : Byte) :
    entryWide (byteHeader address value) = false := by
  simp [entryWide, byteHeader_not_word small value]

theorem byteHeader_writes (cfg : Config) (small : BitVec.toNat address < 0x80) (value : Byte)
    (next : HalfWord) :
    entryWrites cfg (byteHeader address value) next = [(address.toNat, value)] := by
  have size := byteHeader_toNat small value
  have below := value.isLt
  have high : (byteHeader address value >>> 8).toNat = address.toNat := by
    rw [BitVec.toNat_ushiftRight, size, Nat.shiftRight_eq_div_pow]
    omega
  have low : (byteHeader address value).setWidth 8 = value := by
    apply BitVec.eq_of_toNat_eq
    rw [BitVec.toNat_setWidth, size]
    omega
  simp only [entryWrites, byteHeader_not_word small value, ↓reduceIte, high, low]

end Byte

section Word

/-- Word-Encoded 0 and 1: the value lies in the tag. -/
def shortHeader (address value : HalfWord) : HalfWord :=
  (address >>> 1) ||| (feeWordEncoding ||| (value <<< 13))

/-- Word-Next: the value lies in the next cell. -/
def nextHeader (address : HalfWord) : HalfWord :=
  ((address - feeByteRange) >>> 1) ||| (feeWordEncoding ||| feeValueNext)

variable {address value : HalfWord} {cfg : Config}

theorem le_one_cases (short : value ≤ 1) : value = 0 ∨ value = 1 := by
  rcases (by bv_omega : value.toNat = 0 ∨ value.toNat = 1) with zero | one
  · exact .inl (BitVec.eq_of_toNat_eq zero)
  · exact .inr (BitVec.eq_of_toNat_eq one)

theorem shortHeader_word (bound : address.toNat < feeAddressMaxSize) (short : value ≤ 1) :
    shortHeader address value &&& feeWordEncoding = feeWordEncoding := by
  rw [shortHeader, tagged_and (halved_small bound) (by decide)]
  rcases le_one_cases short with rfl | rfl <;> decide

theorem shortHeader_not_next (bound : address.toNat < feeAddressMaxSize) (short : value ≤ 1) :
    shortHeader address value &&& feeValueNext ≠ feeValueNext := by
  rw [shortHeader, tagged_and (halved_small bound) (by decide)]
  rcases le_one_cases short with rfl | rfl <;> decide

theorem shortHeader_used (bound : address.toNat < feeAddressMaxSize) (short : value ≤ 1) :
    shortHeader address value ≠ feeEmptyWord := by
  intro same
  have notNext := shortHeader_not_next bound short
  rw [same] at notNext
  exact notNext (by decide)

theorem shortHeader_single (bound : address.toNat < feeAddressMaxSize) (short : value ≤ 1) :
    entryWide (shortHeader address value) = false := by
  simp [entryWide, shortHeader_not_next bound short]

theorem shortHeader_writes (bound : address.toNat < feeAddressMaxSize) (short : value ≤ 1)
    (even : address.toNat % 2 = 0) (inside : address.toNat < cfg.densityBytes)
    (next : HalfWord) :
    entryWrites cfg (shortHeader address value) next = wordWrites address.toNat value := by
  have word : shortHeader address value &&& feeWordEncoding ≠ 0 := by
    rw [shortHeader_word bound short]; decide
  have reserved : shortHeader address value &&& feeValueReserved = 0 := by
    rw [shortHeader, tagged_and (halved_small bound) (by decide)]
    rcases le_one_cases short with rfl | rfl <;> decide
  have encoded : (shortHeader address value &&& feeValueEncoded) >>> 13 = value := by
    rw [shortHeader, tagged_and (halved_small bound) (by decide)]
    rcases le_one_cases short with rfl | rfl <;> decide
  have payload : shortHeader address value &&& (0x1FFF : HalfWord) = address >>> 1 := by
    rw [shortHeader, tagged_payload (halved_small bound)]
    rcases le_one_cases short with rfl | rfl <;> decide
  simp only [entryWrites, word, shortHeader_not_next bound short, reserved, encoded, payload,
    halved_doubled even, boundedWordWrites, inside, ↓reduceIte, ne_eq, not_true_eq_false]

theorem rebased_toNat (low : 0x80 ≤ address.toNat) :
    (address - feeByteRange).toNat = address.toNat - 0x80 := by
  have inside := address.isLt
  rw [BitVec.toNat_sub]
  simp [feeByteRange]
  omega

theorem rebased_small (bound : address.toNat < feeAddressMaxSize) (low : 0x80 ≤ address.toNat) :
    (address - feeByteRange).toNat < feeAddressMaxSize := by
  rw [rebased_toNat low]
  omega

theorem nextHeader_wide (bound : address.toNat < feeAddressMaxSize) (low : 0x80 ≤ address.toNat) :
    entryWide (nextHeader address) = true := by
  have small := halved_small (rebased_small bound low)
  have word : nextHeader address &&& feeWordEncoding ≠ 0 := by
    rw [nextHeader, tagged_and small (by decide)]; decide
  have next : nextHeader address &&& feeValueNext = feeValueNext := by
    rw [nextHeader, tagged_and small (by decide)]; decide
  simpa [entryWide, next] using word

/-- The highest word-next header is `0xFFBF`: rebasing the address keeps the
erased value free. -/
theorem nextHeader_used (bound : address.toNat < feeAddressMaxSize) (low : 0x80 ≤ address.toNat) :
    nextHeader address ≠ feeEmptyWord := by
  intro same
  have payload : nextHeader address &&& (0x1FFF : HalfWord) = (address - feeByteRange) >>> 1 := by
    rw [nextHeader, tagged_payload (halved_small (rebased_small bound low)) (by decide)]
  have size := congrArg BitVec.toNat payload
  rw [same, BitVec.toNat_ushiftRight, rebased_toNat low, Nat.shiftRight_eq_div_pow] at size
  simp [feeEmptyWord, feeAddressMaxSize] at size bound
  omega

theorem nextHeader_writes (bound : address.toNat < feeAddressMaxSize)
    (low : 0x80 ≤ address.toNat) (even : address.toNat % 2 = 0)
    (inside : address.toNat < cfg.densityBytes) (long : ¬value ≤ 1) :
    entryWrites cfg (nextHeader address) (~~~value) = wordWrites address.toNat value := by
  have small := halved_small (rebased_small bound low)
  have word : nextHeader address &&& feeWordEncoding ≠ 0 := by
    rw [nextHeader, tagged_and small (by decide)]; decide
  have next : nextHeader address &&& feeValueNext = feeValueNext := by
    rw [nextHeader, tagged_and small (by decide)]; decide
  have payload : nextHeader address &&& (0x1FFF : HalfWord) = (address - feeByteRange) >>> 1 := by
    rw [nextHeader, tagged_payload small (by decide)]
  have rebasedEven : (address - feeByteRange).toNat % 2 = 0 := by
    rw [rebased_toNat low]; omega
  have restored : address - feeByteRange + feeByteRange = address := BitVec.sub_add_cancel _ _
  have some : value ≠ 0 := by rintro rfl; exact long (by decide)
  simp only [entryWrites, word, next, payload, halved_doubled rebasedEven, restored,
    BitVec.not_not, some, boundedWordWrites, inside, ↓reduceIte]

/-- A word-next header whose value cell is still erased writes nothing. -/
theorem nextHeader_incomplete (bound : address.toNat < feeAddressMaxSize)
    (low : 0x80 ≤ address.toNat) :
    entryWrites cfg (nextHeader address) feeEmptyWord = [] := by
  have small := halved_small (rebased_small bound low)
  have word : nextHeader address &&& feeWordEncoding ≠ 0 := by
    rw [nextHeader, tagged_and small (by decide)]; decide
  have next : nextHeader address &&& feeValueNext = feeValueNext := by
    rw [nextHeader, tagged_and small (by decide)]; decide
  have blank : ~~~feeEmptyWord = 0 := by decide
  simp only [entryWrites, word, next, blank, ↓reduceIte]

end Word

end QmkSonix.Eeprom
