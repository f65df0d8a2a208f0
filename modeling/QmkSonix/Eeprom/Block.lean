import QmkSonix.Eeprom.Settles
import Mathlib.Data.Nat.Init

/-! `eeprom_read_block` and `eeprom_write_block`, which move words where they can, and the
bytes that they stand for. -/

namespace QmkSonix.Eeprom

open QmkSonix.Lib

/-- The memory of the caller, by byte address. -/
abbrev Memory := Nat → Byte

/-- `low | (high << 8)` -/
def bytesWord (low high : Byte) : HalfWord := low.setWidth 16 ||| (high.setWidth 16 <<< 8)

section Operations

variable (cfg : Config)

/-- `EEPROM_ReadDataWord` -/
def eepromReadDataWord (s : Emulation) (address : HalfWord) : HalfWord :=
  if address.toNat < cfg.densityBytes - 1 then
    if address.toNat % 2 = 1 then
      bytesWord (s.dataBuf address.toNat) (s.dataBuf (address.toNat + 1))
    else s.dataBuf.word address.toNat
  else 0xFFFF

/-- The word loop of `eeprom_read_block` and the byte behind it. An unaligned buffer
takes each word byte by byte. -/
def readWords (s : Emulation) (aligned : Bool) : Nat → Memory → Nat → Nat → Memory
  | 0, memory, _, _ => memory
  | 1, memory, dest, src =>
    Function.update memory dest (eepromReadDataByte cfg s (BitVec.ofNat 16 src))
  | len + 2, memory, dest, src =>
    let value := eepromReadDataWord cfg s (BitVec.ofNat 16 src)
    readWords s aligned len
      (if aligned then DataBuf.setWord memory dest value
       else Function.update (Function.update memory dest (value.setWidth 8)) (dest + 1)
         ((value >>> 8).setWidth 8))
      (dest + 2) (src + 2)

/-- `eeprom_read_block` -/
def eepromReadBlock (s : Emulation) (memory : Memory) (buf addr len : Nat) : Memory :=
  if len ≠ 0 ∧ addr % 2 = 1 then
    readWords cfg s ((buf + 1) % 2 = 0) (len - 1)
      (Function.update memory buf (eepromReadDataByte cfg s (BitVec.ofNat 16 addr)))
      (buf + 1) (addr + 1)
  else readWords cfg s (buf % 2 = 0) len memory buf addr

/-- The word loop of `eeprom_write_block` and the byte behind it. -/
def writeWords (memory : Memory) (aligned : Bool) : Nat → Emulation → Nat → Nat → Emulation
  | 0, s, _, _ => s
  | 1, s, src, dest => (eepromWriteDataByte cfg s (BitVec.ofNat 16 dest) (memory src)).1
  | len + 2, s, src, dest =>
    let value :=
      if aligned then DataBuf.word memory src else bytesWord (memory src) (memory (src + 1))
    writeWords memory aligned len (eepromWriteDataWord cfg s (BitVec.ofNat 16 dest) value).1
      (src + 2) (dest + 2)

/-- `eeprom_write_block` -/
def eepromWriteBlock (s : Emulation) (memory : Memory) (buf addr len : Nat) : Emulation :=
  if len ≠ 0 ∧ addr % 2 = 1 then
    writeWords cfg memory ((buf + 1) % 2 = 0) (len - 1)
      (eepromWriteDataByte cfg s (BitVec.ofNat 16 addr) (memory buf)).1 (buf + 1) (addr + 1)
  else writeWords cfg memory (buf % 2 = 0) len s buf addr

/-- The bytes of the block written one by one with `EEPROM_WriteDataByte`. -/
def writeBytes (memory : Memory) : Nat → Emulation → Nat → Nat → Emulation
  | 0, s, _, _ => s
  | len + 1, s, src, dest =>
    writeBytes memory len (eepromWriteDataByte cfg s (BitVec.ofNat 16 dest) (memory src)).1
      (src + 1) (dest + 1)

end Operations

section Reading

variable {cfg : Config} {s : Emulation}

theorem bytesWord_eq (low high : Byte) : bytesWord low high = high ++ low := by
  apply BitVec.eq_of_toNat_eq
  have lowBound := low.isLt
  have highBound := high.isLt
  have shifted : (high.setWidth 16 <<< 8).toNat = high.toNat <<< 8 := by
    simp [Nat.shiftLeft_eq]
    omega
  have widened : (low.setWidth 16).toNat = low.toNat := by
    simp
    omega
  rw [bytesWord, BitVec.toNat_or, shifted, widened, BitVec.toNat_append, Nat.or_comm]

/-- A word read at an even address holds the two bytes that are read there. -/
theorem readDataWord_bytes (s : Emulation) {src : Nat} (even : src % 2 = 0)
    (within : src + 1 < 0x10000) :
    eepromReadDataWord cfg s (BitVec.ofNat 16 src) =
      eepromReadDataByte cfg s (BitVec.ofNat 16 (src + 1)) ++
        eepromReadDataByte cfg s (BitVec.ofNat 16 src) := by
  have densityEven := cfg.densityEven
  have here : (BitVec.ofNat 16 src).toNat = src := by
    rw [BitVec.toNat_ofNat]
    omega
  have next : (BitVec.ofNat 16 (src + 1)).toNat = src + 1 := by
    rw [BitVec.toNat_ofNat]
    omega
  have notOdd : ¬src % 2 = 1 := by omega
  simp only [eepromReadDataWord, eepromReadDataByte, here, next, notOdd, ↓reduceIte]
  by_cases inside : src < cfg.densityBytes
  · rw [if_pos (by omega), if_pos (by omega), if_pos inside]
    rfl
  · rw [if_neg (by omega), if_neg (by omega), if_neg inside]
    rfl

/-- The bytes that `EEPROM_ReadDataByte` returns one by one, put into memory. -/
def readInto (cfg : Config) (s : Emulation) (memory : Memory) (buf addr len : Nat) : Memory :=
  fun target => if buf ≤ target ∧ target < buf + len then
    eepromReadDataByte cfg s (BitVec.ofNat 16 (addr + (target - buf)))
  else memory target

theorem readInto_zero (memory : Memory) (buf addr : Nat) :
    readInto cfg s memory buf addr 0 = memory := by
  funext target
  rw [readInto, if_neg (by omega)]

theorem readInto_succ (memory : Memory) (buf addr len : Nat) :
    readInto cfg s memory buf addr (len + 1) =
      readInto cfg s (Function.update memory buf (eepromReadDataByte cfg s (BitVec.ofNat 16 addr)))
        (buf + 1) (addr + 1) len := by
  funext target
  unfold readInto
  by_cases first : target = buf
  · subst first
    rw [if_pos (by omega), if_neg (by omega), Function.update_self, Nat.sub_self, Nat.add_zero]
  · have shifted : addr + (target - buf) = addr + 1 + (target - (buf + 1)) ∨ target < buf := by omega
    by_cases inside : buf ≤ target ∧ target < buf + (len + 1)
    · rw [if_pos inside, if_pos (by omega), shifted.resolve_right (by omega)]
    · rw [if_neg inside, if_neg (by omega), Function.update_of_ne first]

/-- Each round of the word loop reads two bytes. -/
theorem readWords_bytes (s : Emulation) (aligned : Bool) (len : Nat) (memory : Memory)
    (dest src : Nat) (even : src % 2 = 0) (within : src + len ≤ 0x10000) :
    readWords cfg s aligned len memory dest src = readInto cfg s memory dest src len := by
  induction len using Nat.twoStepInduction generalizing memory dest src with
  | zero => rw [readWords, readInto_zero]
  | one => rw [readWords, readInto_succ, readInto_zero]
  | more len ih _ =>
    have store : DataBuf.setWord memory dest (eepromReadDataWord cfg s (BitVec.ofNat 16 src)) =
        Function.update (Function.update memory dest (eepromReadDataByte cfg s (BitVec.ofNat 16 src)))
          (dest + 1) (eepromReadDataByte cfg s (BitVec.ofNat 16 (src + 1))) := by
      rw [readDataWord_bytes s even (by omega), DataBuf.setWord, append_low, append_high]
    have either : (if aligned then
          DataBuf.setWord memory dest (eepromReadDataWord cfg s (BitVec.ofNat 16 src))
        else Function.update (Function.update memory dest
            ((eepromReadDataWord cfg s (BitVec.ofNat 16 src)).setWidth 8)) (dest + 1)
          ((eepromReadDataWord cfg s (BitVec.ofNat 16 src) >>> 8).setWidth 8)) =
        DataBuf.setWord memory dest (eepromReadDataWord cfg s (BitVec.ofNat 16 src)) :=
      ite_self _
    rw [readWords, either, ih _ _ _ (by omega) (by omega), store, readInto_succ, readInto_succ]

/-- `eeprom_read_block` reads the bytes that `EEPROM_ReadDataByte` returns. -/
theorem eepromReadBlock_bytes (s : Emulation) (memory : Memory) (buf addr len : Nat)
    (within : addr + len ≤ 0x10000) :
    eepromReadBlock cfg s memory buf addr len = readInto cfg s memory buf addr len := by
  unfold eepromReadBlock
  split
  next odd =>
    obtain ⟨some, odd⟩ := odd
    obtain ⟨rest, rfl⟩ := Nat.exists_eq_succ_of_ne_zero some
    rw [Nat.succ_sub_one, readWords_bytes s _ rest _ _ _ (by omega) (by omega), readInto_succ]
  next whole =>
    by_cases none : len = 0
    · subst none
      rw [readWords, readInto_zero]
    · exact readWords_bytes s _ len _ _ _ (by omega) within

end Reading

end QmkSonix.Eeprom
