import QmkSonix.Lib.Crc
import QmkSonix.Split.SlaveMatrix

/-! What the checksum of `crc.c` tells apart, in all of its builds, and what this means
for the slave's matrix on the master. -/

namespace QmkSonix.Split

open QmkSonix.Lib QmkSonix.Lib.Crc

/-! ### The other builds of `crc8` -/

section Wide

variable {width : ℕ}

/-- One round of the inner loop with a `crc_t` of more than eight bits, as under
`CRC8_OPTIMIZE_SPEED`: what is shifted out of the byte stays in the word. -/
def crcShiftWide (crc : BitVec width) : BitVec width :=
  if crc &&& 0x80 ≠ 0 then (crc <<< 1) ^^^ 0x31 else crc <<< 1

def crc8Wide (width : ℕ) (data : Vector Byte size) : Byte :=
  (data.toList.foldl
    (fun crc byte => (List.range 8).foldl (fun crc _ => crcShiftWide crc)
      (crc ^^^ byte.setWidth width)) (0xff : BitVec width)).setWidth 8

theorem top_of_byte {width : ℕ} (wide : 8 ≤ width) (crc : BitVec width) :
    crc &&& 0x80 ≠ 0 ↔ crc.getLsbD 7 = true := by
  have bit : (0x80 : BitVec width) = BitVec.twoPow width 7 := by
    apply BitVec.eq_of_toNat_eq
    rw [BitVec.toNat_twoPow]
    rfl
  rw [bit, BitVec.and_twoPow]
  by_cases set : crc.getLsbD 7 = true
  · rw [set, if_pos rfl]
    refine iff_of_true ?_ rfl
    intro zero
    have bit := congrArg (BitVec.getLsbD · 7) zero
    simp [BitVec.getLsbD_twoPow] at bit
    omega
  · simp [set]

theorem crcShiftWide_setWidth (wide : 8 ≤ width) (crc : BitVec width) :
    (crcShiftWide crc).setWidth 8 = crcShift (crc.setWidth 8) := by
  have top : crc.setWidth 8 &&& 0x80 ≠ 0 ↔ crc &&& 0x80 ≠ 0 := by
    rw [top_of_byte wide, top_of_byte (Nat.le_refl 8), BitVec.getLsbD_setWidth]
    simp
  have shifted : (crc <<< 1).setWidth 8 = crc.setWidth 8 <<< 1 := by
    apply BitVec.eq_of_getLsbD_eq
    intro i inside
    simp only [BitVec.getLsbD_setWidth, BitVec.getLsbD_shiftLeft]
    by_cases first : i < 1 <;> simp [first, inside, (by omega : i < width), (by omega : i - 1 < 8)]
  have poly : (0x31 : BitVec width).setWidth 8 = 0x31 := BitVec.setWidth_ofNat_of_le wide 0x31
  rw [crcShiftWide, crcShift]
  simp only [top]
  split
  · rw [BitVec.setWidth_xor, shifted, poly]
  · exact shifted

/-- The result is the same as with a byte. -/
theorem crc8Wide_eq (wide : 8 ≤ width) (data : Vector Byte size) :
    crc8Wide width data = crc8 data := by
  have rounds (count : ℕ) (crc : BitVec width) :
      ((List.range count).foldl (fun crc _ => crcShiftWide crc) crc).setWidth 8 =
        (List.range count).foldl (fun crc _ => crcShift crc) (crc.setWidth 8) := by
    induction count with
    | zero => rfl
    | succ count ih =>
      rw [List.range_succ, List.foldl_append, List.foldl_append, ← ih]
      exact crcShiftWide_setWidth wide _
  have bytes (data : List Byte) (crc : BitVec width) :
      (data.foldl (fun crc byte => (List.range 8).foldl (fun crc _ => crcShiftWide crc)
        (crc ^^^ byte.setWidth width)) crc).setWidth 8 =
      data.foldl (fun crc byte => (List.range 8).foldl (fun crc _ => crcShift crc) (crc ^^^ byte))
        (crc.setWidth 8) := by
    induction data generalizing crc with
    | nil => rfl
    | cons byte rest ih =>
      have narrow : (byte.setWidth width).setWidth 8 = byte := by
        apply BitVec.eq_of_getLsbD_eq
        intro i inside
        simp [inside, (by omega : i < width)]
      rw [List.foldl_cons, List.foldl_cons, ih, rounds, BitVec.setWidth_xor, narrow]
  have start : (0xff : BitVec width).setWidth 8 = 0xff := BitVec.setWidth_ofNat_of_le wide 0xff
  rw [crc8Wide, bytes, start, crc8]

end Wide

/-- `crc_table` -/
def crcTable : List Byte :=
   [0x00, 0x07, 0x0e, 0x09, 0x1c, 0x1b, 0x12, 0x15, 0x38, 0x3f, 0x36, 0x31, 0x24, 0x23, 0x2a, 0x2d,
    0x70, 0x77, 0x7e, 0x79, 0x6c, 0x6b, 0x62, 0x65, 0x48, 0x4f, 0x46, 0x41, 0x54, 0x53, 0x5a, 0x5d,
    0xe0, 0xe7, 0xee, 0xe9, 0xfc, 0xfb, 0xf2, 0xf5, 0xd8, 0xdf, 0xd6, 0xd1, 0xc4, 0xc3, 0xca, 0xcd,
    0x90, 0x97, 0x9e, 0x99, 0x8c, 0x8b, 0x82, 0x85, 0xa8, 0xaf, 0xa6, 0xa1, 0xb4, 0xb3, 0xba, 0xbd,
    0xc7, 0xc0, 0xc9, 0xce, 0xdb, 0xdc, 0xd5, 0xd2, 0xff, 0xf8, 0xf1, 0xf6, 0xe3, 0xe4, 0xed, 0xea,
    0xb7, 0xb0, 0xb9, 0xbe, 0xab, 0xac, 0xa5, 0xa2, 0x8f, 0x88, 0x81, 0x86, 0x93, 0x94, 0x9d, 0x9a,
    0x27, 0x20, 0x29, 0x2e, 0x3b, 0x3c, 0x35, 0x32, 0x1f, 0x18, 0x11, 0x16, 0x03, 0x04, 0x0d, 0x0a,
    0x57, 0x50, 0x59, 0x5e, 0x4b, 0x4c, 0x45, 0x42, 0x6f, 0x68, 0x61, 0x66, 0x73, 0x74, 0x7d, 0x7a,
    0x89, 0x8e, 0x87, 0x80, 0x95, 0x92, 0x9b, 0x9c, 0xb1, 0xb6, 0xbf, 0xb8, 0xad, 0xaa, 0xa3, 0xa4,
    0xf9, 0xfe, 0xf7, 0xf0, 0xe5, 0xe2, 0xeb, 0xec, 0xc1, 0xc6, 0xcf, 0xc8, 0xdd, 0xda, 0xd3, 0xd4,
    0x69, 0x6e, 0x67, 0x60, 0x75, 0x72, 0x7b, 0x7c, 0x51, 0x56, 0x5f, 0x58, 0x4d, 0x4a, 0x43, 0x44,
    0x19, 0x1e, 0x17, 0x10, 0x05, 0x02, 0x0b, 0x0c, 0x21, 0x26, 0x2f, 0x28, 0x3d, 0x3a, 0x33, 0x34,
    0x4e, 0x49, 0x40, 0x47, 0x52, 0x55, 0x5c, 0x5b, 0x76, 0x71, 0x78, 0x7f, 0x6a, 0x6d, 0x64, 0x63,
    0x3e, 0x39, 0x30, 0x37, 0x22, 0x25, 0x2c, 0x2b, 0x06, 0x01, 0x08, 0x0f, 0x1a, 0x1d, 0x14, 0x13,
    0xae, 0xa9, 0xa0, 0xa7, 0xb2, 0xb5, 0xbc, 0xbb, 0x96, 0x91, 0x98, 0x9f, 0x8a, 0x8d, 0x84, 0x83,
    0xde, 0xd9, 0xd0, 0xd7, 0xc2, 0xc5, 0xcc, 0xcb, 0xe6, 0xe1, 0xe8, 0xef, 0xfa, 0xfd, 0xf4, 0xf3]

/-- `crc8` built with `CRC8_USE_TABLE` -/
def crc8Table (data : Vector Byte size) : Byte :=
  data.toList.foldl (fun crc byte => crcTable[(crc ^^^ byte).toNat]?.getD 0) 0xff

/-! ### The shift register -/

theorem crcShift_eq (crc : Byte) : crcShift crc = feed 0x31 crc false := by
  have top : crc &&& 0x80 ≠ 0 ↔ crc.msb = true := top_of_byte (Nat.le_refl 8) crc
  rw [crcShift, feed]
  simp only [top, Bool.bne_false]
  split
  · rfl
  · exact (BitVec.xor_zero ..).symm

theorem crcTable_eq : ∀ crc : Byte,
    crcTable[crc.toNat]?.getD 0 = register 0x07 crc (List.replicate 8 false) := by
  decide +kernel

/-- A byte put into the register at once is shifted through it. -/
theorem register_bitsOf (poly crc byte : Byte) :
    register poly crc (bitsOf byte) = register poly (crc ^^^ byte) (List.replicate 8 false) := by
  have split := @register_xor _ poly (List.replicate 8 false) (bitsOf byte) crc 0
    (by rw [length_bitsOf]; rfl)
  have joined := @register_xor _ poly (List.replicate 8 false) (List.replicate 8 false) crc byte rfl
  have zeros : difference (List.replicate 8 false) (bitsOf byte) = bitsOf byte := by
    simp [difference, bitsOf, List.range_succ, List.replicate_succ]
  have put := @register_placed _ poly (bitsOf byte) (length_bitsOf byte).le
  rw [placed_bitsOf, length_bitsOf] at put
  rw [zeros, put] at split
  rw [show crc ^^^ 0 = crc by simp] at split
  rw [split, ← joined]
  rfl

/-- The bits of some bytes in the order in which they are checked. -/
def wire (data : Vector Byte size) : List Bool := data.toList.flatMap bitsOf

theorem length_wire (data : Vector Byte size) : (wire data).length = size * 8 := by
  simp [wire, length_bitsOf]

theorem register_bytes (poly : Byte) (step : Byte → Byte → Byte)
    (steps : ∀ crc byte, step crc byte = register poly (crc ^^^ byte) (List.replicate 8 false))
    (data : List Byte) (crc : Byte) :
    data.foldl step crc = register poly crc (data.flatMap bitsOf) := by
  induction data generalizing crc with
  | nil => rfl
  | cons byte rest ih =>
    rw [List.foldl_cons, ih, List.flatMap_cons, register_append, register_bitsOf, steps]

theorem crc8_eq (data : Vector Byte size) : crc8 data = register 0x31 0xff (wire data) := by
  refine register_bytes 0x31 _ (fun crc byte => ?_) data.toList 0xff
  simp only [List.range_succ, List.range_zero, List.nil_append, List.foldl_append, List.foldl_cons,
    List.foldl_nil, crcShift_eq]
  rfl

theorem crc8Table_eq (data : Vector Byte size) : crc8Table data = register 0x07 0xff (wire data) :=
  register_bytes 0x07 _ (fun crc byte => crcTable_eq (crc ^^^ byte)) data.toList 0xff

/-! ### What is noticed -/

/-- The number of bits set, modulo 2. -/
def parity (byte : Byte) : Bool := (bitsOf byte).foldl xor false

theorem notices_bitwise : Notices (0x31 : Byte) 126 := by
  refine ⟨by decide, by decide +kernel, parity, by decide, ?_⟩
  decide +kernel

theorem notices_table : Notices (0x07 : Byte) 126 := by
  refine ⟨by decide, by decide +kernel, parity, by decide, ?_⟩
  decide +kernel

/-- Data of one size that differ inside eight neighbouring bits, in two bits less than
127 apart or in an odd number of bits have different checksums in every build. -/
theorem crc8_distinguishes {first second : Vector Byte size}
    (noticeable : Noticeable 8 126 (difference (wire first) (wire second))) :
    crc8 first ≠ crc8 second ∧ crc8Table first ≠ crc8Table second ∧
      ∀ width, 8 ≤ width → crc8Wide width first ≠ crc8Wide width second := by
  have same : (wire first).length = (wire second).length := by rw [length_wire, length_wire]
  have bitwise : crc8 first ≠ crc8 second := by
    rw [crc8_eq, crc8_eq]
    exact notices_bitwise.distinguishes same noticeable
  refine ⟨bitwise, ?_, fun width wide => ?_⟩
  · rw [crc8Table_eq, crc8Table_eq]
    exact notices_table.distinguishes same noticeable
  · rw [crc8Wide_eq wide, crc8Wide_eq wide]
    exact bitwise

/-! ### The slave's matrix on the master -/

section Matrix

variable {size : ℕ} {matrix : Vector Byte size}

/-- Two matrices that are the same, or differ noticeably. -/
def Tellable (first second : Vector Byte size) : Prop :=
  first = second ∨ Noticeable 8 126 (difference (wire first) (wire second))

theorem Tellable.eq {other : Vector Byte size} (tellable : Tellable other matrix)
    (checked : crc8 other = crc8 matrix) : other = matrix := by
  rcases tellable with same | noticeable
  · exact same
  · exact absurd checked (crc8_distinguishes noticeable).1

/-- In every run, when the slave's checksum arrives unharmed: a successful call hands
out the slave's matrix unless damage to the data escapes the checksum, and a call
whose transfers succeed hands it out unless the change since the last fetch escapes
the checksum. -/
theorem slave_matrix_followed (reads : List (ChecksummedRead size)) {read : ChecksummedRead size}
    (unharmed : read.checksum.slot = crc8 matrix) :
    let s := run ChecksummedRead.exec {} reads
    let call := observe s read
    (call.okay = true → Tellable call.slot matrix → call.handedOut = matrix) ∧
      (read.checksum.okay = true → read.data.okay = true → read.data.slot = matrix →
        Tellable s.smatrix.data matrix → call.okay = true ∧ call.handedOut = matrix) := by
  intro s call
  have sound (okay : call.okay = true) (tellable : Tellable call.slot matrix) :
      call.handedOut = matrix := by
    obtain ⟨handed, checked⟩ := observe_okay okay
    rw [handed]
    exact tellable.eq (checked.trans unharmed)
  refine ⟨sound, fun arrived fetched fresh tellable => ?_⟩
  have outcome : (readIfChecksumMismatch s.smatrix read).2.2 = true ∧
      (readIfChecksumMismatch s.smatrix read).1.data = matrix := by
    unfold readIfChecksumMismatch
    dsimp only
    by_cases fetches : read.checksum.okay = true ∧
        (forcedSyncThrottleMs ≤ read.now - s.smatrix.lastUpdate ∨
          read.checksum.slot ≠ crc8 s.smatrix.data)
    · have checked : read.checksum.slot = crc8 read.data.slot := by rw [unharmed, fresh]
      rw [if_pos fetches, if_pos ⟨fetched, checked⟩]
      exact ⟨decide_eq_true ⟨fetched, checked⟩, fresh⟩
    · have same : read.checksum.slot = crc8 s.smatrix.data :=
        not_not.mp (not_or.mp (not_and.mp fetches arrived)).2
      rw [if_neg fetches]
      exact ⟨arrived, tellable.eq (same.symm.trans unharmed)⟩
  exact ⟨outcome.1, sound outcome.1 (.inl outcome.2)⟩

/-- One key of the slave goes down behind the empty matrix. -/
theorem slave_matrix_followed_key :
    (observe (run ChecksummedRead.exec {} [])
      ⟨10, 11, ⟨true, crc8 #v[0, 4]⟩, ⟨true, #v[0, 4]⟩⟩).handedOut = #v[0, 4] := by
  have tellable : Tellable (#v[0, 0] : Vector Byte 2) #v[0, 4] := .inr (.odd _ (by decide))
  exact ((@slave_matrix_followed 2 #v[0, 4] []
    ⟨10, 11, ⟨true, crc8 #v[0, 4]⟩, ⟨true, #v[0, 4]⟩⟩ rfl).2 rfl rfl rfl tellable).2

end Matrix

end QmkSonix.Split
