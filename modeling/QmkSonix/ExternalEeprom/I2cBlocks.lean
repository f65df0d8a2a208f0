import QmkSonix.ExternalEeprom.I2c

/-! A block lands where it should exactly when it stays inside the bank of its first byte
and contains no page of 256 bytes. -/

namespace QmkSonix.ExternalEeprom.I2c

open QmkSonix.Lib

variable {cfg : Config}

section Packets

/-- Fewer than 256 bytes are copied, given enough rounds. -/
theorem copyBytes_some (cfg : Config) (readBuf : Memory) {writeLength : ℕ} (small : writeLength < 256)
    (rounds : ℕ) {i : Byte} (within : i.toNat ≤ writeLength) (packet : Memory)
    (enough : writeLength < i.toNat + rounds) :
    copyBytes cfg readBuf writeLength rounds i packet =
      some fun j =>
        if cfg.addressSize + i.toNat ≤ j ∧ j < cfg.addressSize + writeLength then
          readBuf (j - cfg.addressSize)
        else packet j := by
  induction rounds generalizing i packet with
  | zero => omega
  | succ rounds ih =>
    rw [copyBytes]
    by_cases more : i.toNat < writeLength
    · have next : (i + 1).toNat = i.toNat + 1 := by
        have sum := BitVec.toNat_add i 1
        have one : (1 : Byte).toNat = 1 := rfl
        omega
      rw [if_pos more, ih (by omega) _ (by omega), next]
      congr 1
      funext j
      by_cases here : j = cfg.addressSize + i.toNat
      · rw [here, if_neg (by omega), Function.update_self, if_pos (by omega),
          Nat.add_sub_cancel_left]
      · rw [Function.update_of_ne here]
        by_cases later : cfg.addressSize + (i.toNat + 1) ≤ j ∧ j < cfg.addressSize + writeLength
        · rw [if_pos later, if_pos (by omega)]
        · rw [if_neg later, if_neg (by omega)]
    · rw [if_neg more]
      congr 1
      funext j
      rw [if_neg (by omega)]

/-- A counter of 8 bits never reaches 256. -/
theorem copyBytes_none (readBuf : Memory) {writeLength : ℕ} (large : 256 ≤ writeLength)
    (rounds : ℕ) (i : Byte) (packet : Memory) :
    copyBytes cfg readBuf writeLength rounds i packet = none := by
  induction rounds generalizing i packet with
  | zero => rfl
  | succ rounds ih => rw [copyBytes, if_pos (i.isLt.trans_le large), ih]

end Packets

/-- Every byte of the block lies in the bank of its first one. -/
def StaysInBank (cfg : Config) (addr len : ℕ) : Prop :=
  (addr + (len - 1)) / 256 ^ cfg.addressSize = addr / 256 ^ cfg.addressSize

/-- The block contains no whole page of 256 bytes. -/
def FitsCounter (cfg : Config) (addr len : ℕ) : Prop :=
  cfg.pageSize = 256 → addr + len < (addr + 255) / 256 * 256 + 256

/-- The call ends, whatever the chip, the stack and the buffer hold, and leaves the buffer
in the block and all other bytes of the chip alone. -/
def Lands (cfg : Config) (addr len : ℕ) : Prop :=
  ∀ memory packet buf : Memory, ∃ enough result,
    (∀ rounds ≥ enough, eepromWriteBlock cfg rounds memory packet buf addr len = some result) ∧
      ∀ address < cfg.byteCount, result address = splice memory addr len buf address

instance (cfg : Config) (addr len : ℕ) : Decidable (StaysInBank cfg addr len) :=
  inferInstanceAs (Decidable (_ = _))

instance (cfg : Config) (addr len : ℕ) : Decidable (FitsCounter cfg addr len) :=
  inferInstanceAs (Decidable (_ → _))

section Rounds

theorem receive_packet (memory : Memory) (device : Byte) (packet readBuf : Memory)
    (targetAddr writeLength : ℕ) :
    receive cfg memory device
      (fun j =>
        if cfg.addressSize + (0 : Byte).toNat ≤ j ∧ j < cfg.addressSize + writeLength then
          readBuf (j - cfg.addressSize)
        else fillTargetAddress cfg packet targetAddr j)
      (cfg.addressSize + writeLength) =
    writePage cfg.pageSize memory
      (cfg.bank device * 256 ^ cfg.addressSize + targetAddr % 256 ^ cfg.addressSize)
      writeLength readBuf := by
  have zero : (0 : Byte).toNat = 0 := rfl
  have head : (List.range cfg.addressSize).map (fun j =>
      if cfg.addressSize + (0 : Byte).toNat ≤ j ∧ j < cfg.addressSize + writeLength then
        readBuf (j - cfg.addressSize)
      else fillTargetAddress cfg packet targetAddr j) =
      addressBytes cfg.addressSize targetAddr := by
    rw [← fillAddress_bytes cfg.addressSize packet]
    apply List.map_congr_left
    intro j member
    have below := List.mem_range.mp member
    rw [if_neg (by omega), fillTargetAddress]
  rw [receive, head, ofAddressBytes_addressBytes, Nat.add_sub_cancel_left]
  apply writePage_congr
  intro i below
  rw [if_pos (by omega), Nat.add_sub_cancel_left]

/-- The chip writes in the bank that the device address selects. -/
theorem receive_outside (pages : cfg.pageSize ∣ 256 ^ cfg.addressSize) (memory : Memory) (device : Byte) (packet : Memory) (length : ℕ)
    {address : ℕ} (outside : address / 256 ^ cfg.addressSize ≠ cfg.bank device) :
    receive cfg memory device packet length address = memory address := by
  have positive : 0 < 256 ^ cfg.addressSize := Nat.pow_pos (by decide)
  have low := ofAddressBytes_lt ((List.range cfg.addressSize).map packet)
  rw [List.length_map, List.length_range] at low
  have start : (cfg.bank device * 256 ^ cfg.addressSize +
      ofAddressBytes ((List.range cfg.addressSize).map packet)) / 256 ^ cfg.addressSize =
      cfg.bank device := by
    rw [Nat.mul_comm, Nat.mul_add_div positive, Nat.div_eq_of_lt low, Nat.add_zero]
  apply writePage_outside cfg.pageSize_pos pages
  rw [start]
  exact outside

/-- A round of the outer loop writes what fits in the page. -/
theorem writePages_succ (addr : ℕ) {rounds len targetAddr : ℕ} (memory packet readBuf : Memory)
    (some : len ≠ 0) (small : pageRoom cfg.pageSize targetAddr len < 256)
    (enough : pageRoom cfg.pageSize targetAddr len < rounds) :
    ∃ next : Memory,
      writePages cfg addr (rounds + 1) memory packet readBuf targetAddr len =
        writePages cfg addr rounds
          (writePage cfg.pageSize memory
            (cfg.bank (cfg.i2cAddress addr) * 256 ^ cfg.addressSize +
              targetAddr % 256 ^ cfg.addressSize)
            (pageRoom cfg.pageSize targetAddr len) readBuf)
          next (fun i => readBuf (i + pageRoom cfg.pageSize targetAddr len))
          (targetAddr + pageRoom cfg.pageSize targetAddr len)
          (len - pageRoom cfg.pageSize targetAddr len) := by
  have zero : (0 : Byte).toNat = 0 := rfl
  have copied := copyBytes_some cfg readBuf small rounds (i := 0) (by omega)
    (fillTargetAddress cfg packet targetAddr) (by omega)
  unfold pageRoom at *
  rw [writePages, if_neg some]
  dsimp only
  rw [copied]
  dsimp only
  rw [receive_packet]
  exact ⟨_, rfl⟩

/-- A round that goes on has less than 256 bytes to copy. -/
theorem room_lt_of_some {addr rounds len targetAddr : ℕ} {memory packet readBuf result : Memory}
    (more : len ≠ 0)
    (ends : writePages cfg addr (rounds + 1) memory packet readBuf targetAddr len = some result) :
    pageRoom cfg.pageSize targetAddr len < 256 := by
  by_contra large
  unfold pageRoom at large
  rw [writePages, if_neg more] at ends
  dsimp only at ends
  rw [copyBytes_none readBuf (Nat.le_of_not_lt large)] at ends
  cases ends

theorem fitsCounter_rest {targetAddr len : ℕ} (fits : FitsCounter cfg targetAddr len) :
    pageRoom cfg.pageSize targetAddr len < 256 ∧
      FitsCounter cfg (targetAddr + pageRoom cfg.pageSize targetAddr len)
        (len - pageRoom cfg.pageSize targetAddr len) := by
  have below := cfg.pageSize_le
  unfold FitsCounter pageRoom at *
  by_cases wide : cfg.pageSize = 256
  · have bound := fits wide
    rw [wide]
    omega
  · exact ⟨by omega, fun same => absurd same wide⟩

theorem fitsCounter_of_rest {targetAddr len : ℕ}
    (small : pageRoom cfg.pageSize targetAddr len < 256)
    (rest : FitsCounter cfg (targetAddr + pageRoom cfg.pageSize targetAddr len)
      (len - pageRoom cfg.pageSize targetAddr len)) : FitsCounter cfg targetAddr len := by
  intro wide
  have bound := rest wide
  unfold pageRoom at *
  rw [wide] at small bound
  omega

/-- A call that ends has met no whole page of 256 bytes. -/
theorem fitsCounter_of_some {addr : ℕ} (rounds : ℕ) {len targetAddr : ℕ}
    {memory packet readBuf result : Memory}
    (ends : writePages cfg addr rounds memory packet readBuf targetAddr len = some result) :
    FitsCounter cfg targetAddr len := by
  induction rounds generalizing memory packet readBuf targetAddr len with
  | zero => cases ends
  | succ rounds ih =>
    by_cases done : len = 0
    · intro wide
      omega
    · have small := room_lt_of_some done ends
      rw [writePages, if_neg done] at ends
      dsimp only at ends
      split at ends
      · cases ends
      · exact fitsCounter_of_rest small (ih ends)

/-- The block lands where its pages are written to its own bank. -/
theorem writePages_lands {addr : ℕ} (rounds : ℕ) {len targetAddr : ℕ}
    {memory packet readBuf : Memory} (enough : len + 256 ≤ rounds)
    (fits : FitsCounter cfg targetAddr len)
    (inBank : ∀ address, targetAddr ≤ address → address < targetAddr + len →
      address / 256 ^ cfg.addressSize = cfg.bank (cfg.i2cAddress addr)) :
    writePages cfg addr rounds memory packet readBuf targetAddr len =
      some (splice memory targetAddr len readBuf) := by
  induction rounds generalizing memory packet readBuf targetAddr len with
  | zero => omega
  | succ rounds ih =>
    by_cases done : len = 0
    · rw [writePages, if_pos done, done, splice_zero]
    · obtain ⟨small, rest⟩ := fitsCounter_rest fits
      have positive : 0 < pageRoom cfg.pageSize targetAddr len :=
        pageRoom_pos cfg.pageSize_pos done
      have below := pageRoom_le cfg.pageSize targetAddr len
      have room : pageRoom cfg.pageSize targetAddr len < rounds := by omega
      obtain ⟨next, goesOn⟩ := writePages_succ addr memory packet readBuf done small room
      have start : cfg.bank (cfg.i2cAddress addr) * 256 ^ cfg.addressSize +
          targetAddr % 256 ^ cfg.addressSize = targetAddr := by
        rw [← inBank targetAddr le_rfl (by omega), Nat.mul_comm, Nat.div_add_mod]
      rw [goesOn, start, writePage_fits (pageRoom_fits cfg.pageSize_pos targetAddr len),
        ih (by omega) rest (fun address start before => inBank address (by omega) (by omega)),
        splice_splice, Nat.add_sub_cancel' below]

/-- Bytes outside of the bank of `addr` are never written. -/
theorem writePages_outside (pages : cfg.pageSize ∣ 256 ^ cfg.addressSize) {addr : ℕ} (rounds : ℕ) {len targetAddr : ℕ}
    {memory packet readBuf result : Memory}
    (ends : writePages cfg addr rounds memory packet readBuf targetAddr len = some result)
    {address : ℕ}
    (outside : address / 256 ^ cfg.addressSize ≠ cfg.bank (cfg.i2cAddress addr)) :
    result address = memory address := by
  induction rounds generalizing memory packet readBuf targetAddr len with
  | zero => cases ends
  | succ rounds ih =>
    by_cases done : len = 0
    · rw [writePages, if_pos done] at ends
      rw [Option.some.inj ends]
    · have small := room_lt_of_some done ends
      rw [writePages, if_neg done] at ends
      dsimp only at ends
      split at ends
      · cases ends
      · rw [ih ends, receive_outside pages _ _ _ _ outside]

end Rounds

theorem Lands.fitsCounter {addr len : ℕ} (lands : Lands cfg addr len) :
    FitsCounter cfg addr len := by
  obtain ⟨enough, result, ends, -⟩ := lands (fun _ => 0) (fun _ => 0) (fun _ => 0)
  exact fitsCounter_of_some enough (ends enough le_rfl)

/-- The last byte of a block is written in the bank of its first one. -/
theorem Lands.staysInBank {addr len : ℕ} (lands : Lands cfg addr len)
    (inside : addr + len ≤ cfg.byteCount) : StaysInBank cfg addr len := by
  obtain ⟨enough, result, ends, holds⟩ := lands (fun _ => 0) (fun _ => 0) (fun _ => 1)
  have ended := ends enough le_rfl
  by_cases some : len = 0
  · rw [some, StaysInBank]
    rfl
  by_cases banks : 256 ^ cfg.addressSize < cfg.byteCount
  · by_contra leaves
    have last : splice (fun _ => (0 : Byte)) addr len (fun _ => 1) (addr + (len - 1)) = 1 := by
      rw [splice, if_pos (by omega)]
    have outside : (addr + (len - 1)) / 256 ^ cfg.addressSize ≠
        cfg.bank (cfg.i2cAddress addr) := by
      rw [cfg.selects addr (by omega)]
      exact leaves
    have untouched := writePages_outside (cfg.pages banks) enough ended outside
    have written := holds (addr + (len - 1)) (by omega)
    rw [last, untouched] at written
    exact absurd written (by decide)
  · rw [StaysInBank, Nat.div_eq_of_lt (by omega), Nat.div_eq_of_lt (by omega)]

/-- A block lands where it should, over all contents, exactly when it stays in the bank of
its first byte and contains no whole page of 256 bytes. -/
theorem block_lands_iff (cfg : Config) (addr len : ℕ) (inside : addr + len ≤ cfg.byteCount) :
    Lands cfg addr len ↔ StaysInBank cfg addr len ∧ FitsCounter cfg addr len := by
  constructor
  · intro lands
    exact ⟨lands.staysInBank inside, lands.fitsCounter⟩
  · rintro ⟨stays, fits⟩ memory packet buf
    refine ⟨len + 256, splice memory addr len buf, fun rounds enough => ?_, fun _ _ => rfl⟩
    apply writePages_lands rounds enough fits
    intro address start before
    rw [cfg.selects addr (by omega)]
    apply Nat.le_antisymm
    · rw [← stays]
      exact Nat.div_le_div_right (by omega)
    · exact Nat.div_le_div_right start

/-- A chip of four banks with pages of 256 bytes, whose device address carries the bank. -/
def banked : Config where
  byteCount := 262144
  pageSize := 256
  addressSize := 2
  i2cAddress loc := 0xA0 ||| BitVec.ofNat 8 (loc >>> 16 &&& 0x07) <<< 1
  bank device := (device >>> 1 &&& 0x07).toNat
  pageSize_pos := by decide
  pageSize_le := le_rfl
  pages _ := by decide
  addressed := Nat.two_pos
  selects loc below := by
    have shifted : loc >>> 16 = loc / 256 ^ 2 := Nat.shiftRight_eq_div_pow loc 16
    rw [shifted]
    have small : loc / 256 ^ 2 < 4 := by omega
    generalize loc / 256 ^ 2 = bank at small
    interval_cases bank <;> rfl

theorem banked_lands : Lands banked 131000 70 :=
  (block_lands_iff banked 131000 70 (by decide)).mpr (by decide)

/-- A block over the end of a bank is written at its start, and a whole page of 256 bytes is
never sent. -/
theorem bank_and_page_break : ¬ Lands banked 0xFFFF 2 ∧ ¬ Lands banked 0 256 := by
  constructor
  · intro lands
    exact absurd (lands.staysInBank (by decide)) (by decide)
  · intro lands
    exact absurd lands.fitsCounter (by decide)

end QmkSonix.ExternalEeprom.I2c
