import QmkSonix.ExternalEeprom.Address

/-! `eeprom_write_block` of `eeprom_i2c.c`, on a chip whose page writes wrap and whose
device address selects a bank. -/

namespace QmkSonix.ExternalEeprom.I2c

open QmkSonix.Lib

/-- A chip, and the macros of `eeprom_i2c.h` that describe it. -/
structure Config where
  /-- `EXTERNAL_EEPROM_BYTE_COUNT` -/
  byteCount : ℕ
  /-- `EXTERNAL_EEPROM_PAGE_SIZE` -/
  pageSize : ℕ
  /-- `EXTERNAL_EEPROM_ADDRESS_SIZE` -/
  addressSize : ℕ
  /-- `EXTERNAL_EEPROM_I2C_ADDRESS` -/
  i2cAddress : ℕ → Byte
  /-- The bank that the chip selects for a device address. -/
  bank : Byte → ℕ
  pageSize_pos : 0 < pageSize
  pageSize_le : pageSize ≤ 256
  /-- Banks are whole pages. -/
  pages : 256 ^ addressSize < byteCount → pageSize ∣ 256 ^ addressSize
  addressed : 0 < addressSize
  selects : ∀ loc < byteCount, bank (i2cAddress loc) = loc / 256 ^ addressSize

variable (cfg : Config)

/-- `fill_target_address` -/
def fillTargetAddress (buffer : Memory) (addr : ℕ) : Memory :=
  fillAddress cfg.addressSize buffer addr

/-- The loop of `eeprom_write_block` that fills the packet, with a counter of 8 bits. Its
first argument bounds the rounds. -/
def copyBytes (readBuf : Memory) (writeLength : ℕ) : ℕ → Byte → Memory → Option Memory
  | 0, _, _ => none
  | rounds + 1, i, packet =>
    if i.toNat < writeLength then
      copyBytes readBuf writeLength rounds (i + 1)
        (Function.update packet (cfg.addressSize + i.toNat) (readBuf i.toNat))
    else some packet

/-- What the chip does with a packet of `length` bytes: a write that wraps in its page. -/
def receive (memory : Memory) (device : Byte) (packet : Memory) (length : ℕ) : Memory :=
  let low := ofAddressBytes ((List.range cfg.addressSize).map packet)
  writePage cfg.pageSize memory (cfg.bank device * 256 ^ cfg.addressSize + low)
    (length - cfg.addressSize) (fun i => packet (cfg.addressSize + i))

/-- The outer loop of `eeprom_write_block`, for the `addr` of its caller. Its first argument
bounds the rounds of both loops. -/
def writePages (addr : ℕ) :
    ℕ → (memory packet readBuf : Memory) → (targetAddr len : ℕ) → Option Memory
  | 0, _, _, _, _, _ => none
  | rounds + 1, memory, packet, readBuf, targetAddr, len =>
    if len = 0 then some memory
    else
      let pageOffset := targetAddr % cfg.pageSize
      let writeLength := min (cfg.pageSize - pageOffset) len
      match copyBytes cfg readBuf writeLength rounds 0
        (fillTargetAddress cfg packet targetAddr) with
      | none => none
      | some packet =>
        writePages addr rounds
          (receive cfg memory (cfg.i2cAddress addr) packet (cfg.addressSize + writeLength))
          packet (fun i => readBuf (i + writeLength)) (targetAddr + writeLength)
          (len - writeLength)

/-- `eeprom_write_block`, over what the chip holds and the stack has left in the packet -/
def eepromWriteBlock (rounds : ℕ) (memory packet buf : Memory) (addr len : ℕ) : Option Memory :=
  writePages cfg addr rounds memory packet buf addr len

end QmkSonix.ExternalEeprom.I2c
