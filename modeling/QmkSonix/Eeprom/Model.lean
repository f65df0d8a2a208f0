import QmkSonix.Eeprom.Flash
import QmkSonix.Lib.Run

/-! The EEPROM emulation of `eeprom_stm32.c`: a one's-complement snapshot of
the contents followed by a write log, cached in `DataBuf`. -/

namespace QmkSonix.Eeprom

def feeWordEncoding : HalfWord := 0x8000
def feeValueNext : HalfWord := 0x6000
def feeValueReserved : HalfWord := 0x4000
def feeValueEncoded : HalfWord := 0x2000
def feeByteRange : HalfWord := 0x80
def feeAddressMaxSize : Nat := 0x4000

/-- The `FEE_` configuration, with what its preprocessor checks enforce. Pages
hold whole half-words and `eeprom_clear` counts them in a `uint16_t`. -/
structure Config where
  pageSize : Nat
  pageCount : Nat
  densityBytes : Nat
  writeLogBytes : Nat
  pageEven : pageSize % 2 = 0 := by decide
  pagesCounted : pageCount < 0x10000 := by decide
  densityEven : densityBytes % 2 = 0 := by decide
  logEven : writeLogBytes % 2 = 0 := by decide
  fits : densityBytes + writeLogBytes ≤ pageCount * pageSize := by decide
  addressable : densityBytes ≤ feeAddressMaxSize := by decide

namespace Config

/-- The first cell of the write log, which is the end of the compacted area. -/
def logBase (cfg : Config) : Nat := cfg.densityBytes / 2

/-- The cell after the write log. -/
def logLast (cfg : Config) : Nat := (cfg.densityBytes + cfg.writeLogBytes) / 2

end Config

/-- The contents of `DataBuf`, by byte address. -/
abbrev DataBuf := Nat → Byte

namespace DataBuf

/-- `*(uint16_t *)(&DataBuf[address])` on a little-endian machine. -/
def word (buf : DataBuf) (address : Nat) : HalfWord := buf (address + 1) ++ buf address

def setWord (buf : DataBuf) (address : Nat) (value : HalfWord) : DataBuf :=
  Function.update (Function.update buf address (value.setWidth 8)) (address + 1)
    ((value >>> 8).setWidth 8)

end DataBuf

/-- The static variables of `eeprom_stm32.c` and the flash they describe.
`emptySlot` is the cell that `empty_slot` points to. -/
structure Emulation where
  flash : Flash
  dataBuf : DataBuf := fun _ => 0
  emptySlot : Nat := 0

/-- The first loop of `EEPROM_Init`. -/
def loadCompacted (cfg : Config) (cells : Cells) (buf : DataBuf) : DataBuf :=
  (List.range cfg.logBase).foldl (fun buf cell => buf.setWord (2 * cell) (~~~cells cell)) buf

/-- The second loop of `EEPROM_Init`, with `remaining` cells between `logAddr`
and the end of the log. Returns the cache and the final `log_addr`. -/
def replayLog (cfg : Config) (cells : Cells) : Nat → Nat → DataBuf → DataBuf × Nat
  | 0, logAddr, buf => (buf, logAddr)
  | remaining + 1, logAddr, buf =>
    let address := cells logAddr
    if address = feeEmptyWord then (buf, logAddr)
    else if address &&& feeWordEncoding = 0 then
      replayLog cfg cells remaining (logAddr + 1)
        (Function.update buf (address >>> 8).toNat (address.setWidth 8))
    else if address &&& feeValueNext = feeValueNext then
      match remaining with
      | 0 => (buf, logAddr + 1)
      | remaining + 1 =>
        let wvalue := ~~~cells (logAddr + 1)
        -- possibly an incomplete write: the value word was never programmed
        if wvalue = 0 then replayLog cfg cells remaining (logAddr + 2) buf
        else
          let address := ((address &&& 0x1FFF) <<< 1) + feeByteRange
          replayLog cfg cells remaining (logAddr + 2)
            (if address.toNat < cfg.densityBytes then buf.setWord address.toNat wvalue else buf)
    else if address &&& feeValueReserved ≠ 0 then replayLog cfg cells remaining (logAddr + 1) buf
    else
      let wvalue := (address &&& feeValueEncoded) >>> 13
      let address := (address &&& 0x1FFF) <<< 1
      replayLog cfg cells remaining (logAddr + 1)
        (if address.toNat < cfg.densityBytes then buf.setWord address.toNat wvalue else buf)

section Operations

variable (cfg : Config)

/-- `EEPROM_Init`, with the size it returns. -/
def eepromInit (s : Emulation) : Emulation × HalfWord :=
  let replayed := replayLog cfg s.flash.cells (cfg.logLast - cfg.logBase) cfg.logBase
    (loadCompacted cfg s.flash.cells s.dataBuf)
  ({ s with dataBuf := replayed.1, emptySlot := replayed.2 }, BitVec.ofNat 16 cfg.densityBytes)

/-- `eeprom_clear`: erases every page, the compacted pages first. -/
def eepromClear (s : Emulation) : Emulation :=
  let erased := (List.range cfg.pageCount).foldl
    (fun flash page => (flash.erasePage cfg.pageSize page).1) s.flash.unlock
  { s with flash := erased.lock, emptySlot := cfg.logBase }

/-- One round of the loop of `eeprom_compact`. -/
def compactCell (dataBuf : DataBuf) (progress : Flash × FlashStatus) (cell : Nat) :
    Flash × FlashStatus :=
  let value := dataBuf.word (2 * cell)
  if value = 0 then progress
  else
    let programmed := progress.1.programHalfWord cell (~~~value)
    (programmed.1, if programmed.2 = .complete then progress.2 else programmed.2)

/-- `eeprom_compact` -/
def eepromCompact (s : Emulation) : Emulation × FlashStatus :=
  let cleared := eepromClear cfg s
  let compacted := (List.range cfg.logBase).foldl (compactCell s.dataBuf)
    (cleared.flash.unlock, .complete)
  ({ cleared with flash := compacted.1.lock }, compacted.2)

/-- `eeprom_write_direct_entry` -/
def eepromWriteDirectEntry (s : Emulation) (address : HalfWord) : Emulation × FlashStatus :=
  let aligned := (address &&& 0xFFFE).toNat
  if s.flash.cells (aligned / 2) = feeEmptyWord then
    let value := ~~~s.dataBuf.word aligned
    if value = feeEmptyWord then (s, .complete)
    else
      let programmed := s.flash.unlock.programHalfWord (aligned / 2) value
      ({ s with flash := programmed.1.lock }, programmed.2)
  else (s, .unset)

/-- `eeprom_write_log_word_entry`. The test for room compares `empty_slot` with
`FEE_WRITE_LOG_LAST_ADDRESS - entry_size`; both sides are shifted by the entry
here, counted in cells. -/
def eepromWriteLogWordEntry (s : Emulation) (address : HalfWord) : Emulation × FlashStatus :=
  let value := s.dataBuf.word address.toNat
  let encoding :=
    if value ≤ 1 then feeWordEncoding ||| (value <<< 13) else feeWordEncoding ||| feeValueNext
  let entrySize := if value ≤ 1 then 2 else 4
  let address := if value ≤ 1 then address else address - feeByteRange
  if cfg.logLast < s.emptySlot + entrySize / 2 then eepromCompact cfg s
  else
    let header := s.flash.unlock.programHalfWord s.emptySlot ((address >>> 1) ||| encoding)
    if encoding = feeWordEncoding ||| feeValueNext then
      let next := header.1.programHalfWord (s.emptySlot + 1) (~~~value)
      ({ s with flash := next.1.lock, emptySlot := s.emptySlot + 2 },
        if next.2 = .complete then header.2 else next.2)
    else ({ s with flash := header.1.lock, emptySlot := s.emptySlot + 1 }, header.2)

/-- `eeprom_write_log_byte_entry` -/
def eepromWriteLogByteEntry (s : Emulation) (address : HalfWord) : Emulation × FlashStatus :=
  if cfg.logLast ≤ s.emptySlot then eepromCompact cfg s
  else
    let value := (address <<< 8) ||| (s.dataBuf address.toNat).setWidth 16
    let programmed := s.flash.unlock.programHalfWord s.emptySlot value
    ({ s with flash := programmed.1.lock, emptySlot := s.emptySlot + 1 }, programmed.2)

/-- `EEPROM_WriteDataByte` -/
def eepromWriteDataByte (s : Emulation) (address : HalfWord) (dataByte : Byte) :
    Emulation × FlashStatus :=
  if cfg.densityBytes ≤ address.toNat then (s, .badAddress)
  else if s.dataBuf address.toNat = dataByte then (s, .unset)
  else
    let cached := { s with dataBuf := Function.update s.dataBuf address.toNat dataByte }
    let direct := eepromWriteDirectEntry cached address
    if direct.2 = .unset then
      if address < feeByteRange then eepromWriteLogByteEntry cfg direct.1 address
      else eepromWriteLogWordEntry cfg direct.1 (address &&& 0xFFFE)
    else direct

/-- The fall-back of `EEPROM_WriteDataWord` for word addresses below
`FEE_BYTE_RANGE`: one byte entry for each byte that changed. -/
def eepromWriteChangedBytes (s : Emulation) (address oldValue dataWord : HalfWord) :
    Emulation × FlashStatus :=
  let low :=
    if oldValue.setWidth 8 ≠ dataWord.setWidth 8 then eepromWriteLogByteEntry cfg s address
    else (s, .complete)
  let high :=
    if oldValue >>> 8 ≠ dataWord >>> 8 then eepromWriteLogByteEntry cfg low.1 (address + 1)
    else (low.1, .complete)
  (high.1, if high.2 = .complete then low.2 else high.2)

/-- `EEPROM_WriteDataWord` -/
def eepromWriteDataWord (s : Emulation) (address dataWord : HalfWord) : Emulation × FlashStatus :=
  if cfg.densityBytes ≤ address.toNat then (s, .badAddress)
  else if address.toNat % 2 = 1 then
    let low := eepromWriteDataByte cfg s address (dataWord.setWidth 8)
    let high := eepromWriteDataByte cfg low.1 (address + 1) ((dataWord >>> 8).setWidth 8)
    (high.1, if high.2 = .complete then low.2 else high.2)
  else
    let oldValue := s.dataBuf.word address.toNat
    if oldValue = dataWord then (s, .unset)
    else
      let cached := { s with dataBuf := s.dataBuf.setWord address.toNat dataWord }
      let direct := eepromWriteDirectEntry cached address
      if direct.2 = .unset then
        if address < feeByteRange then
          eepromWriteChangedBytes cfg direct.1 address oldValue dataWord
        else eepromWriteLogWordEntry cfg direct.1 address
      else direct

/-- `EEPROM_ReadDataByte` -/
def eepromReadDataByte (s : Emulation) (address : HalfWord) : Byte :=
  if address.toNat < cfg.densityBytes then s.dataBuf address.toNat else 0xFF

end Operations

/-- What drives the emulation: the two writers and a restart. -/
inductive Call where
  | writeDataByte (address : HalfWord) (dataByte : Byte)
  | writeDataWord (address dataWord : HalfWord)
  | init
  deriving DecidableEq, Repr

def Call.exec (cfg : Config) (s : Emulation) : Call → Emulation
  | .writeDataByte address dataByte => (eepromWriteDataByte cfg s address dataByte).1
  | .writeDataWord address dataWord => (eepromWriteDataWord cfg s address dataWord).1
  | .init => (eepromInit cfg s).1

/-- Power on with the given flash contents: the variables are zeroed, then the
driver calls `EEPROM_Init`. -/
def powerOn (cfg : Config) (cells : Cells) : Emulation := (eepromInit cfg { flash := { cells } }).1

def erasedCells : Cells := fun _ => feeEmptyWord

end QmkSonix.Eeprom
