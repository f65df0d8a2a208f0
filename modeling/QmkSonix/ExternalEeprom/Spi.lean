import QmkSonix.ExternalEeprom.Address

/-! `eeprom_spi.c`: blocks are written page by page, each page behind a poll of the chip
with a deadline on the 32-bit millisecond timer. -/

namespace QmkSonix.ExternalEeprom.Spi

open QmkSonix.Lib

/-- A chip, and the macros that describe it. -/
structure Config where
  /-- `EXTERNAL_EEPROM_BYTE_COUNT` -/
  byteCount : ℕ
  /-- `EXTERNAL_EEPROM_PAGE_SIZE` -/
  pageSize : ℕ
  /-- `EXTERNAL_EEPROM_ADDRESS_SIZE` -/
  addressSize : ℕ
  /-- `EXTERNAL_EEPROM_SPI_TIMEOUT` -/
  timeout : ℕ := 100
  pageSize_pos : 0 < pageSize
  addressed : byteCount ≤ 256 ^ addressSize

/-- What happens during a poll, in milliseconds since the timer was started: when the
deadline is set, from when on the chip has cleared its bit, and when each round reads the
status and then the timer. -/
structure Poll where
  start : ℕ
  ready : ℕ
  status : ℕ → ℕ
  clock : ℕ → ℕ
  starts : start ≤ status 0
  reads : ∀ i, status i ≤ clock i
  next : ∀ i, clock i ≤ status (i + 1)
  passes : ∀ time, ∃ i, time ≤ status i

/-- The results of the calls of `spi_start` and the polls, in order. -/
structure Bus where
  spiStart : ℕ → Bool
  poll : ℕ → Poll

/-- A chip that can take commands: its bytes and its write enable latch. -/
structure Chip where
  memory : Memory
  writeEnabled : Bool

/-- The chip, and how many calls of `spi_start` and polls there have been. -/
structure World where
  chip : Chip
  started : ℕ := 0
  polled : ℕ := 0

/-- `spi_status_t`, as far as the driver looks at it -/
inductive SpiStatus where
  | success
  | timeout
  deriving DecidableEq, Repr

/-- The `uint16_t` length of `spi_transmit` and `spi_receive` -/
def spiLength (length : ℕ) : ℕ := length % 2 ^ 16

variable (cfg : Config)

/-- `CMD_WREN` -/
def Chip.wren (chip : Chip) : Chip := { chip with writeEnabled := true }

/-- `CMD_WRDI` -/
def Chip.wrdi (chip : Chip) : Chip := { chip with writeEnabled := false }

/-- `CMD_WRITE`, which wraps inside the page and closes the latch behind it -/
def Chip.write (chip : Chip) (address : List Byte) (len : ℕ) (values : Memory) : Chip :=
  if chip.writeEnabled then
    { memory := writePage cfg.pageSize chip.memory (ofAddressBytes address) len values
      writeEnabled := false }
  else chip

/-- `CMD_READ` -/
def Chip.read (chip : Chip) (address : List Byte) : Memory :=
  fun i => chip.memory (ofAddressBytes address + i)

/-- `spi_eeprom_start` -/
def World.spiStart (w : World) (bus : Bus) : Bool × World :=
  (bus.spiStart w.started, { w with started := w.started + 1 })

/-- Round `i` of a poll reads the timer before the deadline. -/
def Poll.before (poll : Poll) (i : ℕ) : Bool :=
  let deadline := BitVec.ofNat 32 poll.start + BitVec.ofNat 32 cfg.timeout
  BitVec.ofNat 32 (poll.clock i) < deadline

/-- The rounds of `spi_eeprom_wait_while_busy` from round `i` on, at most as many as the
first argument says. -/
def waitRounds (poll : Poll) : ℕ → ℕ → Option SpiStatus
  | 0, _ => none
  | rounds + 1, i =>
    if !poll.before cfg i then some .timeout
    else if poll.status i < poll.ready then waitRounds poll rounds (i + 1)
    else some .success

/-- `spi_eeprom_wait_while_busy` -/
def waitWhileBusy (poll : Poll) (rounds : ℕ) : Option SpiStatus := waitRounds cfg poll rounds 0

/-- `spi_eeprom_transmit_address`, over what the stack has left in the buffer -/
def transmitAddress (addr : ℕ) (buffer : Memory) : List Byte :=
  (List.range cfg.addressSize).map (fillAddress cfg.addressSize buffer addr)

/-- The part of a round that writes a page: one start for the write enable latch and one
for the write. It tells whether both have started. -/
def writePiece (bus : Bus) (w : World) (buffer readBuf : Memory) (targetAddr writeLength : ℕ) :
    World × Bool :=
  let (res, w) := w.spiStart bus
  if !res then (w, false)
  else
    let w := { w with chip := w.chip.wren }
    let (res, w) := w.spiStart bus
    if !res then (w, false)
    else
      let address := transmitAddress cfg targetAddr buffer
      ({ w with chip := w.chip.write cfg address (spiLength writeLength) readBuf }, true)

/-- The start of a round: a poll of the chip. Its callers give up in the same way where the
bus does not start and where the poll times out. -/
def pollChip (bus : Bus) (w : World) (rounds : ℕ) : Option (World × SpiStatus) :=
  let (res, w) := w.spiStart bus
  if !res then some (w, .timeout)
  else (waitWhileBusy cfg (bus.poll w.polled) rounds).map fun response =>
    ({ w with polled := w.polled + 1 }, response)

/-- The loop of `eeprom_write_block`, with whether it has come to its end. Its first
argument bounds the rounds of both loops. -/
def writePages (bus : Bus) (buffer : Memory) :
    ℕ → World → (readBuf : Memory) → (targetAddr len : ℕ) → Option (World × Bool)
  | 0, _, _, _, _ => none
  | rounds + 1, w, readBuf, targetAddr, len =>
    if len = 0 then some (w, true)
    else
      let pageOffset := targetAddr % cfg.pageSize
      let writeLength := min (cfg.pageSize - pageOffset) len
      match pollChip cfg bus w rounds with
      | none => none
      | some (w, .timeout) => some (w, false)
      | some (w, .success) =>
        match writePiece cfg bus w buffer readBuf targetAddr writeLength with
        | (w, false) => some (w, false)
        | (w, true) =>
          writePages bus buffer rounds w (fun i => readBuf (i + writeLength))
            (targetAddr + writeLength) (len - writeLength)

/-- `eeprom_write_block` -/
def eepromWriteBlock (bus : Bus) (buffer : Memory) (rounds : ℕ) (w : World) (buf : Memory)
    (addr len : ℕ) : Option World :=
  match writePages cfg bus buffer rounds w buf addr len with
  | none => none
  | some (w, false) => some w
  | some (w, true) =>
    let (res, w) := w.spiStart bus
    if !res then some w else some { w with chip := w.chip.wrdi }

/-- `eeprom_read_block`, with what it leaves in the buffer of the caller -/
def eepromReadBlock (bus : Bus) (buffer : Memory) (rounds : ℕ) (w : World) (buf : Memory)
    (addr len : ℕ) : Option (World × Memory) :=
  match pollChip cfg bus w rounds with
  | none => none
  | some (w, .timeout) => some (w, splice buf 0 len fun _ => 0)
  | some (w, .success) =>
    let (res, w) := w.spiStart bus
    if !res then some (w, splice buf 0 len fun _ => 0)
    else some (w, splice buf 0 (spiLength len) (w.chip.read (transmitAddress cfg addr buffer)))

end QmkSonix.ExternalEeprom.Spi
