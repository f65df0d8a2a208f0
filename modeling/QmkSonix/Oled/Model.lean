import QmkSonix.Lib.Traced

/-! `ssd1306_sh1106.c`: the buffer that is drawn into, with every byte of it that a call touches,
and the blocks that are sent to the display. The display is initialised, `oled_rotation_width`
follows from the rotation, and the timeouts are left out. -/

namespace QmkSonix.Oled

open QmkSonix.Lib

structure Config where
  /-- `OLED_DISPLAY_WIDTH` and `OLED_DISPLAY_HEIGHT` -/
  displayWidth : ℕ
  displayHeight : ℕ
  /-- `OLED_FONT_WIDTH`, `OLED_FONT_START`, `OLED_FONT_END` and the font -/
  fontWidth : ℕ
  fontStart : BitVec 8
  fontEnd : BitVec 8
  font : ℕ → BitVec 8
  /-- The bits of an `OLED_BLOCK_TYPE`, `OLED_BLOCK_COUNT` and `OLED_BLOCK_SIZE` -/
  blockBits : ℕ
  blockCount : ℕ
  blockSize : ℕ
  /-- `OLED_SOURCE_MAP` and `OLED_TARGET_MAP` -/
  sourceMap : List ℕ
  targetMap : List ℕ
  /-- `HAS_FLAGS(oled_rotation, OLED_ROTATION_90)` -/
  rotation90 : Bool
  width_pos : 0 < displayWidth
  width_lt : displayWidth < 256
  height_ge : 8 ≤ displayHeight
  height_lt : displayHeight < 256
  font_pos : 0 < fontWidth

/-- `OLED_MATRIX_SIZE` -/
def Config.matrixSize (cfg : Config) : ℕ := cfg.displayHeight / 8 * cfg.displayWidth

/-- `oled_rotation_width` -/
def Config.rotationWidth (cfg : Config) : ℕ :=
  if cfg.rotation90 then cfg.displayHeight else cfg.displayWidth

/-- `OLED_ALL_BLOCKS_MASK` -/
def Config.allBlocks (cfg : Config) : BitVec cfg.blockBits :=
  ((BitVec.ofNat _ 1 <<< (cfg.blockCount - 1)) - 1) <<< 1 ||| BitVec.ofNat _ 1

structure State (cfg : Config) where
  buffer : ℕ → BitVec 8 := fun _ => 0
  /-- `oled_cursor - &oled_buffer[0]` -/
  cursor : ℕ := 0
  dirty : BitVec cfg.blockBits := cfg.allBlocks
  active : Bool := true
  scrolling : Bool := false

/-- A part of the driver, with the indices at which it accesses `oled_buffer` -/
abbrev Oled (cfg : Config) (Value : Type) := Traced (State cfg) ℕ Value

section Primitives

variable {cfg : Config}

/-- `oled_buffer[index]` -/
def load (index : ℕ) : Oled cfg (BitVec 8) := fun state => (state.buffer index, state, [index])

def store (index : ℕ) (data : BitVec 8) : Oled cfg Unit := fun state =>
  ((), { state with buffer := Function.update state.buffer index data }, [index])

def getCursor : Oled cfg ℕ := fun state => (state.cursor, state, [])

/-- `oled_cursor = &oled_buffer[index]` -/
def setCursor (index : ℕ) : Oled cfg Unit := fun state => ((), { state with cursor := index }, [])

/-- `oled_dirty |= ((OLED_BLOCK_TYPE)1 << block)` -/
def markDirty (block : ℕ) : Oled cfg Unit := fun state =>
  ((), { state with dirty := state.dirty ||| BitVec.ofNat _ 1 <<< block }, [])

/-- `oled_dirty = OLED_ALL_BLOCKS_MASK` -/
def markAll : Oled cfg Unit := fun state => ((), { state with dirty := cfg.allBlocks }, [])

/-- `memcpy` and `memcmp` of some bytes of the buffer -/
def loadBytes (start count : ℕ) : Oled cfg (List (BitVec 8)) := fun state =>
  ((List.range' start count).map state.buffer, state, List.range' start count)

/-- `memcpy` and `memset` to some bytes of the buffer -/
def storeBytes (start : ℕ) (bytes : List (BitVec 8)) : Oled cfg Unit :=
  Traced.forEach (List.range bytes.length) fun i => store (start + i) (bytes.getD i 0)

end Primitives

variable (cfg : Config)

/-- `InvertCharacter` -/
def invertCharacter (cursor : ℕ) : Oled cfg Unit :=
  Traced.forEach (List.range' cursor cfg.fontWidth) fun i => do
    let data ← load i
    store i (~~~data)

/-- An index out of bounds becomes the start of the buffer. -/
def orStart (index : ℕ) : ℕ := if cfg.matrixSize ≤ index then 0 else index

def oledSetCursor (col line : BitVec 8) : Oled cfg Unit :=
  setCursor (orStart cfg ((line.toNat * cfg.rotationWidth + col.toNat * cfg.fontWidth) % 65536))

/-- Where `oled_advance_char` moves the cursor to -/
def nextChar (cursor : ℕ) : ℕ :=
  let nextIndex := (cursor + cfg.fontWidth) % 65536
  let remainingSpace := cfg.rotationWidth - nextIndex % cfg.rotationWidth
  orStart cfg
    (if remainingSpace < cfg.fontWidth then (nextIndex + remainingSpace) % 65536 else nextIndex)

def oledAdvanceChar : Oled cfg Unit := do
  let cursor ← getCursor
  setCursor (nextChar cfg cursor)

/-- The bytes of a character -/
def glyph (data : BitVec 8) : List (BitVec 8) :=
  (List.range cfg.fontWidth).map fun i =>
    if data < cfg.fontStart || cfg.fontEnd < data then 0
    else cfg.font ((data - cfg.fontStart).toNat * cfg.fontWidth + i)

/-- The part of `oled_write_char` behind `if (invert)` -/
def invertIf (invert : Bool) (cursor : ℕ) : Oled cfg Unit :=
  if invert then invertCharacter cfg cursor else pure ()

/-- The dirty check of `oled_write_char`. What is written may span two blocks. -/
def dirtyCheck (index : ℕ) (tempBuffer written : List (BitVec 8)) : Oled cfg Unit :=
  if tempBuffer ≠ written then do
    markDirty (index / cfg.blockSize)
    markDirty ((index + cfg.fontWidth - 1) / cfg.blockSize)
  else pure ()

/-- `oled_write_char` for what is not a line break -/
def writeGlyph (data : BitVec 8) (invert : Bool) : Oled cfg Unit := do
  let index ← getCursor
  let tempBuffer ← loadBytes index cfg.fontWidth
  storeBytes index (glyph cfg data)
  invertIf cfg invert index
  let written ← loadBytes index cfg.fontWidth
  dirtyCheck cfg index tempBuffer written
  oledAdvanceChar cfg

def newline : BitVec 8 := 10

def carriageReturn : BitVec 8 := 13

def space : BitVec 8 := 32

/-- What is left of the line, which `oled_advance_page` counts in bytes -/
def lineRemainder (cursor : ℕ) : ℕ := cfg.rotationWidth - cursor % cfg.rotationWidth

/-- Where `oled_advance_page` moves the cursor to without clearing the line -/
def nextPage (cursor : ℕ) : ℕ := orStart cfg (cursor + lineRemainder cfg cursor)

/-- `while (remaining--) oled_write_char(' ', false)`. The blank is no line break. -/
def writeBlanks : ℕ → Oled cfg Unit
  | 0 => pure ()
  | remaining + 1 => do
    writeGlyph cfg space false
    writeBlanks remaining

def oledAdvancePage (clearPageRemainder : Bool) : Oled cfg Unit := do
  let index ← getCursor
  if clearPageRemainder then writeBlanks cfg (lineRemainder cfg index / cfg.fontWidth)
  else setCursor (nextPage cfg index)

def oledWriteChar (data : BitVec 8) (invert : Bool) : Oled cfg Unit :=
  if data = newline then oledAdvancePage cfg true
  else if data = carriageReturn then oledAdvancePage cfg false
  else writeGlyph cfg data invert

/-- `oled_write`, over the bytes in front of the zero byte -/
def oledWrite (text : List (BitVec 8)) (invert : Bool) : Oled cfg Unit :=
  Traced.forEach text fun data => oledWriteChar cfg data invert

def oledWriteLn (text : List (BitVec 8)) (invert : Bool) : Oled cfg Unit := do
  oledWrite cfg text invert
  oledAdvancePage cfg true

/-- `oled_buffer[i] = oled_buffer[source]` -/
def moveByte (source i : ℕ) : Oled cfg Unit := do
  let data ← load source
  store i data

/-- A row of the display moves to the left or to the right. -/
def panRow (left : Bool) (y : ℕ) : Oled cfg Unit :=
  if left then
    Traced.forEach (List.range (cfg.displayWidth - 1)) fun x =>
      moveByte cfg (y * cfg.displayWidth + x + 1) (y * cfg.displayWidth + x)
  else
    Traced.forEach (List.range' 1 (cfg.displayWidth - 1)).reverse fun x =>
      moveByte cfg (y * cfg.displayWidth + x - 1) (y * cfg.displayWidth + x)

def oledPan (left : Bool) : Oled cfg Unit := do
  Traced.forEach (List.range (cfg.displayHeight / 8)) (panRow cfg left)
  markAll

/-- What the raw writes and the pixels do with a byte: only a new value is written. -/
def putByte (index : ℕ) (data : BitVec 8) : Oled cfg Unit := do
  let old ← load index
  if old = data then pure ()
  else do
    store index data
    markDirty (index / cfg.blockSize)

/-- `oled_write_raw_byte`. A `char` is unsigned. -/
def oledWriteRawByte (data : BitVec 8) (index : BitVec 16) : Oled cfg Unit :=
  putByte cfg (if cfg.matrixSize < index.toNat then cfg.matrixSize else index.toNat) data

def oledWriteRaw (data : ℕ → BitVec 8) (size : BitVec 16) : Oled cfg Unit := do
  let start ← getCursor
  let size :=
    if cfg.matrixSize < size.toNat + start then cfg.matrixSize - start else size.toNat
  Traced.forEach (List.range size) fun i => putByte cfg (start + i) (data i)

def oledWritePixel (x y : BitVec 8) (on : Bool) : Oled cfg Unit :=
  let index := x.toNat + y.toNat / 8 * cfg.rotationWidth
  if cfg.rotationWidth ≤ x.toNat then pure ()
  else if cfg.matrixSize ≤ index then pure ()
  else do
    let data ← load index
    let bit := BitVec.ofNat 8 1 <<< (y.toNat % 8)
    putByte cfg index (if on then data ||| bit else data &&& ~~~bit)

/-- What draws into the buffer -/
inductive Call where
  | setCursor (col line : BitVec 8)
  | advancePage (clearPageRemainder : Bool)
  | advanceChar
  | writeChar (data : BitVec 8) (invert : Bool)
  | write (text : List (BitVec 8)) (invert : Bool)
  | writeLn (text : List (BitVec 8)) (invert : Bool)
  | writeRaw (data : ℕ → BitVec 8) (size : BitVec 16)
  | writeRawByte (data : BitVec 8) (index : BitVec 16)
  | writePixel (x y : BitVec 8) (on : Bool)
  | pan (left : Bool)

def draw : Call → Oled cfg Unit
  | .setCursor col line => oledSetCursor cfg col line
  | .advancePage clearPageRemainder => oledAdvancePage cfg clearPageRemainder
  | .advanceChar => oledAdvanceChar cfg
  | .writeChar data invert => oledWriteChar cfg data invert
  | .write text invert => oledWrite cfg text invert
  | .writeLn text invert => oledWriteLn cfg text invert
  | .writeRaw data size => oledWriteRaw cfg data size
  | .writeRawByte data index => oledWriteRawByte cfg data index
  | .writePixel x y on => oledWritePixel cfg x y on
  | .pan left => oledPan cfg left

end QmkSonix.Oled
