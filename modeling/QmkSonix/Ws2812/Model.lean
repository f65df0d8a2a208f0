import Mathlib
import QmkSonix.Lib.Overlay
import QmkSonix.Lib.Rounds

/-! The SPI driver for WS2812 LEDs, `ws2812_spi.c`: every bit of a colour becomes a symbol of four
bits in the buffer that is sent. -/

namespace QmkSonix.Ws2812

open QmkSonix.Lib

/-- `WS2812_BYTE_ORDER` -/
inductive ByteOrder where
  | rgb
  | grb
  | bgr
  deriving DecidableEq, Repr

structure Build where
  rgbledNum : ℕ
  byteOrder : ByteOrder := .grb
  /-- `RGBW` -/
  rgbw : Bool := false
  /-- `WS2812_TRST_US` -/
  trstUs : ℕ := 280
  /-- `WS2812_TIMING` -/
  timing : ℕ := 1250

/-- `LED_TYPE`; only an RGBW build has `w`. -/
structure LedType where
  r : BitVec 8
  g : BitVec 8
  b : BitVec 8
  w : BitVec 8 := 0
  deriving DecidableEq, Repr

/-- `txbuf` -/
abbrev Txbuf := ℕ → BitVec 8

def bytesForLedByte : ℕ := 4

def preambleSize : ℕ := 4

section Driver

variable (build : Build)

/-- `WS2812_CHANNELS` -/
def Build.channels : ℕ := if build.rgbw then 4 else 3

/-- `BYTES_FOR_LED` -/
def Build.bytesForLed : ℕ := bytesForLedByte * build.channels

/-- `DATA_SIZE` -/
def Build.dataSize : ℕ := build.bytesForLed * build.rgbledNum

/-- `RESET_SIZE` -/
def Build.resetSize : ℕ := 1000 * build.trstUs / (2 * build.timing)

/-- `get_protocol_eq` -/
def getProtocolEq (data : BitVec 8) (pos : ℕ) : BitVec 8 :=
  let eq : BitVec 8 := if data &&& (1#8 <<< (2 * (3 - pos))) ≠ 0 then 0b1110 else 0b1000
  if data &&& (2#8 <<< (2 * (3 - pos))) ≠ 0 then eq + 0b11100000 else eq + 0b10000000

/-- The four assignments for a byte of a colour -/
def setByte (start : ℕ) (data : BitVec 8) (txbuf : Txbuf) : Txbuf :=
  overlay ((List.range 4).map fun j => (start + j, getProtocolEq data j)) txbuf

/-- The colours but for white, in the byte order -/
def ByteOrder.arrange (color : LedType) : ByteOrder → BitVec 8 × BitVec 8 × BitVec 8
  | .grb => (color.g, color.r, color.b)
  | .rgb => (color.r, color.g, color.b)
  | .bgr => (color.b, color.g, color.r)

/-- `set_led_color_rgb` -/
def setLedColorRgb (color : LedType) (pos : ℕ) (txbuf : Txbuf) : Txbuf :=
  let start := preambleSize + build.bytesForLed * pos
  let (first, second, third) := build.byteOrder.arrange color
  let colored := setByte (start + bytesForLedByte * 2) third
    (setByte (start + bytesForLedByte) second (setByte start first txbuf))
  if build.rgbw then setByte (start + bytesForLedByte * 4) color.w colored else colored

/-- A call of `ws2812_setleds` -/
structure Call where
  ledarray : ℕ → LedType
  leds : BitVec 16
  bounded : leds.toNat ≤ build.rgbledNum

variable {build}

/-- A round of the loop of `ws2812_setleds`, with its `uint8_t` counter -/
def Call.round (call : Call build) : BitVec 8 × Txbuf → Round (BitVec 8 × Txbuf) Empty Txbuf
  | (i, txbuf) =>
    if i.toNat < call.leds.toNat then
      ⟨[], .again (i + 1, setLedColorRgb build (call.ledarray i.toNat) i.toNat txbuf)⟩
    else ⟨[], .leave txbuf⟩

/-- `ws2812_setleds`, for a number of rounds -/
def ws2812Setleds (txbuf : Txbuf) (call : Call build) (rounds : ℕ) : Option Txbuf :=
  (loop call.round rounds (0, txbuf)).map Prod.snd

end Driver

/-! ### What the LEDs read -/

section Reading

/-- The symbol of a bit -/
def readSymbol (symbol : BitVec 4) : Option Bool :=
  if symbol = 0b1000 then some false else if symbol = 0b1110 then some true else none

/-- The two symbols of a byte of the buffer, the high one first -/
def symbols (byte : BitVec 8) : List (BitVec 4) := [(byte >>> 4).setWidth 4, byte.setWidth 4]

/-- A byte of a colour from the eight symbols behind an address, the most significant bit first -/
def readByte (txbuf : Txbuf) (start : ℕ) : Option (BitVec 8) :=
  ((List.range 4).flatMap fun j => symbols (txbuf (start + j))).foldlM
    (fun data symbol => (readSymbol symbol).map fun bit => data <<< 1 ||| (BitVec.ofBool bit).setWidth 8) 0

variable (build : Build)

/-- The bytes of a colour, in the order in which an LED takes them -/
def Build.inOrder (color : LedType) : List (BitVec 8) :=
  let (first, second, third) := build.byteOrder.arrange color
  if build.rgbw then [first, second, third, color.w] else [first, second, third]

/-- Where a byte of an LED starts -/
def Build.start (i c : ℕ) : ℕ := preambleSize + build.bytesForLed * i + bytesForLedByte * c

variable {build}

/-- What a call leaves in the buffer: its LEDs read their colours, the others what they have read
before, and then there is a pause. -/
structure Shows (before : Txbuf) (call : Call build) (after : Txbuf) : Prop where
  decoded : ∀ i < call.leds.toNat,
    (List.range build.channels).map (fun c => readByte after (build.start i c)) =
      (build.inOrder (call.ledarray i)).map some
  kept : ∀ i, call.leds.toNat ≤ i → i < build.rgbledNum → ∀ j < build.bytesForLed,
    after (build.start i 0 + j) = before (build.start i 0 + j)
  reset : ∀ j < build.resetSize, after (preambleSize + build.dataSize + j) = 0

/-- Every call of a run ends and shows its colours. -/
def Decodes : Txbuf → List (Call build) → Prop
  | _, [] => True
  | txbuf, call :: rest => ∃ rounds after,
    ws2812Setleds txbuf call rounds = some after ∧ Shows txbuf call after ∧ Decodes after rest

/-- The counter reaches the end, and there is no white. -/
def Fits (call : Call build) : Prop :=
  if build.rgbw then call.leds = 0 else call.leds.toNat < 256

instance (call : Call build) : Decidable (Fits call) :=
  inferInstanceAs (Decidable (if build.rgbw then call.leds = 0 else call.leds.toNat < 256))

end Reading

end QmkSonix.Ws2812
