import QmkSonix.Lib.Traced

/-! The packets of OpenRGB: `raw_hid_receive` of `openrgb.c`, with every byte of the packet,
of `raw_hid_buffer` and of the colour table that it touches. -/

namespace QmkSonix.OpenRgb

open QmkSonix.Lib

def rawEpsize : ℕ := 64
def openrgbProtocolVersion : BitVec 8 := 0x0D
def openrgbFailure : BitVec 8 := 25
def openrgbSuccess : BitVec 8 := 50
def openrgbEndOfMessage : BitVec 8 := 100
def kcNo : BitVec 8 := 0

/-- `enum openrgb_command_id` -/
inductive CommandId where
  | getProtocolVersion | getQmkVersion | getDeviceInfo | getModeInfo | getLedInfo
  | getEnabledModes | setMode | directModeSetSingleLed | directModeSetLeds
  /-- A byte that no case of `raw_hid_receive` is for. -/
  | unknown
  deriving DecidableEq

/-- The case that `raw_hid_receive` takes for a command byte. -/
def commandId (byte : BitVec 8) : CommandId :=
  if byte = 1 then .getProtocolVersion
  else if byte = 2 then .getQmkVersion
  else if byte = 3 then .getDeviceInfo
  else if byte = 4 then .getModeInfo
  else if byte = 5 then .getLedInfo
  else if byte = 6 then .getEnabledModes
  else if byte = 7 then .setMode
  else if byte = 8 then .directModeSetSingleLed
  else if byte = 9 then .directModeSetLeds
  else .unknown

structure Rgb where
  r : BitVec 8
  g : BitVec 8
  b : BitVec 8

structure Hsv where
  h : BitVec 8
  s : BitVec 8
  v : BitVec 8

/-- `led_config_t`, and what else a keyboard is built with. -/
structure Config where
  matrixRows : ℕ
  matrixCols : ℕ
  /-- `DRIVER_LED_TOTAL` -/
  driverLedTotal : ℕ
  /-- `g_led_config.point` -/
  point : ℕ → BitVec 8 × BitVec 8
  /-- `g_led_config.flags` -/
  flags : ℕ → BitVec 8
  /-- `g_led_config.matrix_co` -/
  matrixCo : ℕ → ℕ → BitVec 8
  keymaps : ℕ → ℕ → ℕ → BitVec 16
  /-- `OPENRGB_DIRECT_MODE_UNBUFFERED` -/
  unbuffered : Bool
  /-- The effects that are built in, by their numbers in `openrgb_rgb_matrix_effects_indexes`. -/
  enabled : ℕ → Bool
  /-- `RGB_MATRIX_EFFECT_MAX` -/
  rgbMatrixEffectMax : ℕ
  /-- `RGB_MATRIX_OPENRGB_DIRECT` -/
  rgbMatrixOpenrgbDirect : BitVec 8
  /-- The strings, up to their zero bytes. -/
  qmkVersion : List (BitVec 8)
  product : List (BitVec 8)
  manufacturer : List (BitVec 8)

/-- What OpenRGB reads from the RGB matrix and does to it. -/
structure Firmware (World : Type) where
  rgbMatrixGetHsv : World → Hsv
  rgbMatrixGetMode : World → BitVec 8
  rgbMatrixGetSpeed : World → BitVec 8
  rgbMatrixMode : BitVec 8 → World → World
  rgbMatrixSetSpeed : BitVec 8 → World → World
  rgbMatrixSethsv : Hsv → World → World
  rgbMatrixModeNoeeprom : BitVec 8 → World → World
  rgbMatrixSetSpeedNoeeprom : BitVec 8 → World → World
  rgbMatrixSethsvNoeeprom : Hsv → World → World
  rgbMatrixSetColor : ℕ → Rgb → World → World
  /-- `raw_hid_send` -/
  rawHidSend : List (BitVec 8) → World → World

/-- The memory from `raw_hid_buffer` and from the colour table on, and the rest of the
firmware. -/
structure Device (World : Type) where
  rawHidBuffer : ℕ → BitVec 8
  /-- `g_openrgb_direct_mode_colors` -/
  directModeColors : ℕ → Rgb
  world : World

inductive Access where
  /-- A byte of the packet. -/
  | packet (index : ℕ)
  /-- A byte of `raw_hid_buffer`. -/
  | buffer (index : ℕ)
  /-- An entry of the colour table. -/
  | colour (index : ℕ)
  deriving DecidableEq

abbrev OpenRgb (World Value : Type) := Traced (Device World) Access Value

section Primitives

variable {World Value : Type}

/-- `data[index]` -/
def readData (data : ℕ → BitVec 8) (index : ℕ) : OpenRgb World (BitVec 8) := fun device =>
  (data index, device, [.packet index])

/-- `raw_hid_buffer[index] = value` -/
def writeBuffer (index : ℕ) (value : BitVec 8) : OpenRgb World Unit := fun device =>
  ((), { device with rawHidBuffer := Function.update device.rawHidBuffer index value },
    [.buffer index])

/-- `g_openrgb_direct_mode_colors[index]` -/
def readColour (index : ℕ) : OpenRgb World Rgb := fun device =>
  (device.directModeColors index, device, [.colour index])

/-- `g_openrgb_direct_mode_colors[index] = colour` -/
def writeColour (index : ℕ) (colour : Rgb) : OpenRgb World Unit := fun device =>
  ((), { device with directModeColors := Function.update device.directModeColors index colour },
    [.colour index])

/-- Read something from the rest of the firmware. -/
def ask (reads : World → Value) : OpenRgb World Value := fun device =>
  (reads device.world, device, [])

/-- Do something to the rest of the firmware. -/
def change (does : World → World) : OpenRgb World Unit := fun device =>
  ((), { device with world := does device.world }, [])

/-- Write a string from `current_byte` on, as long as that is below a limit, and return
`current_byte` behind it. -/
def writeString (limit : ℕ) : ℕ → List (BitVec 8) → OpenRgb World ℕ
  | currentByte, [] => pure currentByte
  | currentByte, char :: rest =>
    if currentByte < limit then do
      writeBuffer currentByte char
      writeString limit (currentByte + 1) rest
    else pure currentByte

end Primitives

section Functions

variable {World : Type} (config : Config) (fw : Firmware World) (data : ℕ → BitVec 8)

/-- `openrgb_rgb_matrix_effects_indexes` -/
def effectsIndexes : List ℕ := 1 :: (List.range' 2 40).filter config.enabled

def openrgbGetProtocolVersion : OpenRgb World Unit := do
  writeBuffer 0 1
  writeBuffer 1 openrgbProtocolVersion

def openrgbGetQmkVersion : OpenRgb World Unit := do
  writeBuffer 0 2
  let _ ← writeString (rawEpsize - 2) 1 config.qmkVersion
  pure ()

def openrgbGetDeviceInfo : OpenRgb World Unit := do
  writeBuffer 0 3
  writeBuffer 1 (BitVec.ofNat 8 config.driverLedTotal)
  writeBuffer 2 (BitVec.ofNat 8 (config.matrixCols * config.matrixRows))
  let currentByte ← writeString ((rawEpsize - 2) / 2) 3 config.product
  writeBuffer currentByte 0
  let _ ← writeString (rawEpsize - 2) (currentByte + 1) config.manufacturer
  pure ()

def openrgbGetModeInfo : OpenRgb World Unit := do
  let hsvColor ← ask fw.rgbMatrixGetHsv
  writeBuffer 0 4
  let mode ← ask fw.rgbMatrixGetMode
  writeBuffer 1 mode
  let speed ← ask fw.rgbMatrixGetSpeed
  writeBuffer 2 speed
  writeBuffer 3 hsvColor.h
  writeBuffer 4 hsvColor.s
  writeBuffer 5 hsvColor.v

/-- The first place of the matrix that a LED is at. -/
def findLed (ledIdx : BitVec 8) : Option (ℕ × ℕ) :=
  (List.range config.matrixRows).findSome? fun row =>
    ((List.range config.matrixCols).find? fun col => config.matrixCo row col = ledIdx).map
      fun col => (row, col)

/-- The keycode at that place, which is read as a byte. -/
def ledKeycode (ledIdx : BitVec 8) : BitVec 8 :=
  match findLed config ledIdx with
  | none => kcNo
  | some (row, col) => (config.keymaps 0 row col).setWidth 8

/-- The body of the loop of `openrgb_get_led_info`. -/
def ledInfo (firstLed : BitVec 8) (i : ℕ) : OpenRgb World Unit := do
  let ledIdx := firstLed + BitVec.ofNat 8 i
  let dataIdx := i * 7 % 256
  if config.driverLedTotal ≤ ledIdx.toNat then writeBuffer (dataIdx + 3) openrgbFailure
  else do
    writeBuffer (dataIdx + 1) (config.point ledIdx.toNat).1
    writeBuffer (dataIdx + 2) (config.point ledIdx.toNat).2
    writeBuffer (dataIdx + 3) (config.flags ledIdx.toNat)
    if config.unbuffered then do
      writeBuffer (dataIdx + 4) 0
      writeBuffer (dataIdx + 5) 0
      writeBuffer (dataIdx + 6) 0
    else do
      let colour ← readColour ledIdx.toNat
      writeBuffer (dataIdx + 4) colour.r
      writeBuffer (dataIdx + 5) colour.g
      writeBuffer (dataIdx + 6) colour.b
  writeBuffer (dataIdx + 7) (ledKeycode config ledIdx)

def openrgbGetLedInfo : OpenRgb World Unit := do
  let firstLed ← readData data 1
  let numberLeds ← readData data 2
  writeBuffer 0 5
  Traced.forEach (List.range numberLeds.toNat) (ledInfo config firstLed)

def openrgbGetEnabledModes : OpenRgb World Unit := do
  writeBuffer 0 6
  let effects := effectsIndexes config
  Traced.forEach (List.range effects.length) fun i =>
    writeBuffer (i + 1) (BitVec.ofNat 8 (effects.getD i 0))
  writeBuffer (effects.length + 1) config.rgbMatrixOpenrgbDirect

def openrgbSetMode : OpenRgb World Unit := do
  let h ← readData data 1
  let s ← readData data 2
  let v ← readData data 3
  let mode ← readData data 4
  let speed ← readData data 5
  let save ← readData data 6
  writeBuffer 0 7
  -- the other values are bytes, and no byte is above 255
  if config.rgbMatrixEffectMax ≤ mode.toNat then writeBuffer (rawEpsize - 2) openrgbFailure
  else do
    if save = 1 then do
      change (fw.rgbMatrixMode mode)
      change (fw.rgbMatrixSetSpeed speed)
      change (fw.rgbMatrixSethsv ⟨h, s, v⟩)
    else do
      change (fw.rgbMatrixModeNoeeprom mode)
      change (fw.rgbMatrixSetSpeedNoeeprom speed)
      change (fw.rgbMatrixSethsvNoeeprom ⟨h, s, v⟩)
    writeBuffer (rawEpsize - 2) openrgbSuccess

def openrgbDirectModeSetSingleLed : OpenRgb World Unit := do
  let led ← readData data 1
  let r ← readData data 2
  let g ← readData data 3
  let b ← readData data 4
  writeBuffer 0 8
  if config.driverLedTotal ≤ led.toNat then writeBuffer (rawEpsize - 2) openrgbFailure
  else do
    if config.unbuffered then change (fw.rgbMatrixSetColor led.toNat ⟨r, g, b⟩)
    else writeColour led.toNat ⟨r, g, b⟩
    writeBuffer (rawEpsize - 2) openrgbSuccess

/-- The body of the loop of `openrgb_direct_mode_set_leds`. -/
def setLed (i : ℕ) : OpenRgb World Unit :=
  if config.unbuffered then do
    let led ← readData data (i * 4 + 2)
    let r ← readData data (i * 4 + 3)
    let g ← readData data (i * 4 + 4)
    let b ← readData data (i * 4 + 5)
    change (fw.rgbMatrixSetColor led.toNat ⟨r, g, b⟩)
  else do
    let dataIdx := i * 4 % 256
    let colorIdx ← readData data (dataIdx + 2)
    let r ← readData data (dataIdx + 3)
    let g ← readData data (dataIdx + 4)
    let b ← readData data (dataIdx + 5)
    writeColour colorIdx.toNat ⟨r, g, b⟩

def openrgbDirectModeSetLeds : OpenRgb World Unit := do
  let numberLeds ← readData data 1
  Traced.forEach (List.range numberLeds.toNat) (setLed config fw data)

/-- `raw_hid_send(raw_hid_buffer, RAW_EPSIZE)` -/
def sendBuffer : OpenRgb World Unit := fun device =>
  let sent := (List.range rawEpsize).map device.rawHidBuffer
  ((), { device with world := fw.rawHidSend sent device.world },
    (List.range rawEpsize).map .buffer)

/-- What `raw_hid_receive` does after all commands but one. -/
def answer : OpenRgb World Unit := do
  writeBuffer (rawEpsize - 1) openrgbEndOfMessage
  sendBuffer fw
  Traced.forEach (List.range rawEpsize) fun i => writeBuffer i 0

/-- The `switch` of `raw_hid_receive`. -/
def perform : CommandId → OpenRgb World Unit
  | .getProtocolVersion => openrgbGetProtocolVersion
  | .getQmkVersion => openrgbGetQmkVersion config
  | .getDeviceInfo => openrgbGetDeviceInfo config
  | .getModeInfo => openrgbGetModeInfo fw
  | .getLedInfo => openrgbGetLedInfo config data
  | .getEnabledModes => openrgbGetEnabledModes config
  | .setMode => openrgbSetMode config fw data
  | .directModeSetSingleLed => do
    openrgbDirectModeSetSingleLed config fw data
    change (fw.rgbMatrixMode config.rgbMatrixOpenrgbDirect)
  | .directModeSetLeds => do
    openrgbDirectModeSetLeds config fw data
    change (fw.rgbMatrixMode config.rgbMatrixOpenrgbDirect)
  | .unknown => pure ()

/-- `raw_hid_receive` -/
def rawHidReceive : OpenRgb World Unit := do
  let command ← readData data 0
  perform config fw data (commandId command)
  let again ← readData data 0
  if commandId again = .directModeSetLeds then pure () else answer fw

end Functions

end QmkSonix.OpenRgb
