import QmkSonix.Lib.Traced

/-! The packets of the VIA configurator: `raw_hid_receive` of `via.c` and the
functions of `dynamic_keymap.c` behind it. Built without `VIA_EEPROM_ALLOW_RESET`
and with the default `raw_hid_receive_kb`. -/

namespace QmkSonix.Via

open QmkSonix.Lib

/-- `enum via_command_id` -/
inductive CommandId where
  | getProtocolVersion | getKeyboardValue | setKeyboardValue
  | dynamicKeymapGetKeycode | dynamicKeymapSetKeycode | dynamicKeymapReset
  | lightingSetValue | lightingGetValue | lightingSave
  | macroGetCount | macroGetBufferSize | macroGetBuffer | macroSetBuffer | macroReset
  | getLayerCount | getBuffer | setBuffer
  | unhandled
  deriving DecidableEq

/-- The case that `raw_hid_receive` takes for a command byte. -/
def commandId (byte : BitVec 8) : CommandId :=
  if byte = 0x01 then .getProtocolVersion
  else if byte = 0x02 then .getKeyboardValue
  else if byte = 0x03 then .setKeyboardValue
  else if byte = 0x04 then .dynamicKeymapGetKeycode
  else if byte = 0x05 then .dynamicKeymapSetKeycode
  else if byte = 0x06 then .dynamicKeymapReset
  else if byte = 0x07 then .lightingSetValue
  else if byte = 0x08 then .lightingGetValue
  else if byte = 0x09 then .lightingSave
  else if byte = 0x0C then .macroGetCount
  else if byte = 0x0D then .macroGetBufferSize
  else if byte = 0x0E then .macroGetBuffer
  else if byte = 0x0F then .macroSetBuffer
  else if byte = 0x10 then .macroReset
  else if byte = 0x11 then .getLayerCount
  else if byte = 0x12 then .getBuffer
  else if byte = 0x13 then .setBuffer
  else .unhandled

def idUnhandled : BitVec 8 := 0xFF
def viaProtocolVersion : BitVec 16 := 0x0009

/-- `enum via_keyboard_value_id` -/
inductive KeyboardValueId where
  | uptime | layoutOptions | switchMatrixState | other
  deriving DecidableEq

def keyboardValueId (byte : BitVec 8) : KeyboardValueId :=
  if byte = 0x01 then .uptime else if byte = 0x02 then .layoutOptions
  else if byte = 0x03 then .switchMatrixState else .other

/-- `enum via_lighting_value` -/
inductive LightingValue where
  | backlightBrightness | backlightEffect
  | rgblightBrightness | rgblightEffect | rgblightEffectSpeed | rgblightColor
  | other
  deriving DecidableEq

def lightingValue (byte : BitVec 8) : LightingValue :=
  if byte = 0x09 then .backlightBrightness else if byte = 0x0A then .backlightEffect
  else if byte = 0x80 then .rgblightBrightness else if byte = 0x81 then .rgblightEffect
  else if byte = 0x82 then .rgblightEffectSpeed else if byte = 0x83 then .rgblightColor
  else .other

/-- The configuration of a keyboard, with the checks that `dynamic_keymap.c` and
`matrix.h` make of it and the order of the regions in the EEPROM. -/
structure Config where
  matrixRows : ℕ
  matrixCols : ℕ
  /-- `DYNAMIC_KEYMAP_LAYER_COUNT` -/
  layerCount : ℕ
  /-- `DYNAMIC_KEYMAP_MACRO_COUNT` -/
  macroCount : ℕ
  /-- `VIA_EEPROM_MAGIC_ADDR` -/
  magicAddr : ℕ
  /-- `VIA_EEPROM_LAYOUT_OPTIONS_SIZE` -/
  layoutOptionsSize : ℕ
  /-- `DYNAMIC_KEYMAP_EEPROM_ADDR` -/
  keymapAddr : ℕ
  /-- `DYNAMIC_KEYMAP_MACRO_EEPROM_ADDR` -/
  macroAddr : ℕ
  /-- `DYNAMIC_KEYMAP_MACRO_EEPROM_SIZE` -/
  macroSize : ℕ
  /-- The bits of `int` and of a pointer. -/
  wordBits : ℕ
  /-- `keymaps` in flash. -/
  keymaps : ℕ → ℕ → ℕ → BitVec 16
  /-- `VIA_QMK_BACKLIGHT_ENABLE` -/
  backlight : Bool
  /-- `BACKLIGHT_BREATHING` -/
  breathing : Bool
  /-- `BACKLIGHT_LEVELS` -/
  backlightLevels : ℕ
  /-- `VIA_QMK_RGBLIGHT_ENABLE` -/
  rgblight : Bool
  /-- `VIA_CUSTOM_LIGHTING_ENABLE` -/
  customLighting : Bool
  rows_fit : matrixRows ≤ 255
  cols_fit : matrixCols ≤ 32
  words : wordBits = 16 ∨ wordBits = 32
  eeconfig_fits : 12 ≤ magicAddr
  options_fit : magicAddr + 3 + layoutOptionsSize ≤ keymapAddr
  keymap_fits : keymapAddr + layerCount * matrixRows * matrixCols * 2 ≤ macroAddr
  macro_fits : macroAddr + macroSize ≤ 2 ^ 16

/-- `EECONFIG_BACKLIGHT` -/
def eeconfigBacklight : ℕ := 6

/-- `EECONFIG_RGBLIGHT` -/
def eeconfigRgblight : ℕ := 8

/-- What VIA reads from the rest of the firmware and does to it. -/
structure Firmware (World : Type) where
  timerRead32 : World → BitVec 32
  matrixGetRow : World → ℕ → BitVec 32
  getBacklightLevel : World → BitVec 8
  backlightLevelNoeeprom : BitVec 8 → World → World
  isBacklightBreathing : World → Bool
  /-- `backlight_config.breathing = …` -/
  setBreathing : Bool → World → World
  /-- `breathing_enable` and `breathing_disable` -/
  breathingEnable : Bool → World → World
  /-- `backlight_config.raw` -/
  backlightRaw : World → BitVec 8
  rgblightGetVal : World → BitVec 8
  rgblightGetMode : World → BitVec 8
  rgblightGetSpeed : World → BitVec 8
  rgblightGetHue : World → BitVec 8
  rgblightGetSat : World → BitVec 8
  rgblightSethsvNoeeprom : BitVec 8 → BitVec 8 → BitVec 8 → World → World
  rgblightModeNoeeprom : BitVec 8 → World → World
  rgblightDisableNoeeprom : World → World
  rgblightEnableNoeeprom : World → World
  rgblightSetSpeedNoeeprom : BitVec 8 → World → World
  rgblightCheckConfig : World → World
  /-- `rgblight_config.raw` -/
  rgblightRaw : World → BitVec 32

/-- The memory from the packet on, the EEPROM, and the rest of the firmware. -/
structure Device (World : Type) where
  data : ℕ → BitVec 8
  eeprom : ℕ → BitVec 8
  world : World

/-- An access to the packet, by its index, or an update of the EEPROM. -/
inductive Access where
  | packet (index : ℕ)
  | update (address : ℕ)
  deriving DecidableEq

abbrev Via (World Value : Type) := Traced (Device World) Access Value

section Primitives

variable {World Value : Type}

/-- `data[index]` -/
def readData (index : ℕ) : Via World (BitVec 8) := fun device =>
  (device.data index, device, [.packet index])

/-- `data[index] = value` -/
def writeData (index : ℕ) (value : BitVec 8) : Via World Unit := fun device =>
  ((), { device with data := Function.update device.data index value }, [.packet index])

/-- `command_data[index]` -/
def readCommand (index : ℕ) : Via World (BitVec 8) := readData (1 + index)

/-- `command_data[index] = value` -/
def writeCommand (index : ℕ) (value : BitVec 8) : Via World Unit := writeData (1 + index) value

def eepromReadByte (address : ℕ) : Via World (BitVec 8) := fun device =>
  (device.eeprom address, device, [])

def eepromUpdateByte (address : ℕ) (value : BitVec 8) : Via World Unit := fun device =>
  ((), { device with eeprom := Function.update device.eeprom address value }, [.update address])

/-- Read something from the rest of the firmware. -/
def ask (reads : World → Value) : Via World Value := fun device => (reads device.world, device, [])

/-- Do something to the rest of the firmware. -/
def change (does : World → World) : Via World Unit := fun device =>
  ((), { device with world := does device.world }, [])

/-- The byte of a 32-bit value that is `i` places above its least. -/
def byteOf (value : BitVec 32) (i : ℕ) : BitVec 8 := (value >>> (8 * i)).setWidth 8

/-- `eeprom_update_dword` -/
def eepromUpdateDword (address : ℕ) (value : BitVec 32) : Via World Unit :=
  Traced.forEach (List.range 4) fun i => eepromUpdateByte (address + i) (byteOf value i)

end Primitives

namespace Config

variable (config : Config)

/-- Addresses and sums wrap at the size of a word. -/
def word (sum : ℕ) : ℕ := sum % 2 ^ config.wordBits

/-- `VIA_EEPROM_LAYOUT_OPTIONS_ADDR` -/
def layoutOptionsAddr : ℕ := config.magicAddr + 3

/-- `dynamic_keymap_eeprom_size` -/
def keymapSize : ℕ := config.layerCount * config.matrixRows * config.matrixCols * 2

/-- The bytes that `id_switch_matrix_state` reports for a row. -/
def rowBytes : ℕ :=
  (if 24 < config.matrixCols then 1 else 0) + (if 16 < config.matrixCols then 1 else 0) +
    (if 8 < config.matrixCols then 1 else 0) + 1

end Config

section Functions

variable {World : Type} (config : Config) (fw : Firmware World)

/-- `via_get_layout_options` -/
def viaGetLayoutOptions : ℕ → BitVec 32 → Via World (BitVec 32)
  | 0, value => pure value
  | left + 1, value => do
    let byte ← eepromReadByte (config.layoutOptionsAddr + (config.layoutOptionsSize - (left + 1)))
    viaGetLayoutOptions left (value <<< 8 ||| byte.setWidth 32)

/-- `via_set_layout_options` -/
def viaSetLayoutOptions (value : BitVec 32) : Via World Unit :=
  Traced.forEach (List.range config.layoutOptionsSize) fun i =>
    eepromUpdateByte (config.layoutOptionsAddr + config.layoutOptionsSize - 1 - i) (byteOf value i)

/-- `raw_hid_receive_kb` -/
def rawHidReceiveKb : Via World Unit := writeData 0 idUnhandled

/-- `dynamic_keymap_key_to_eeprom_address` -/
def keyToEepromAddress (layer row column : BitVec 8) : ℕ :=
  config.word (config.keymapAddr + layer.toNat * config.matrixRows * config.matrixCols * 2 +
    row.toNat * config.matrixCols * 2 + column.toNat * 2)

/-- `dynamic_keymap_get_keycode` -/
def dynamicKeymapGetKeycode (layer row column : BitVec 8) : Via World (BitVec 16) := do
  let address := keyToEepromAddress config layer row column
  let high ← eepromReadByte address
  let low ← eepromReadByte (config.word (address + 1))
  pure (high ++ low)

/-- `dynamic_keymap_set_keycode` -/
def dynamicKeymapSetKeycode (layer row column : BitVec 8) (keycode : BitVec 16) :
    Via World Unit := do
  let address := keyToEepromAddress config layer row column
  eepromUpdateByte address (keycode.extractLsb' 8 8)
  eepromUpdateByte (config.word (address + 1)) (keycode.extractLsb' 0 8)

/-- `dynamic_keymap_reset` -/
def dynamicKeymapReset : Via World Unit :=
  Traced.forEach (List.range config.layerCount) fun layer =>
    Traced.forEach (List.range config.matrixRows) fun row =>
      Traced.forEach (List.range config.matrixCols) fun column =>
        dynamicKeymapSetKeycode config (BitVec.ofNat 8 layer) (BitVec.ofNat 8 row)
          (BitVec.ofNat 8 column) (config.keymaps layer row column)

/-- `dynamic_keymap_get_buffer` and `dynamic_keymap_macro_get_buffer`: a region of
the EEPROM, to `&command_data[3]`. -/
def getRegion (start regionSize : ℕ) (offset : BitVec 16) (size : BitVec 8) : Via World Unit :=
  Traced.forEach (List.range size.toNat) fun i =>
    if config.word (offset.toNat + i) < regionSize then do
      let byte ← eepromReadByte (config.word (start + offset.toNat + i))
      writeCommand (3 + i) byte
    else writeCommand (3 + i) 0x00

/-- `dynamic_keymap_set_buffer` and `dynamic_keymap_macro_set_buffer`, from
`&command_data[3]`. -/
def setRegion (start regionSize : ℕ) (offset : BitVec 16) (size : BitVec 8) : Via World Unit :=
  Traced.forEach (List.range size.toNat) fun i =>
    if config.word (offset.toNat + i) < regionSize then do
      let byte ← readCommand (3 + i)
      eepromUpdateByte (config.word (start + offset.toNat + i)) byte
    else pure ()

def dynamicKeymapGetBuffer (offset : BitVec 16) (size : BitVec 8) : Via World Unit :=
  getRegion config config.keymapAddr config.keymapSize offset size

def dynamicKeymapSetBuffer (offset : BitVec 16) (size : BitVec 8) : Via World Unit :=
  setRegion config config.keymapAddr config.keymapSize offset size

def dynamicKeymapMacroGetBuffer (offset : BitVec 16) (size : BitVec 8) : Via World Unit :=
  getRegion config config.macroAddr config.macroSize offset size

def dynamicKeymapMacroSetBuffer (offset : BitVec 16) (size : BitVec 8) : Via World Unit :=
  setRegion config config.macroAddr config.macroSize offset size

/-- `dynamic_keymap_macro_reset` -/
def dynamicKeymapMacroReset : Via World Unit :=
  Traced.forEach (List.range config.macroSize) fun i =>
    eepromUpdateByte (config.word (config.macroAddr + i)) 0

/-- `eeconfig_update_backlight_current` -/
def eeconfigUpdateBacklightCurrent : Via World Unit := do
  let raw ← ask fw.backlightRaw
  eepromUpdateByte eeconfigBacklight raw

/-- `eeconfig_update_rgblight_current` -/
def eeconfigUpdateRgblightCurrent : Via World Unit := do
  let raw ← ask fw.rgblightRaw
  change fw.rgblightCheckConfig
  eepromUpdateDword eeconfigRgblight raw

/-- `backlight_enable_breathing` and `backlight_disable_breathing` -/
def backlightBreathing (on : Bool) : Via World Unit := do
  let breathing ← ask fw.isBacklightBreathing
  if breathing = on then pure ()
  else do
    change (fw.setBreathing on)
    eeconfigUpdateBacklightCurrent fw
    change (fw.breathingEnable on)

/-- `via_qmk_backlight_get_value` -/
def viaQmkBacklightGetValue : Via World Unit := do
  let valueId ← readCommand 0
  match lightingValue valueId with
  | .backlightBrightness => do
    let level ← ask fw.getBacklightLevel
    writeCommand 1 (BitVec.ofNat 8 (level.toNat * 255 / config.backlightLevels))
  | .backlightEffect => do
    let breathing ← ask fw.isBacklightBreathing
    writeCommand 1 (if config.breathing && breathing then 1 else 0)
  | _ => pure ()

/-- `via_qmk_backlight_set_value` -/
def viaQmkBacklightSetValue : Via World Unit := do
  let valueId ← readCommand 0
  match lightingValue valueId with
  | .backlightBrightness => do
    let value ← readCommand 1
    change (fw.backlightLevelNoeeprom
      (BitVec.ofNat 8 (value.toNat * config.backlightLevels / 255)))
  | .backlightEffect =>
    if config.breathing then do
      let value ← readCommand 1
      backlightBreathing fw (value != 0)
    else pure ()
  | _ => pure ()

/-- `via_qmk_rgblight_get_value` -/
def viaQmkRgblightGetValue : Via World Unit := do
  let valueId ← readCommand 0
  match lightingValue valueId with
  | .rgblightBrightness => do
    let value ← ask fw.rgblightGetVal
    writeCommand 1 value
  | .rgblightEffect => do
    let mode ← ask fw.rgblightGetMode
    writeCommand 1 mode
  | .rgblightEffectSpeed => do
    let speed ← ask fw.rgblightGetSpeed
    writeCommand 1 speed
  | .rgblightColor => do
    let hue ← ask fw.rgblightGetHue
    writeCommand 1 hue
    let sat ← ask fw.rgblightGetSat
    writeCommand 2 sat
  | _ => pure ()

/-- `via_qmk_rgblight_set_value` -/
def viaQmkRgblightSetValue : Via World Unit := do
  let valueId ← readCommand 0
  match lightingValue valueId with
  | .rgblightBrightness => do
    let hue ← ask fw.rgblightGetHue
    let sat ← ask fw.rgblightGetSat
    let value ← readCommand 1
    change (fw.rgblightSethsvNoeeprom hue sat value)
  | .rgblightEffect => do
    let mode ← readCommand 1
    change (fw.rgblightModeNoeeprom mode)
    let again ← readCommand 1
    if again = 0 then change fw.rgblightDisableNoeeprom else change fw.rgblightEnableNoeeprom
  | .rgblightEffectSpeed => do
    let speed ← readCommand 1
    change (fw.rgblightSetSpeedNoeeprom speed)
  | .rgblightColor => do
    let hue ← readCommand 1
    let sat ← readCommand 2
    let value ← ask fw.rgblightGetVal
    change (fw.rgblightSethsvNoeeprom hue sat value)
  | _ => pure ()

/-- Write a 32-bit value to `command_data[1]` to `command_data[4]`, most
significant byte first. -/
def writeDword (value : BitVec 32) : Via World Unit := do
  writeCommand 1 (byteOf value 3)
  writeCommand 2 (byteOf value 2)
  writeCommand 3 (byteOf value 1)
  writeCommand 4 (byteOf value 0)

/-- The case `id_switch_matrix_state`. -/
def switchMatrixState : Via World Unit :=
  if (config.matrixCols / 8 + 1) * config.matrixRows ≤ 28 then
    Traced.forEach (List.range config.matrixRows) fun row => do
      let value ← ask fun world => fw.matrixGetRow world row
      Traced.forEach (List.range config.rowBytes) fun i =>
        writeCommand (1 + row * config.rowBytes + i) (byteOf value (config.rowBytes - 1 - i))
  else pure ()

/-- The offset and the size of a buffer command. -/
def readOffset : Via World (BitVec 16) := do
  let high ← readCommand 0
  let low ← readCommand 1
  pure (high ++ low)

/-- Code that is there only when an option is built in. -/
def built (option : Bool) (program : Via World Unit) : Via World Unit :=
  if option then program else pure ()

/-- The lighting cases, which call whatever is built in. -/
def lighting (backlight rgblight : Via World Unit) : Via World Unit := do
  built config.backlight backlight
  built config.rgblight rgblight
  built config.customLighting rawHidReceiveKb
  built (!config.backlight && !config.rgblight && !config.customLighting)
    (writeData 0 idUnhandled)

/-- `raw_hid_receive`, up to `raw_hid_send`. -/
def rawHidReceive : Via World Unit := do
  let command ← readData 0
  match commandId command with
  | .getProtocolVersion => do
    writeCommand 0 (viaProtocolVersion.extractLsb' 8 8)
    writeCommand 1 (viaProtocolVersion.extractLsb' 0 8)
  | .getKeyboardValue => do
    let valueId ← readCommand 0
    match keyboardValueId valueId with
    | .uptime => do
      let value ← ask fw.timerRead32
      writeDword value
    | .layoutOptions => do
      let value ← viaGetLayoutOptions config config.layoutOptionsSize 0
      writeDword value
    | .switchMatrixState => switchMatrixState config fw
    | .other => rawHidReceiveKb
  | .setKeyboardValue => do
    let valueId ← readCommand 0
    match keyboardValueId valueId with
    | .layoutOptions => do
      let first ← readCommand 1
      let second ← readCommand 2
      let third ← readCommand 3
      let fourth ← readCommand 4
      viaSetLayoutOptions config (first ++ second ++ third ++ fourth)
    | _ => rawHidReceiveKb
  | .dynamicKeymapGetKeycode => do
    let layer ← readCommand 0
    let row ← readCommand 1
    let column ← readCommand 2
    let keycode ← dynamicKeymapGetKeycode config layer row column
    writeCommand 3 (keycode.extractLsb' 8 8)
    writeCommand 4 (keycode.extractLsb' 0 8)
  | .dynamicKeymapSetKeycode => do
    let layer ← readCommand 0
    let row ← readCommand 1
    let column ← readCommand 2
    let high ← readCommand 3
    let low ← readCommand 4
    dynamicKeymapSetKeycode config layer row column (high ++ low)
  | .dynamicKeymapReset => dynamicKeymapReset config
  | .lightingSetValue =>
    lighting config (viaQmkBacklightSetValue config fw) (viaQmkRgblightSetValue fw)
  | .lightingGetValue =>
    lighting config (viaQmkBacklightGetValue config fw) (viaQmkRgblightGetValue fw)
  | .lightingSave =>
    lighting config (eeconfigUpdateBacklightCurrent fw) (eeconfigUpdateRgblightCurrent fw)
  | .macroGetCount => writeCommand 0 (BitVec.ofNat 8 config.macroCount)
  | .macroGetBufferSize => do
    writeCommand 0 ((BitVec.ofNat 16 config.macroSize).extractLsb' 8 8)
    writeCommand 1 ((BitVec.ofNat 16 config.macroSize).extractLsb' 0 8)
  | .macroGetBuffer => do
    let offset ← readOffset
    let size ← readCommand 2
    dynamicKeymapMacroGetBuffer config offset size
  | .macroSetBuffer => do
    let offset ← readOffset
    let size ← readCommand 2
    dynamicKeymapMacroSetBuffer config offset size
  | .macroReset => dynamicKeymapMacroReset config
  | .getLayerCount => writeCommand 0 (BitVec.ofNat 8 config.layerCount)
  | .getBuffer => do
    let offset ← readOffset
    let size ← readCommand 2
    dynamicKeymapGetBuffer config offset size
  | .setBuffer => do
    let offset ← readOffset
    let size ← readCommand 2
    dynamicKeymapSetBuffer config offset size
  | .unhandled => writeData 0 idUnhandled

/-- `raw_hid_send`, which reads a packet of the full size and no other. -/
def rawHidSend (length : ℕ) : Via World Unit :=
  if length = 32 then
    Traced.forEach (List.range length) fun i => do
      let _ ← readData i
      pure ()
  else pure ()

/-- `raw_hid_receive` -/
def receive (length : ℕ) : Via World Unit := do
  rawHidReceive config fw
  rawHidSend length

end Functions

end QmkSonix.Via
