import Mathlib.Logic.Function.Basic
import QmkSonix.SendString.Model

/-! The keymap and the macros that `dynamic_keymap.c` keeps in the EEPROM, one region
behind the other, and the playback of a macro. -/

namespace QmkSonix.DynamicKeymap

open QmkSonix.Lib

/-- The configuration of a keyboard, with the checks that `dynamic_keymap.c` makes of it. -/
structure Geometry where
  /-- `DYNAMIC_KEYMAP_LAYER_COUNT` -/
  layerCount : ℕ
  matrixRows : ℕ
  matrixCols : ℕ
  /-- `DYNAMIC_KEYMAP_MACRO_COUNT` -/
  macroCount : ℕ
  /-- `DYNAMIC_KEYMAP_EEPROM_ADDR` -/
  eepromAddr : ℕ
  /-- `DYNAMIC_KEYMAP_EEPROM_MAX_ADDR` -/
  eepromMaxAddr : ℕ
  /-- The bits of `int` and of a pointer. -/
  wordBits : ℕ
  words : wordBits = 16 ∨ wordBits = 32
  eeconfig_fits : 0 < eepromAddr
  max_fits : eepromMaxAddr ≤ 65535
  macros_fit : eepromAddr + layerCount * matrixRows * matrixCols * 2 + 100 ≤ eepromMaxAddr

namespace Geometry

variable (geometry : Geometry)

/-- Addresses and sums wrap at the size of a word. -/
def word (sum : ℕ) : ℕ := sum % 2 ^ geometry.wordBits

/-- `dynamic_keymap_eeprom_size` -/
def eepromSize : ℕ :=
  geometry.layerCount * geometry.matrixRows * geometry.matrixCols * 2

/-- `DYNAMIC_KEYMAP_MACRO_EEPROM_ADDR` -/
def macroEepromAddr : ℕ := geometry.eepromAddr + geometry.eepromSize

/-- `DYNAMIC_KEYMAP_MACRO_EEPROM_SIZE` -/
def macroEepromSize : ℕ := geometry.eepromMaxAddr - geometry.macroEepromAddr + 1

theorem macros_end : geometry.macroEepromAddr + geometry.macroEepromSize =
    geometry.eepromMaxAddr + 1 := by
  have fits := geometry.macros_fit
  simp only [macroEepromAddr, macroEepromSize, eepromSize]
  omega

theorem word_of_lt {sum : ℕ} (small : sum < 65536) : geometry.word sum = sum := by
  refine Nat.mod_eq_of_lt (Nat.lt_of_lt_of_le small ?_)
  rcases geometry.words with short | long
  · rw [short]
    decide
  · rw [long]
    decide

end Geometry

abbrev Eeprom := ℕ → BitVec 8

section Functions

variable (geometry : Geometry) (eeprom : Eeprom)

def eepromReadByte (address : ℕ) : BitVec 8 := eeprom address

def eepromUpdateByte (address : ℕ) (value : BitVec 8) : Eeprom :=
  Function.update eeprom address value

/-- `dynamic_keymap_key_to_eeprom_address` -/
def keyToEepromAddress (layer row column : BitVec 8) : ℕ :=
  geometry.word (geometry.eepromAddr +
    layer.toNat * geometry.matrixRows * geometry.matrixCols * 2 +
    row.toNat * geometry.matrixCols * 2 + column.toNat * 2)

/-- `dynamic_keymap_get_keycode` -/
def dynamicKeymapGetKeycode (layer row column : BitVec 8) : BitVec 16 :=
  let address := keyToEepromAddress geometry layer row column
  eepromReadByte eeprom address ++ eepromReadByte eeprom (geometry.word (address + 1))

/-- `dynamic_keymap_set_keycode` -/
def dynamicKeymapSetKeycode (layer row column : BitVec 8) (keycode : BitVec 16) : Eeprom :=
  let address := keyToEepromAddress geometry layer row column
  eepromUpdateByte (eepromUpdateByte eeprom address (keycode.extractLsb' 8 8))
    (geometry.word (address + 1)) (keycode.extractLsb' 0 8)

/-- The bytes that `dynamic_keymap_get_buffer` and `dynamic_keymap_macro_get_buffer`
read out of a region. -/
def getRegion (start regionSize : ℕ) (offset size : BitVec 16) : List (BitVec 8) :=
  (List.range size.toNat).map fun i =>
    if geometry.word (offset.toNat + i) < regionSize then
      eepromReadByte eeprom (geometry.word (start + offset.toNat + i))
    else 0x00

/-- One round of the loop of `dynamic_keymap_set_buffer` and `dynamic_keymap_macro_set_buffer`. -/
def setByte (start regionSize : ℕ) (offset : BitVec 16) (data : ℕ → BitVec 8) (i : ℕ) : Eeprom :=
  if geometry.word (offset.toNat + i) < regionSize then
    eepromUpdateByte eeprom (geometry.word (start + offset.toNat + i)) (data i)
  else eeprom

/-- What these functions do to a region. -/
def setRegion (start regionSize : ℕ) (offset size : BitVec 16) (data : ℕ → BitVec 8) : Eeprom :=
  (List.range size.toNat).foldl
    (fun eeprom i => setByte geometry eeprom start regionSize offset data i) eeprom

def dynamicKeymapGetBuffer (offset size : BitVec 16) : List (BitVec 8) :=
  getRegion geometry eeprom geometry.eepromAddr geometry.eepromSize offset size

def dynamicKeymapSetBuffer (offset size : BitVec 16) (data : ℕ → BitVec 8) : Eeprom :=
  setRegion geometry eeprom geometry.eepromAddr geometry.eepromSize offset size data

def dynamicKeymapMacroGetBuffer (offset size : BitVec 16) : List (BitVec 8) :=
  getRegion geometry eeprom geometry.macroEepromAddr geometry.macroEepromSize offset size

def dynamicKeymapMacroSetBuffer (offset size : BitVec 16) (data : ℕ → BitVec 8) : Eeprom :=
  setRegion geometry eeprom geometry.macroEepromAddr geometry.macroEepromSize offset size data

end Functions

section Playback

/-- What `dynamic_keymap_macro_send` reads and sends. -/
inductive Event where
  | read (address : ℕ)
  /-- `send_string(data)` -/
  | sendString (data : List (BitVec 8))

/-- Where `dynamic_keymap_macro_send` is. -/
inductive Point where
  /-- The loop that skips null characters. -/
  | skip (p : ℕ) (id : ℕ)
  /-- The loop that sends, with what `data[2]` holds. -/
  | send (p : ℕ) (third : BitVec 8)

variable (geometry : Geometry) (eeprom : Eeprom)

/-- The first address behind the macros. -/
def endAddr : ℕ := geometry.word (geometry.macroEepromAddr + geometry.macroEepromSize)

/-- One round of the loops of `dynamic_keymap_macro_send`. -/
def round : Point → Round Point Event Unit
  | .skip p id =>
    if id = 0 then ⟨[], .again (.send p 0)⟩
    else if p = endAddr geometry then ⟨[], .leave ()⟩
    else
      ⟨[.read p], .again (.skip (geometry.word (p + 1))
        (if eepromReadByte eeprom p = 0 then id - 1 else id))⟩
  | .send p third =>
    let code := eepromReadByte eeprom p
    if code = 0 then ⟨[.read p], .leave ()⟩
    else if code = SendString.ssTapCode ∨ code = SendString.ssDownCode ∨
        code = SendString.ssUpCode then
      let key := eepromReadByte eeprom (geometry.word (p + 1))
      if key = 0 then ⟨[.read p, .read (geometry.word (p + 1))], .leave ()⟩
      else
        ⟨[.read p, .read (geometry.word (p + 1)),
          .sendString [SendString.ssQmkPrefix, code, key, 0]],
          .again (.send (geometry.word (geometry.word (p + 1) + 1)) key)⟩
    else
      ⟨[.read p, .sendString [code, 0, third, 0]], .again (.send (geometry.word (p + 1)) third)⟩

/-- `dynamic_keymap_macro_send`, for a number of rounds. -/
def dynamicKeymapMacroSend (id : BitVec 8) (rounds : ℕ) : Option (List Event) :=
  if geometry.macroCount ≤ id.toNat then some []
  else
    let last := geometry.word (geometry.macroEepromAddr + geometry.macroEepromSize - 1)
    if eepromReadByte eeprom last ≠ 0 then some [.read last]
    else
      (loop (round geometry eeprom) rounds (.skip geometry.macroEepromAddr id.toNat)).map
        fun played => .read last :: played.1

end Playback

end QmkSonix.DynamicKeymap
