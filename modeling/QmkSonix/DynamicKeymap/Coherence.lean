import QmkSonix.DynamicKeymap.Playback
import QmkSonix.Lib.Run
import Mathlib.Tactic.Ring

/-! The keycodes against the bytes that the buffer commands see, and what each write
changes of them. -/

namespace QmkSonix.DynamicKeymap

open QmkSonix.Lib

variable {geometry : Geometry} {eeprom : Eeprom}

/-- A key in range. -/
structure Key (geometry : Geometry) where
  layer : BitVec 8
  row : BitVec 8
  column : BitVec 8
  layer_lt : layer.toNat < geometry.layerCount
  row_lt : row.toNat < geometry.matrixRows
  column_lt : column.toNat < geometry.matrixCols

/-- Where the pair of a key starts among the bytes of the keymap. -/
def Key.offset (key : Key geometry) : ℕ :=
  2 * ((key.layer.toNat * geometry.matrixRows + key.row.toNat) * geometry.matrixCols +
    key.column.toNat)

theorem Key.offset_fits (key : Key geometry) : key.offset + 1 < geometry.eepromSize := by
  have rows : key.layer.toNat * geometry.matrixRows + key.row.toNat + 1 ≤
      geometry.layerCount * geometry.matrixRows := by
    have layers := Nat.mul_le_mul_right geometry.matrixRows (Nat.succ_le_of_lt key.layer_lt)
    have row := key.row_lt
    rw [Nat.succ_mul] at layers
    omega
  have cells := Nat.mul_le_mul_right geometry.matrixCols rows
  have column := key.column_lt
  rw [Nat.succ_mul] at cells
  rw [Key.offset, Geometry.eepromSize]
  omega

/-- The bytes of the keymap. -/
def keymapByte (geometry : Geometry) (eeprom : Eeprom) (b : ℕ) : BitVec 8 :=
  eeprom (geometry.eepromAddr + b)

theorem keymap_fits : geometry.eepromAddr + geometry.eepromSize ≤ 65535 := by
  have ends := geometry.macros_fit
  have fits := geometry.max_fits
  rw [Geometry.eepromSize]
  omega

theorem macros_fit : geometry.macroEepromAddr + geometry.macroEepromSize ≤ 65536 := by
  have ends := geometry.macros_end
  have fits := geometry.max_fits
  omega

/-! ### Keycodes and their bytes -/

theorem key_address (key : Key geometry) :
    keyToEepromAddress geometry key.layer key.row key.column =
      geometry.eepromAddr + key.offset := by
  have inside := key.offset_fits
  have fits := @keymap_fits geometry
  have sum : geometry.eepromAddr + key.layer.toNat * geometry.matrixRows *
      geometry.matrixCols * 2 + key.row.toNat * geometry.matrixCols * 2 + key.column.toNat * 2 =
      geometry.eepromAddr + key.offset := by
    rw [Key.offset]
    ring
  rw [keyToEepromAddress, sum]
  exact geometry.word_of_lt (by omega)

theorem key_address_next (key : Key geometry) :
    geometry.word (keyToEepromAddress geometry key.layer key.row key.column + 1) =
      geometry.eepromAddr + (key.offset + 1) := by
  have inside := key.offset_fits
  have fits := @keymap_fits geometry
  rw [key_address]
  exact geometry.word_of_lt (by omega)

/-- The keycode of a key. -/
def keycode (geometry : Geometry) (eeprom : Eeprom) (key : Key geometry) : BitVec 16 :=
  dynamicKeymapGetKeycode geometry eeprom key.layer key.row key.column

/-- A keycode is the pair of its bytes, the high byte first. -/
theorem keycode_eq (key : Key geometry) :
    keycode geometry eeprom key =
      keymapByte geometry eeprom key.offset ++ keymapByte geometry eeprom (key.offset + 1) := by
  rw [keycode, dynamicKeymapGetKeycode, key_address_next, key_address]
  rfl

theorem keycode_high (key : Key geometry) :
    (keycode geometry eeprom key).extractLsb' 8 8 = keymapByte geometry eeprom key.offset := by
  rw [keycode_eq, BitVec.extractLsb'_append_eq_of_le (by decide), BitVec.extractLsb'_eq_self]

theorem keycode_low (key : Key geometry) :
    (keycode geometry eeprom key).extractLsb' 0 8 =
      keymapByte geometry eeprom (key.offset + 1) := by
  rw [keycode_eq, BitVec.extractLsb'_append_eq_of_add_le (by decide), BitVec.extractLsb'_eq_self]

theorem pair_inj {high low otherHigh otherLow : BitVec 8} :
    high ++ low = otherHigh ++ otherLow ↔ high = otherHigh ∧ low = otherLow := by
  constructor
  · intro same
    have highs := congrArg (BitVec.extractLsb' 8 8) same
    have lows := congrArg (BitVec.extractLsb' 0 8) same
    rw [BitVec.extractLsb'_append_eq_of_le (by decide), BitVec.extractLsb'_append_eq_of_le
      (by decide), BitVec.extractLsb'_eq_self, BitVec.extractLsb'_eq_self] at highs
    rw [BitVec.extractLsb'_append_eq_of_add_le (by decide),
      BitVec.extractLsb'_append_eq_of_add_le (by decide), BitVec.extractLsb'_eq_self,
      BitVec.extractLsb'_eq_self] at lows
    exact ⟨highs, lows⟩
  · rintro ⟨rfl, rfl⟩
    rfl

/-- A window of a buffer command shows a byte of its region where it covers it. -/
theorem getRegion_covers {start regionSize b : ℕ} {offset size : BitVec 16}
    (fits : start + regionSize ≤ 65536) (inside : b < regionSize) (after : offset.toNat ≤ b)
    (before : b < offset.toNat + size.toNat) :
    (getRegion geometry eeprom start regionSize offset size)[b - offset.toNat]? =
      some (eeprom (start + b)) := by
  have index : b - offset.toNat < size.toNat := by omega
  have place : geometry.word (offset.toNat + (b - offset.toNat)) = b := by
    rw [Nat.add_sub_cancel' after]
    exact geometry.word_of_lt (by omega)
  have address : geometry.word (start + offset.toNat + (b - offset.toNat)) = start + b := by
    rw [Nat.add_assoc, Nat.add_sub_cancel' after]
    exact geometry.word_of_lt (by omega)
  simp only [getRegion, List.getElem?_map, List.getElem?_range index, Option.map_some, place,
    address, inside, ↓reduceIte, eepromReadByte]

/-- A keycode is the pair that a window shows at its place. -/
def Coherent (geometry : Geometry) (eeprom : Eeprom) : Prop :=
  ∀ (key : Key geometry) (offset size : BitVec 16), offset.toNat ≤ key.offset →
    key.offset + 1 < offset.toNat + size.toNat →
    ∃ high low, (dynamicKeymapGetBuffer geometry eeprom offset size)[key.offset - offset.toNat]? =
        some high ∧
      (dynamicKeymapGetBuffer geometry eeprom offset size)[key.offset + 1 - offset.toNat]? =
        some low ∧
      dynamicKeymapGetKeycode geometry eeprom key.layer key.row key.column = high ++ low

theorem coherent (geometry : Geometry) (eeprom : Eeprom) : Coherent geometry eeprom := by
  intro key offset size after before
  have inside := key.offset_fits
  have fits := @keymap_fits geometry
  exact ⟨keymapByte geometry eeprom key.offset, keymapByte geometry eeprom (key.offset + 1),
    getRegion_covers (by omega) (by omega) after (by omega),
    getRegion_covers (by omega) inside (by omega) before, keycode_eq key⟩

/-! ### The writes -/

inductive Call (geometry : Geometry) where
  | setKeycode (key : Key geometry) (keycode : BitVec 16)
  | setBuffer (offset size : BitVec 16) (data : ℕ → BitVec 8)
  | macroSetBuffer (offset size : BitVec 16) (data : ℕ → BitVec 8)

def perform (geometry : Geometry) (eeprom : Eeprom) : Call geometry → Eeprom
  | .setKeycode key keycode =>
    dynamicKeymapSetKeycode geometry eeprom key.layer key.row key.column keycode
  | .setBuffer offset size data => dynamicKeymapSetBuffer geometry eeprom offset size data
  | .macroSetBuffer offset size data => dynamicKeymapMacroSetBuffer geometry eeprom offset size data

/-- What a buffer command puts at a byte that it covers. -/
def window (offset size : BitVec 16) (data : ℕ → BitVec 8) (b : ℕ) : Option (BitVec 8) :=
  if offset.toNat ≤ b ∧ b < offset.toNat + size.toNat then some (data (b - offset.toNat)) else none

/-- What a buffer command has for a byte when its offsets wrap at 16 bits. -/
def overrun (offset size : BitVec 16) (data : ℕ → BitVec 8) (b : ℕ) : Option (BitVec 8) :=
  if b + 65536 < offset.toNat + size.toNat then some (data (b + 65536 - offset.toNat)) else none

/-- What a write puts at a byte of the keymap that it covers. -/
def Call.keymapByte : Call geometry → ℕ → Option (BitVec 8)
  | .setKeycode key keycode, b =>
    if b = key.offset then some (keycode.extractLsb' 8 8)
    else if b = key.offset + 1 then some (keycode.extractLsb' 0 8) else none
  | .setBuffer offset size data, b => window offset size data b
  | .macroSetBuffer _ _ _, _ => none

/-- What a write puts at a byte of the macros that it covers. -/
def Call.macroByte : Call geometry → ℕ → Option (BitVec 8)
  | .macroSetBuffer offset size data, b => window offset size data b
  | _, _ => none

/-- A write changes what it covers, and nothing else. -/
structure Exact (geometry : Geometry) (eeprom : Eeprom) (call : Call geometry) : Prop where
  keycodes : ∀ key : Key geometry, keycode geometry (perform geometry eeprom call) key =
    (call.keymapByte key.offset).getD ((keycode geometry eeprom key).extractLsb' 8 8) ++
      (call.keymapByte (key.offset + 1)).getD ((keycode geometry eeprom key).extractLsb' 0 8)
  macros : ∀ b < geometry.macroEepromSize, macroByte geometry (perform geometry eeprom call) b =
    (call.macroByte b).getD (macroByte geometry eeprom b)

/-- Where `int` has 16 bits, what a window has for a byte behind the last offset is what
is there already. -/
def Harmless (geometry : Geometry) (eeprom : Eeprom) : Call geometry → Prop
  | .setKeycode _ _ => True
  | .setBuffer offset size data => geometry.wordBits = 16 →
    ∀ (key : Key geometry), ∀ half < 2, ∀ byte ∈ overrun offset size data (key.offset + half),
      byte = keymapByte geometry eeprom (key.offset + half)
  | .macroSetBuffer offset size data => geometry.wordBits = 16 →
    ∀ b < geometry.macroEepromSize, ∀ byte ∈ overrun offset size data b,
      byte = macroByte geometry eeprom b

section Regions

variable {start regionSize b n : ℕ} {offset size : BitVec 16} {data : ℕ → BitVec 8}

/-- A step of a window is at a byte by its offset, or by an offset that has wrapped. -/
theorem word_eq_iff (small : b < 65536) (short : n < 65536) :
    geometry.word (offset.toNat + n) = b ↔
      offset.toNat + n = b ∨ geometry.wordBits = 16 ∧ offset.toNat + n = b + 65536 := by
  have bound := offset.isLt
  rw [Geometry.word]
  rcases geometry.words with narrow | wide
  · rw [narrow]
    omega
  · rw [wide]
    omega

theorem word_start (place : geometry.word (offset.toNat + n) = b) (fits : start + b < 65536) :
    geometry.word (start + offset.toNat + n) = start + b := by
  rw [Geometry.word, Nat.add_assoc, ← Nat.add_mod_mod, show (offset.toNat + n) %
    2 ^ geometry.wordBits = b from place]
  exact geometry.word_of_lt fits

theorem setByte_here (fits : start + regionSize ≤ 65536) (inside : b < regionSize)
    (here : geometry.word (offset.toNat + n) = b) :
    setByte geometry eeprom start regionSize offset data n (start + b) = data n := by
  rw [setByte, if_pos (here ▸ inside), word_start here (by omega), eepromUpdateByte,
    Function.update_self]

theorem setByte_elsewhere {address : ℕ} (fits : start + regionSize ≤ 65536)
    (elsewhere : geometry.word (offset.toNat + n) < regionSize →
      start + geometry.word (offset.toNat + n) ≠ address) :
    setByte geometry eeprom start regionSize offset data n address = eeprom address := by
  rw [setByte]
  split
  · rename_i region
    rw [word_start rfl (by omega), eepromUpdateByte,
      Function.update_of_ne (Ne.symm (elsewhere region))]
  · rfl

/-- A byte of the region behind the first steps of a write. -/
theorem steps_inside (fits : start + regionSize ≤ 65536) (inside : b < regionSize)
    (short : n ≤ 65535) :
    (List.range n).foldl
      (fun eeprom i => setByte geometry eeprom start regionSize offset data i) eeprom (start + b) =
    if offset.toNat ≤ b ∧ b < offset.toNat + n then data (b - offset.toNat)
    else if geometry.wordBits = 16 ∧ b + 65536 < offset.toNat + n then
      data (b + 65536 - offset.toNat)
    else eeprom (start + b) := by
  have bound := offset.isLt
  induction n with
  | zero =>
    rw [if_neg (by omega), if_neg (by omega)]
    rfl
  | succ n ih =>
    rw [List.range_succ, List.foldl_append, List.foldl_cons, List.foldl_nil]
    have hits := @word_eq_iff geometry b n offset
      (by omega) (by omega)
    by_cases here : geometry.word (offset.toNat + n) = b
    · rw [setByte_here fits inside here]
      rcases hits.mp here with plain | ⟨narrow, wraps⟩
      · rw [if_pos (by omega), ← plain, Nat.add_sub_cancel_left]
      · rw [if_neg (by omega), if_pos (by omega), ← wraps, Nat.add_sub_cancel_left]
    · rw [setByte_elsewhere fits fun _ same => here (by omega), ih (by omega)]
      rw [hits, not_or, not_and] at here
      have covers : offset.toNat ≤ b ∧ b < offset.toNat + (n + 1) ↔
          offset.toNat ≤ b ∧ b < offset.toNat + n := by omega
      have wraps : geometry.wordBits = 16 ∧ b + 65536 < offset.toNat + (n + 1) ↔
          geometry.wordBits = 16 ∧ b + 65536 < offset.toNat + n := by omega
      simp only [covers, wraps]

/-- A write shows at a byte of its region what it covers the byte with, or has for it
where offsets wrap. -/
theorem setRegion_inside (fits : start + regionSize ≤ 65536) (inside : b < regionSize) :
    setRegion geometry eeprom start regionSize offset size data (start + b) =
      (window offset size data b).getD
        (if geometry.wordBits = 16 then (overrun offset size data b).getD (eeprom (start + b))
        else eeprom (start + b)) := by
  have short : size.toNat ≤ 65535 := by
    have bound := size.isLt
    omega
  rw [setRegion, steps_inside fits inside short, window, overrun]
  by_cases narrow : geometry.wordBits = 16
  · simp only [narrow, true_and, ↓reduceIte]
    split_ifs <;> rfl
  · simp only [narrow, false_and, ↓reduceIte]
    split_ifs <;> rfl

theorem setRegion_outside {address : ℕ} (fits : start + regionSize ≤ 65536)
    (outside : address < start ∨ start + regionSize ≤ address) :
    setRegion geometry eeprom start regionSize offset size data address = eeprom address := by
  rw [setRegion]
  refine List.foldlRecOn (motive := fun (after : Eeprom) => after address = eeprom address) _ _ rfl ?_
  intro after same i _
  rw [setByte_elsewhere fits fun region => ?_, same]
  omega

/-- A byte comes out as covered exactly when what wraps around is harmless. -/
theorem covered_iff (narrow : Prop) [Decidable narrow] (old : BitVec 8) :
    ((window offset size data b).getD
        (if narrow then (overrun offset size data b).getD old else old) =
      (window offset size data b).getD old) ↔
    (narrow → ∀ byte ∈ overrun offset size data b, byte = old) := by
  have bound := offset.isLt
  have short := size.isLt
  by_cases covered : offset.toNat ≤ b ∧ b < offset.toNat + size.toNat
  · have apart : ¬b + 65536 < offset.toNat + size.toNat := by omega
    simp [window, overrun, covered, apart]
  · by_cases wraps : b + 65536 < offset.toNat + size.toNat
    · simp [window, overrun, covered, wraps]
    · simp [window, overrun, covered, wraps]

end Regions

/-! ### The calls -/

section Calls

variable (key : Key geometry) (set : BitVec 16) {offset size : BitVec 16} {data : ℕ → BitVec 8}
  {b : ℕ}

theorem setKeycode_byte :
    dynamicKeymapSetKeycode geometry eeprom key.layer key.row key.column set
        (geometry.eepromAddr + b) =
      ((Call.setKeycode key set).keymapByte b).getD (eeprom (geometry.eepromAddr + b)) := by
  rw [dynamicKeymapSetKeycode, key_address_next, key_address]
  simp only [eepromUpdateByte, Call.keymapByte]
  by_cases first : b = key.offset
  · subst first
    rw [Function.update_of_ne (by omega), Function.update_self, if_pos rfl]
    rfl
  · rw [if_neg first]
    by_cases second : b = key.offset + 1
    · subst second
      rw [Function.update_self, if_pos rfl]
      rfl
    · rw [Function.update_of_ne (by omega), Function.update_of_ne (by omega), if_neg second]
      rfl

theorem setKeycode_macros (behind : geometry.eepromSize ≤ b) :
    dynamicKeymapSetKeycode geometry eeprom key.layer key.row key.column set
        (geometry.eepromAddr + b) = eeprom (geometry.eepromAddr + b) := by
  have inside := key.offset_fits
  rw [setKeycode_byte, Call.keymapByte, if_neg (by omega), if_neg (by omega)]
  rfl

theorem macroByte_eq : macroByte geometry eeprom b =
    eeprom (geometry.eepromAddr + (geometry.eepromSize + b)) := by
  rw [macroByte, Geometry.macroEepromAddr, Nat.add_assoc]

/-- A write is exact when its bytes are. -/
theorem exact_iff (call : Call geometry) :
    Exact geometry eeprom call ↔
      (∀ key : Key geometry, ∀ half < 2,
        keymapByte geometry (perform geometry eeprom call) (key.offset + half) =
          (call.keymapByte (key.offset + half)).getD
            (keymapByte geometry eeprom (key.offset + half))) ∧
      ∀ b < geometry.macroEepromSize, macroByte geometry (perform geometry eeprom call) b =
        (call.macroByte b).getD (macroByte geometry eeprom b) := by
  constructor
  · rintro ⟨keycodes, macros⟩
    refine ⟨fun key half low => ?_, macros⟩
    have bytes := keycodes key
    rw [keycode_eq, keycode_high, keycode_low, pair_inj] at bytes
    obtain rfl | rfl : half = 0 ∨ half = 1 := by omega
    · exact bytes.1
    · exact bytes.2
  · rintro ⟨bytes, macros⟩
    refine ⟨fun key => ?_, macros⟩
    rw [keycode_eq, keycode_high, keycode_low, pair_inj]
    exact ⟨bytes key 0 (by decide), bytes key 1 (by decide)⟩

/-- A write is exact exactly when what wraps around is harmless. -/
theorem exact_iff_harmless (call : Call geometry) :
    Exact geometry eeprom call ↔ Harmless geometry eeprom call := by
  have keymapFits := @keymap_fits geometry
  have macrosFit := @macros_fit geometry
  have regions : geometry.macroEepromAddr = geometry.eepromAddr + geometry.eepromSize := rfl
  rw [exact_iff]
  cases call with
  | setKeycode key set =>
    refine iff_of_true ⟨fun other half low => setKeycode_byte key set, fun b inside => ?_⟩ trivial
    rw [macroByte_eq, macroByte_eq]
    exact setKeycode_macros key set (Nat.le_add_right _ _)
  | setBuffer offset size data =>
    have macros : ∀ b < geometry.macroEepromSize,
        macroByte geometry (perform geometry eeprom (.setBuffer offset size data)) b =
          macroByte geometry eeprom b := by
      intro b inside
      exact setRegion_outside (by omega) (.inr (by omega))
    refine (and_iff_left macros).trans ?_
    constructor
    · intro exact_ narrow key half low
      have inside := key.offset_fits
      have byte := exact_ key half low
      rw [keymapByte, perform, dynamicKeymapSetBuffer, setRegion_inside (by omega) (by omega)] at byte
      exact (covered_iff _ _).mp byte narrow
    · intro harmless key half low
      have inside := key.offset_fits
      rw [keymapByte, perform, dynamicKeymapSetBuffer, setRegion_inside (by omega) (by omega)]
      exact (covered_iff _ _).mpr fun narrow => harmless narrow key half low
  | macroSetBuffer offset size data =>
    have keymap : ∀ key : Key geometry, ∀ half < 2, keymapByte geometry
        (perform geometry eeprom (.macroSetBuffer offset size data)) (key.offset + half) =
          keymapByte geometry eeprom (key.offset + half) := by
      intro key half low
      have inside := key.offset_fits
      exact setRegion_outside (by omega) (.inl (by omega))
    refine (and_iff_right keymap).trans ?_
    constructor
    · intro exact_ narrow b inside
      have byte := exact_ b inside
      rw [macroByte, perform, dynamicKeymapMacroSetBuffer, setRegion_inside macrosFit inside] at byte
      exact (covered_iff _ _).mp byte narrow
    · intro harmless b inside
      rw [macroByte, perform, dynamicKeymapMacroSetBuffer, setRegion_inside macrosFit inside]
      exact (covered_iff _ _).mpr fun narrow => harmless narrow b inside

end Calls

/-- Over every run of writes the keycodes are the pairs that the buffer commands show, and
every write changes exactly what it covers as long as, where `int` has 16 bits, no window
that runs over the last offset brings other bytes than those it wraps around to. -/
theorem keymap_coherent_iff (geometry : Geometry) (eeprom : Eeprom) (calls : List (Call geometry)) :
    ((∀ cut, Coherent geometry (run (perform geometry) eeprom (calls.take cut))) ∧
      Along (perform geometry) (Exact geometry) eeprom calls) ↔
    Along (perform geometry) (Harmless geometry) eeprom calls := by
  rw [and_iff_right fun cut => coherent geometry _]
  exact along_congr (fun _ _ (_ : True) _ => trivial)
    (fun _ call _ => exact_iff_harmless call) trivial calls

/-- Two bytes are written from the last offset on, and the second is the first key's. -/
theorem wrapped_write_hits_key :
    ¬((∀ cut, Coherent oneKey (run (perform oneKey) (fun _ => 0)
          ([.setBuffer 0xFFFF 2 fun _ => 0x12].take cut))) ∧
        Along (perform oneKey) (Exact oneKey) (fun _ => 0) [.setBuffer 0xFFFF 2 fun _ => 0x12]) := by
  rintro ⟨-, exact_, -⟩
  have changed := (exact_iff_harmless _).mp exact_ rfl
    ⟨0, 0, 0, by decide, by decide, by decide⟩ 0 (by decide) 0x12 (by decide)
  exact absurd changed (by decide)

end QmkSonix.DynamicKeymap
