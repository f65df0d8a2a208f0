import QmkSonix.Lib.Run
import QmkSonix.Via.Bounds

/-! Which bytes of the EEPROM a packet can change. -/

namespace QmkSonix.Via

open QmkSonix.Lib QmkSonix.Lib.Traced

variable {World : Type}

/-- The dynamic keymap region and the macro buffer region. -/
def InRegions (config : Config) (address : ℕ) : Prop :=
  (config.keymapAddr ≤ address ∧ address < config.keymapAddr + config.keymapSize) ∨
    (config.macroAddr ≤ address ∧ address < config.macroAddr + config.macroSize)

/-- The addresses that a packet may change: the regions, and the layout options or
the lighting bytes where its command names them. -/
def Named (config : Config) (packet : ℕ → BitVec 8) (address : ℕ) : Prop :=
  InRegions config address ∨
    match commandId (packet 0) with
    | .setKeyboardValue => config.layoutOptionsAddr ≤ address ∧
        address < config.layoutOptionsAddr + config.layoutOptionsSize
    | .lightingSetValue => address = eeconfigBacklight
    | .lightingSave => address = eeconfigBacklight ∨
        (eeconfigRgblight ≤ address ∧ address < eeconfigRgblight + 4)
    | _ => False

/-- The key that the packet sets lies in the regions, both bytes of it. -/
def SetsInside (config : Config) (packet : ℕ → BitVec 8) : Prop :=
  commandId (packet 0) = .dynamicKeymapSetKeycode →
    let address := keyToEepromAddress config (packet 1) (packet 2) (packet 3)
    InRegions config address ∧ InRegions config (config.word (address + 1))

/-- An access that changes nothing but named addresses. -/
def OnlyNamed (config : Config) (packet : ℕ → BitVec 8) : Access → Prop
  | .packet _ => True
  | .update address => Named config packet address

/-- The next packet, in the memory that it came in. -/
def step (config : Config) (fw : Firmware World) (length : ℕ) (device : Device World)
    (packet : ℕ → BitVec 8) : Device World :=
  (receive config fw length).after { device with data := packet }

section Regions

variable {config : Config} {packet : ℕ → BitVec 8}

/-- The magic is never named. -/
theorem magic_not_named (config : Config) (packet : ℕ → BitVec 8) (i : ℕ) (inside : i < 3) :
    ¬Named config packet (config.magicAddr + i) := by
  have first := config.eeconfig_fits
  have options := config.options_fit
  have keymap := config.keymap_fits
  rintro ((keymapRegion | macroRegion) | named)
  · omega
  · omega
  · revert named
    cases commandId (packet 0) <;>
      simp [Config.layoutOptionsAddr, eeconfigBacklight, eeconfigRgblight] <;> omega

theorem word_of_lt {sum : ℕ} (small : sum < 2 ^ 16) : config.word sum = sum := by
  apply Nat.mod_eq_of_lt
  rcases config.words with narrow | wide
  · rw [narrow]
    exact small
  · rw [wide]
    exact small.trans (by decide)

theorem word_add_word (start sum : ℕ) :
    config.word (start + config.word sum) = config.word (start + sum) := by
  rw [Config.word, Config.word, Config.word, Nat.add_mod_mod]

/-- A byte of a buffer that is inside its region goes to that place of it. -/
theorem region_address {start size sum : ℕ} (fits : start + size ≤ 2 ^ 16)
    (inside : config.word sum < size) :
    config.word (start + sum) = start + config.word sum := by
  rw [← word_add_word]
  exact word_of_lt (by omega)

theorem keymap_le (config : Config) : config.keymapAddr + config.keymapSize ≤ 2 ^ 16 := by
  have keymap := config.keymap_fits
  have rest := config.macro_fits
  unfold Config.keymapSize
  omega

/-- A key of the keymap lies in the keymap region. -/
theorem key_inRegions {layer row column : ℕ} (layers : layer < config.layerCount)
    (rows : row < config.matrixRows) (cols : column < config.matrixCols) :
    let address := keyToEepromAddress config (BitVec.ofNat 8 layer) (BitVec.ofNat 8 row)
      (BitVec.ofNat 8 column)
    InRegions config address ∧ InRegions config (config.word (address + 1)) := by
  intro address
  have last := keymap_le config
  have layer_le : layer % 2 ^ 8 < config.layerCount := (Nat.mod_le _ _).trans_lt layers
  have row_le : row % 2 ^ 8 < config.matrixRows := (Nat.mod_le _ _).trans_lt rows
  have column_le : column % 2 ^ 8 < config.matrixCols := (Nat.mod_le _ _).trans_lt cols
  have inside : (layer % 2 ^ 8) * config.matrixRows * config.matrixCols * 2 +
      (row % 2 ^ 8) * config.matrixCols * 2 + (column % 2 ^ 8) * 2 + 1 < config.keymapSize := by
    have wholeRows := Nat.mul_le_mul_right config.matrixCols (Nat.succ_le_of_lt row_le)
    have wholeLayers := Nat.mul_le_mul_right (config.matrixRows * config.matrixCols)
      (Nat.succ_le_of_lt layer_le)
    rw [Nat.succ_mul] at wholeRows wholeLayers
    rw [← Nat.mul_assoc, ← Nat.mul_assoc] at wholeLayers
    unfold Config.keymapSize
    omega
  have found : address = config.keymapAddr + ((layer % 2 ^ 8) * config.matrixRows * config.matrixCols * 2 +
      (row % 2 ^ 8) * config.matrixCols * 2 + (column % 2 ^ 8) * 2) := by
    have small : config.word (config.keymapAddr +
        (layer % 2 ^ 8) * config.matrixRows * config.matrixCols * 2 +
        (row % 2 ^ 8) * config.matrixCols * 2 + (column % 2 ^ 8) * 2) = _ :=
      word_of_lt (by omega)
    rw [← Nat.add_assoc, ← Nat.add_assoc, ← small]
    simp [address, keyToEepromAddress]
  have next : config.word (address + 1) = address + 1 := word_of_lt (by omega)
  rw [next]
  exact ⟨.inl (by omega), .inl (by omega)⟩

end Regions

section Updates

variable {config : Config} {fw : Firmware World} {packet : ℕ → BitVec 8}

@[simp] theorem onlyNamed_packet (index : ℕ) : OnlyNamed config packet (.packet index) := trivial

@[simp] theorem onlyNamed_update (address : ℕ) :
    OnlyNamed config packet (.update address) ↔ Named config packet address := Iff.rfl

theorem forEach_onlyNamed {elements : List ℕ} {body : ℕ → Via World Unit}
    (each : ∀ i ∈ elements, ∀ state, Respects (OnlyNamed config packet) (body i) state)
    (device : Device World) :
    Respects (OnlyNamed config packet) (forEach elements body) device :=
  (respects_forEach (fun _ => True) (fun i member state => by simp [each i member state])
    device).mpr (by simp)

theorem viaGetLayoutOptions_onlyNamed (left : ℕ) (value : BitVec 32) (device : Device World) :
    Respects (OnlyNamed config packet) (viaGetLayoutOptions config left value) device := by
  induction left generalizing value with
  | zero => simp [viaGetLayoutOptions]
  | succ left ih => simp [viaGetLayoutOptions, ih]

theorem viaSetLayoutOptions_onlyNamed (command : commandId (packet 0) = .setKeyboardValue)
    (value : BitVec 32) (device : Device World) :
    Respects (OnlyNamed config packet) (viaSetLayoutOptions config value) device := by
  refine forEach_onlyNamed ?_ device
  intro i inside state
  have below := List.mem_range.mp inside
  rw [respects_eepromUpdateByte, onlyNamed_update, Named, command]
  exact .inr (by dsimp only; omega)

theorem respects_setKeycode (layer row column : BitVec 8) (keycode : BitVec 16)
    (device : Device World) :
    Respects (OnlyNamed config packet) (dynamicKeymapSetKeycode config layer row column keycode)
        device ↔
      Named config packet (keyToEepromAddress config layer row column) ∧
        Named config packet (config.word (keyToEepromAddress config layer row column + 1)) := by
  simp [dynamicKeymapSetKeycode]

theorem dynamicKeymapReset_onlyNamed (device : Device World) :
    Respects (OnlyNamed config packet) (dynamicKeymapReset config) device := by
  refine forEach_onlyNamed ?_ device
  intro layer layers state
  refine forEach_onlyNamed ?_ state
  intro row rows state
  refine forEach_onlyNamed ?_ state
  intro column cols state
  have inside := key_inRegions (List.mem_range.mp layers) (List.mem_range.mp rows)
    (List.mem_range.mp cols)
  exact (respects_setKeycode _ _ _ _ state).mpr ⟨.inl inside.1, .inl inside.2⟩

theorem getRegion_onlyNamed (start regionSize : ℕ) (offset : BitVec 16) (size : BitVec 8)
    (device : Device World) :
    Respects (OnlyNamed config packet) (getRegion config start regionSize offset size) device := by
  refine forEach_onlyNamed ?_ device
  intro i _ state
  split <;> simp [writeCommand]

theorem setRegion_onlyNamed {start regionSize : ℕ} (fits : start + regionSize ≤ 2 ^ 16)
    (named : ∀ i < regionSize, InRegions config (start + i)) (offset : BitVec 16) (size : BitVec 8)
    (device : Device World) :
    Respects (OnlyNamed config packet) (setRegion config start regionSize offset size) device := by
  refine forEach_onlyNamed ?_ device
  intro i _ state
  split
  · rename_i inside
    have region := named _ inside
    rw [← region_address fits inside, ← Nat.add_assoc] at region
    simp [readCommand, Named, region]
  · exact respects_pure _ _

theorem dynamicKeymapMacroReset_onlyNamed (device : Device World) :
    Respects (OnlyNamed config packet) (dynamicKeymapMacroReset config) device := by
  refine forEach_onlyNamed ?_ device
  intro i inside state
  have below := List.mem_range.mp inside
  have fits := config.macro_fits
  have place : config.word (config.macroAddr + i) = config.macroAddr + i := word_of_lt (by omega)
  rw [respects_eepromUpdateByte, onlyNamed_update, place]
  exact .inl (.inr (by omega))

theorem updateBacklight_onlyNamed (named : Named config packet eeconfigBacklight)
    (device : Device World) :
    Respects (OnlyNamed config packet) (eeconfigUpdateBacklightCurrent fw) device := by
  simp [eeconfigUpdateBacklightCurrent, named]

theorem updateRgblight_onlyNamed
    (named : ∀ i < 4, Named config packet (eeconfigRgblight + i)) (device : Device World) :
    Respects (OnlyNamed config packet) (eeconfigUpdateRgblightCurrent fw) device := by
  have dword : ∀ (value : BitVec 32) (state : Device World),
      Respects (OnlyNamed config packet) (eepromUpdateDword eeconfigRgblight value) state :=
    fun _ => forEach_onlyNamed fun i inside state => by
      simpa using named i (List.mem_range.mp inside)
  simp [eeconfigUpdateRgblightCurrent, dword]

theorem backlightSetValue_onlyNamed (named : Named config packet eeconfigBacklight)
    (device : Device World) :
    Respects (OnlyNamed config packet) (viaQmkBacklightSetValue config fw) device := by
  have breathes : ∀ (on : Bool) (state : Device World),
      Respects (OnlyNamed config packet) (backlightBreathing fw on) state := by
    intro on state
    rw [backlightBreathing, respects_bind]
    refine ⟨respects_ask _, ?_⟩
    split <;> simp [updateBacklight_onlyNamed named]
  rw [viaQmkBacklightSetValue, respects_bind]
  refine ⟨by simp [readCommand], ?_⟩
  cases lightingValue ((readCommand 0).value device) with
  | backlightEffect =>
    dsimp only
    split
    · simp [readCommand, breathes]
    · exact respects_pure _ _
  | backlightBrightness => simp [readCommand]
  | rgblightBrightness => exact respects_pure _ _
  | rgblightEffect => exact respects_pure _ _
  | rgblightEffectSpeed => exact respects_pure _ _
  | rgblightColor => exact respects_pure _ _
  | other => exact respects_pure _ _

theorem backlightGetValue_onlyNamed (device : Device World) :
    Respects (OnlyNamed config packet) (viaQmkBacklightGetValue config fw) device := by
  rw [viaQmkBacklightGetValue, respects_bind]
  cases lightingValue ((readCommand 0).value device) <;> simp [readCommand, writeCommand]

theorem rgblightGetValue_onlyNamed (device : Device World) :
    Respects (OnlyNamed config packet) (viaQmkRgblightGetValue fw) device := by
  rw [viaQmkRgblightGetValue, respects_bind]
  cases lightingValue ((readCommand 0).value device) <;> simp [readCommand, writeCommand]

theorem rgblightSetValue_onlyNamed (device : Device World) :
    Respects (OnlyNamed config packet) (viaQmkRgblightSetValue fw) device := by
  have switched : ∀ (mode : BitVec 8) (state : Device World), Respects (OnlyNamed config packet)
      (if mode = 0 then change fw.rgblightDisableNoeeprom else change fw.rgblightEnableNoeeprom)
      state := by
    intro mode state
    split
    · exact respects_change _
    · exact respects_change _
  rw [viaQmkRgblightSetValue, respects_bind]
  refine ⟨by simp [readCommand], ?_⟩
  cases lightingValue ((readCommand 0).value device) with
  | rgblightEffect =>
    simp only [readCommand, value_readData, respects_readData, respects_bind, respects_change,
      onlyNamed_packet, true_and]
    exact switched _ _
  | rgblightBrightness => simp [readCommand]
  | rgblightEffectSpeed => simp [readCommand]
  | rgblightColor => simp [readCommand]
  | backlightBrightness => exact respects_pure _ _
  | backlightEffect => exact respects_pure _ _
  | other => exact respects_pure _ _

theorem switchMatrixState_onlyNamed (device : Device World) :
    Respects (OnlyNamed config packet) (switchMatrixState config fw) device := by
  rw [switchMatrixState]
  split
  · refine forEach_onlyNamed ?_ device
    intro row _ state
    rw [respects_bind]
    refine ⟨respects_ask _, forEach_onlyNamed ?_ _⟩
    intro i _ state
    simp [writeCommand]
  · exact respects_pure _ _

theorem rawHidSend_onlyNamed (length : ℕ) (device : Device World) :
    Respects (OnlyNamed config packet) (rawHidSend length) device := by
  rw [rawHidSend]
  split
  · exact forEach_onlyNamed (fun i _ state => by simp) device
  · exact respects_pure _ _

theorem lightingByte_named (command : commandId (packet 0) = .lightingSetValue) :
    Named config packet eeconfigBacklight := by
  rw [Named, command]
  exact .inr rfl

theorem savedBytes_named (command : commandId (packet 0) = .lightingSave) :
    Named config packet eeconfigBacklight ∧
      ∀ i < 4, Named config packet (eeconfigRgblight + i) := by
  simp only [Named, command]
  exact ⟨.inr (.inl trivial), fun i inside => .inr (.inr ⟨by omega, by omega⟩)⟩

/-- A packet updates named addresses only, exactly when it sets no key outside of
the regions. -/
theorem receive_onlyNamed_iff (config : Config) (fw : Firmware World) (length : ℕ)
    (device : Device World) :
    Respects (OnlyNamed config device.data) (receive config fw length) device ↔
      SetsInside config device.data := by
  rw [receive, respects_bind, rawHidReceive, respects_bind, SetsInside]
  simp only [rawHidSend_onlyNamed, and_true, value_readData, after_readData, respects_readData,
    onlyNamed_packet, true_and]
  cases command : commandId (device.data 0) with
  | dynamicKeymapSetKeycode =>
    simp [readCommand, respects_setKeycode, Named, command]
  | getKeyboardValue =>
    refine iff_of_true ?_ (by simp)
    dsimp only
    rw [respects_bind]
    refine ⟨by simp [readCommand], ?_⟩
    cases keyboardValueId ((readCommand 0).value device) with
    | uptime => simp [writeDword, writeCommand]
    | layoutOptions => simp [writeDword, writeCommand, viaGetLayoutOptions_onlyNamed]
    | switchMatrixState => exact switchMatrixState_onlyNamed _
    | other => simp [rawHidReceiveKb]
  | setKeyboardValue =>
    refine iff_of_true ?_ (by simp)
    dsimp only
    rw [respects_bind]
    refine ⟨by simp [readCommand], ?_⟩
    cases keyboardValueId ((readCommand 0).value device) with
    | layoutOptions => simp [readCommand, viaSetLayoutOptions_onlyNamed command]
    | uptime => simp [rawHidReceiveKb]
    | switchMatrixState => simp [rawHidReceiveKb]
    | other => simp [rawHidReceiveKb]
  | lightingSetValue =>
    refine iff_of_true (lighting_respects ?_ ?_ trivial device) (by simp)
    · exact fun state => backlightSetValue_onlyNamed (lightingByte_named command) state
    · exact fun state => rgblightSetValue_onlyNamed state
  | lightingGetValue =>
    refine iff_of_true (lighting_respects ?_ ?_ trivial device) (by simp)
    · exact fun state => backlightGetValue_onlyNamed state
    · exact fun state => rgblightGetValue_onlyNamed state
  | lightingSave =>
    have named : Named config device.data eeconfigBacklight ∧ _ := savedBytes_named command
    refine iff_of_true (lighting_respects ?_ ?_ trivial device) (by simp)
    · exact fun state => updateBacklight_onlyNamed named.1 state
    · exact fun state => updateRgblight_onlyNamed named.2 state
  | dynamicKeymapReset => exact iff_of_true (dynamicKeymapReset_onlyNamed device) (by simp)
  | macroReset => exact iff_of_true (dynamicKeymapMacroReset_onlyNamed device) (by simp)
  | getProtocolVersion => simp [writeCommand]
  | dynamicKeymapGetKeycode => simp [readCommand, writeCommand, dynamicKeymapGetKeycode]
  | macroGetCount => simp [writeCommand]
  | macroGetBufferSize => simp [writeCommand]
  | getLayerCount => simp [writeCommand]
  | unhandled => simp
  | macroGetBuffer =>
    simp [readOffset, readCommand, dynamicKeymapMacroGetBuffer, getRegion_onlyNamed]
  | getBuffer => simp [readOffset, readCommand, dynamicKeymapGetBuffer, getRegion_onlyNamed]
  | macroSetBuffer =>
    have region : ∀ i < config.macroSize, InRegions config (config.macroAddr + i) :=
      fun i inside => .inr ⟨by omega, by omega⟩
    simp [readOffset, readCommand, dynamicKeymapMacroSetBuffer,
      setRegion_onlyNamed config.macro_fits region]
  | setBuffer =>
    have region : ∀ i < config.keymapSize, InRegions config (config.keymapAddr + i) :=
      fun i inside => .inl ⟨by omega, by omega⟩
    simp [readOffset, readCommand, dynamicKeymapSetBuffer,
      setRegion_onlyNamed (keymap_le config) region]

end Updates

section Changes

variable {config : Config} {fw : Firmware World} {Value : Type}

/-- A byte of the EEPROM changes only when it is updated. -/
abbrev UpdatesOnly (program : Via World Value) : Prop := Notes Device.eeprom Access.update program

theorem readCommand_updates (index : ℕ) : UpdatesOnly (readCommand index : Via World _) :=
  Keeps.notes fun _ => rfl

theorem writeCommand_updates (index : ℕ) (byte : BitVec 8) :
    UpdatesOnly (writeCommand index byte : Via World _) := Keeps.notes fun _ => rfl

theorem eepromUpdateByte_updates (address : ℕ) (byte : BitVec 8) :
    UpdatesOnly (eepromUpdateByte address byte : Via World _) := by
  intro device other unnamed
  apply Function.update_of_ne
  rintro rfl
  exact unnamed (List.mem_singleton_self _)

theorem readData_updates (index : ℕ) : UpdatesOnly (readData index : Via World _) :=
  Keeps.notes fun _ => rfl

theorem writeData_updates (index : ℕ) (byte : BitVec 8) :
    UpdatesOnly (writeData index byte : Via World _) := Keeps.notes fun _ => rfl

theorem eepromReadByte_updates (address : ℕ) :
    UpdatesOnly (eepromReadByte address : Via World _) := Keeps.notes fun _ => rfl

theorem ask_updates (reads : World → Value) : UpdatesOnly (ask reads) :=
  Keeps.notes fun _ => rfl

theorem change_updates (does : World → World) : UpdatesOnly (change does) :=
  Keeps.notes fun _ => rfl

theorem pure_updates (value : Value) : UpdatesOnly (pure value : Via World Value) :=
  (keeps_pure value).notes

theorem viaGetLayoutOptions_updates (left : ℕ) (value : BitVec 32) :
    UpdatesOnly (viaGetLayoutOptions config left value : Via World _) := by
  induction left generalizing value with
  | zero => exact pure_updates value
  | succ left ih => exact (eepromReadByte_updates _).bind fun _ => ih _

theorem viaSetLayoutOptions_updates (value : BitVec 32) :
    UpdatesOnly (viaSetLayoutOptions config value : Via World _) :=
  notes_forEach fun _ => eepromUpdateByte_updates _ _

theorem dynamicKeymapGetKeycode_updates (layer row column : BitVec 8) :
    UpdatesOnly (dynamicKeymapGetKeycode config layer row column : Via World _) :=
  (eepromReadByte_updates _).bind fun _ => (eepromReadByte_updates _).bind fun _ => pure_updates _

theorem dynamicKeymapSetKeycode_updates (layer row column : BitVec 8) (keycode : BitVec 16) :
    UpdatesOnly (dynamicKeymapSetKeycode config layer row column keycode : Via World _) :=
  (eepromUpdateByte_updates _ _).bind fun _ => eepromUpdateByte_updates _ _

theorem dynamicKeymapReset_updates : UpdatesOnly (dynamicKeymapReset config : Via World _) :=
  notes_forEach fun _ => notes_forEach fun _ => notes_forEach fun _ =>
    dynamicKeymapSetKeycode_updates _ _ _ _

theorem getRegion_updates (start regionSize : ℕ) (offset : BitVec 16) (size : BitVec 8) :
    UpdatesOnly (getRegion config start regionSize offset size : Via World _) := by
  apply notes_forEach
  intro i
  split
  · exact (eepromReadByte_updates _).bind fun _ => writeCommand_updates _ _
  · exact writeCommand_updates _ _

theorem setRegion_updates (start regionSize : ℕ) (offset : BitVec 16) (size : BitVec 8) :
    UpdatesOnly (setRegion config start regionSize offset size : Via World _) := by
  apply notes_forEach
  intro i
  split
  · exact (readCommand_updates _).bind fun _ => eepromUpdateByte_updates _ _
  · exact pure_updates _

theorem dynamicKeymapMacroReset_updates :
    UpdatesOnly (dynamicKeymapMacroReset config : Via World _) :=
  notes_forEach fun _ => eepromUpdateByte_updates _ _

theorem eeconfigUpdateBacklightCurrent_updates :
    UpdatesOnly (eeconfigUpdateBacklightCurrent fw) :=
  (ask_updates _).bind fun _ => eepromUpdateByte_updates _ _

theorem eeconfigUpdateRgblightCurrent_updates : UpdatesOnly (eeconfigUpdateRgblightCurrent fw) :=
  (ask_updates _).bind fun _ => (change_updates _).bind fun _ =>
    notes_forEach fun _ => eepromUpdateByte_updates _ _

theorem backlightBreathing_updates (on : Bool) : UpdatesOnly (backlightBreathing fw on) := by
  refine (ask_updates _).bind fun breathing => ?_
  split
  · exact pure_updates _
  · exact (change_updates _).bind fun _ =>
      eeconfigUpdateBacklightCurrent_updates.bind fun _ => change_updates _

theorem viaQmkBacklightGetValue_updates : UpdatesOnly (viaQmkBacklightGetValue config fw) := by
  refine (readCommand_updates 0).bind fun valueId => ?_
  split
  · exact (ask_updates _).bind fun _ => writeCommand_updates _ _
  · exact (ask_updates _).bind fun _ => writeCommand_updates _ _
  · exact pure_updates _

theorem viaQmkBacklightSetValue_updates : UpdatesOnly (viaQmkBacklightSetValue config fw) := by
  refine (readCommand_updates 0).bind fun valueId => ?_
  split
  · exact (readCommand_updates _).bind fun _ => change_updates _
  · split
    · exact (readCommand_updates _).bind fun _ => backlightBreathing_updates _
    · exact pure_updates _
  · exact pure_updates _

theorem viaQmkRgblightGetValue_updates : UpdatesOnly (viaQmkRgblightGetValue fw) := by
  refine (readCommand_updates 0).bind fun valueId => ?_
  split
  · exact (ask_updates _).bind fun _ => writeCommand_updates _ _
  · exact (ask_updates _).bind fun _ => writeCommand_updates _ _
  · exact (ask_updates _).bind fun _ => writeCommand_updates _ _
  · exact (ask_updates _).bind fun _ => (writeCommand_updates _ _).bind fun _ =>
      (ask_updates _).bind fun _ => writeCommand_updates _ _
  · exact pure_updates _

theorem viaQmkRgblightSetValue_updates : UpdatesOnly (viaQmkRgblightSetValue fw) := by
  refine (readCommand_updates 0).bind fun valueId => ?_
  split
  · exact (ask_updates _).bind fun _ => (ask_updates _).bind fun _ =>
      (readCommand_updates _).bind fun _ => change_updates _
  · refine (readCommand_updates _).bind fun _ => (change_updates _).bind fun _ =>
      (readCommand_updates _).bind fun _ => ?_
    split
    · exact change_updates _
    · exact change_updates _
  · exact (readCommand_updates _).bind fun _ => change_updates _
  · exact (readCommand_updates _).bind fun _ => (readCommand_updates _).bind fun _ =>
      (ask_updates _).bind fun _ => change_updates _
  · exact pure_updates _

theorem writeDword_updates (value : BitVec 32) : UpdatesOnly (writeDword value : Via World _) :=
  (writeCommand_updates _ _).bind fun _ => (writeCommand_updates _ _).bind fun _ =>
    (writeCommand_updates _ _).bind fun _ => writeCommand_updates _ _

theorem switchMatrixState_updates : UpdatesOnly (switchMatrixState config fw) := by
  rw [switchMatrixState]
  split
  · exact notes_forEach fun _ => (ask_updates _).bind fun _ =>
      notes_forEach fun _ => writeCommand_updates _ _
  · exact pure_updates _

theorem lighting_updates {backlight rgblight : Via World Unit} (first : UpdatesOnly backlight)
    (second : UpdatesOnly rgblight) : UpdatesOnly (lighting config backlight rgblight) := by
  have part : ∀ (option : Bool) {program : Via World Unit}, UpdatesOnly program →
      UpdatesOnly (built option program) := by
    intro option program updates
    cases option
    · exact pure_updates _
    · exact updates
  exact (part _ first).bind fun _ => (part _ second).bind fun _ =>
    (part _ (writeData_updates 0 idUnhandled)).bind fun _ => part _ (writeData_updates 0 idUnhandled)

theorem buffer_updates {body : BitVec 16 → BitVec 8 → Via World Unit}
    (copies : ∀ offset size, UpdatesOnly (body offset size)) :
    UpdatesOnly (do
      let offset ← readOffset
      let size ← readCommand 2
      body offset size) := by
  have offset : UpdatesOnly (readOffset : Via World (BitVec 16)) :=
    (readCommand_updates _).bind fun _ => (readCommand_updates _).bind fun _ => pure_updates _
  exact offset.bind fun _ => (readCommand_updates _).bind fun _ => copies _ _

theorem rawHidSend_updates (length : ℕ) : UpdatesOnly (rawHidSend length : Via World _) := by
  rw [rawHidSend]
  split
  · exact notes_forEach fun _ => (readData_updates _).bind fun _ => pure_updates _
  · exact pure_updates _

theorem receive_updates (config : Config) (fw : Firmware World) (length : ℕ) :
    UpdatesOnly (receive config fw length) := by
  refine Notes.bind ?_ fun _ => rawHidSend_updates length
  refine (readData_updates 0).bind fun command => ?_
  cases commandId command with
  | getProtocolVersion => exact (writeCommand_updates _ _).bind fun _ => writeCommand_updates _ _
  | getKeyboardValue =>
    refine (readCommand_updates 0).bind fun valueId => ?_
    cases keyboardValueId valueId with
    | uptime => exact (ask_updates _).bind fun _ => writeDword_updates _
    | layoutOptions => exact (viaGetLayoutOptions_updates _ _).bind fun _ => writeDword_updates _
    | switchMatrixState => exact switchMatrixState_updates
    | other => exact writeData_updates _ _
  | setKeyboardValue =>
    refine (readCommand_updates 0).bind fun valueId => ?_
    cases keyboardValueId valueId with
    | layoutOptions =>
      exact (readCommand_updates _).bind fun _ => (readCommand_updates _).bind fun _ =>
        (readCommand_updates _).bind fun _ => (readCommand_updates _).bind fun _ =>
          viaSetLayoutOptions_updates _
    | uptime => exact writeData_updates _ _
    | switchMatrixState => exact writeData_updates _ _
    | other => exact writeData_updates _ _
  | dynamicKeymapGetKeycode =>
    exact (readCommand_updates _).bind fun _ => (readCommand_updates _).bind fun _ =>
      (readCommand_updates _).bind fun _ => (dynamicKeymapGetKeycode_updates _ _ _).bind fun _ =>
        (writeCommand_updates _ _).bind fun _ => writeCommand_updates _ _
  | dynamicKeymapSetKeycode =>
    exact (readCommand_updates _).bind fun _ => (readCommand_updates _).bind fun _ =>
      (readCommand_updates _).bind fun _ => (readCommand_updates _).bind fun _ =>
        (readCommand_updates _).bind fun _ => dynamicKeymapSetKeycode_updates _ _ _ _
  | dynamicKeymapReset => exact dynamicKeymapReset_updates
  | lightingSetValue =>
    exact lighting_updates viaQmkBacklightSetValue_updates viaQmkRgblightSetValue_updates
  | lightingGetValue =>
    exact lighting_updates viaQmkBacklightGetValue_updates viaQmkRgblightGetValue_updates
  | lightingSave =>
    exact lighting_updates eeconfigUpdateBacklightCurrent_updates
      eeconfigUpdateRgblightCurrent_updates
  | macroGetCount => exact writeCommand_updates _ _
  | macroGetBufferSize => exact (writeCommand_updates _ _).bind fun _ => writeCommand_updates _ _
  | macroGetBuffer => exact buffer_updates fun _ _ => getRegion_updates _ _ _ _
  | macroSetBuffer => exact buffer_updates fun _ _ => setRegion_updates _ _ _ _
  | macroReset => exact dynamicKeymapMacroReset_updates
  | getLayerCount => exact writeCommand_updates _ _
  | getBuffer => exact buffer_updates fun _ _ => getRegion_updates _ _ _ _
  | setBuffer => exact buffer_updates fun _ _ => setRegion_updates _ _ _ _
  | unhandled => exact writeData_updates _ _

/-- A packet changes nothing but named addresses. -/
def Confined (config : Config) (fw : Firmware World) (length : ℕ) (device : Device World)
    (packet : ℕ → BitVec 8) : Prop :=
  ∀ address, ¬Named config packet address →
    (step config fw length device packet).eeprom address = device.eeprom address

theorem step_confined {packet : ℕ → BitVec 8} (inside : SetsInside config packet) (length : ℕ)
    (device : Device World) : Confined config fw length device packet := by
  intro address unnamed
  have respects := (receive_onlyNamed_iff config fw length { device with data := packet }).mpr inside
  exact (receive_updates config fw length).unchanged respects unnamed

/-- What setting a key leaves in the EEPROM. -/
theorem setKeycode_eeprom (config : Config) (fw : Firmware World) (length : ℕ)
    (device : Device World) (command : commandId (device.data 0) = .dynamicKeymapSetKeycode) :
    ((receive config fw length).after device).eeprom =
      let address := keyToEepromAddress config (device.data 1) (device.data 2) (device.data 3)
      Function.update (Function.update device.eeprom address (device.data 4))
        (config.word (address + 1)) (device.data 5) := by
  have sent : ∀ state : Device World, ((rawHidSend length).after state).eeprom = state.eeprom := by
    have keeps : Keeps (fun state : Device World => state.eeprom) (rawHidSend length) := by
      rw [rawHidSend]
      split
      · exact keeps_forEach fun _ _ => Keeps.bind (fun _ => rfl) fun _ _ => rfl
      · exact keeps_pure _
    exact keeps
  have high : ((device.data 4 ++ device.data 5 : BitVec 16).extractLsb' 8 8) = device.data 4 :=
    BitVec.extractLsb'_append_eq_left
  have low : ((device.data 4 ++ device.data 5 : BitVec 16).extractLsb' 0 8) = device.data 5 :=
    BitVec.extractLsb'_append_eq_right
  have written : ((rawHidReceive config fw).after device).eeprom =
      let address := keyToEepromAddress config (device.data 1) (device.data 2) (device.data 3)
      Function.update (Function.update device.eeprom address
        ((device.data 4 ++ device.data 5 : BitVec 16).extractLsb' 8 8))
        (config.word (address + 1)) ((device.data 4 ++ device.data 5 : BitVec 16).extractLsb' 0 8) := by
    rw [rawHidReceive, after_bind, value_readData, after_readData, command]
    rfl
  rw [receive, after_bind, sent, written, high, low]

theorem confined_iff (fw : Firmware World) (length : ℕ) (world : World) (packet : ℕ → BitVec 8) :
    (∀ eeprom, Confined config fw length { data := packet, eeprom := eeprom, world := world }
      packet) ↔ SetsInside config packet := by
  constructor
  · intro confined command address
    have differs : ∀ byte : BitVec 8, byte ≠ byte + 1 := by decide
    -- An EEPROM in which both bytes differ from what is written there.
    let eeprom : ℕ → BitVec 8 := fun place =>
      if place = config.word (address + 1) then packet 5 + 1 else packet 4 + 1
    have left : ((receive config fw length).after
        { data := packet, eeprom := eeprom, world := world }).eeprom =
        Function.update (Function.update eeprom address (packet 4)) (config.word (address + 1))
          (packet 5) := setKeycode_eeprom config fw length _ command
    have inside : ∀ place, (place = address ∨ place = config.word (address + 1)) →
        InRegions config place := by
      intro place written
      by_contra outside
      have unnamed : ¬Named config packet place := by simpa [Named, command] using outside
      have kept : Function.update (Function.update eeprom address (packet 4))
          (config.word (address + 1)) (packet 5) place = eeprom place := by
        rw [← left]
        exact confined eeprom place unnamed
      by_cases second : place = config.word (address + 1)
      · rw [second, Function.update_self] at kept
        exact differs _ (kept.trans (if_pos rfl))
      · rw [Function.update_of_ne second, written.resolve_right second, Function.update_self] at kept
        exact differs _ (kept.trans (if_neg (written.resolve_right second ▸ second)))
    exact ⟨inside address (.inl rfl), inside _ (.inr rfl)⟩
  · exact fun inside eeprom => step_confined inside length _

/-- A packet changes nothing but named addresses, whatever the EEPROM holds, exactly
when it sets no key outside of the regions; then runs of such packets are confined
at every step and leave the magic as it was. -/
theorem via_isolation_iff (config : Config) (fw : Firmware World) (length : ℕ) (world : World) :
    (∀ packet, (∀ eeprom, Confined config fw length
        { data := packet, eeprom := eeprom, world := world } packet) ↔ SetsInside config packet) ∧
      ∀ device packets, (∀ packet ∈ packets, SetsInside config packet) →
        Along (step config fw length) (Confined config fw length) device packets ∧
          ∀ i < 3, (run (step config fw length) device packets).eeprom (config.magicAddr + i) =
            device.eeprom (config.magicAddr + i) := by
  refine ⟨fun packet => confined_iff fw length world packet, ?_⟩
  intro device packets inside
  have along : Along (step config fw length) (Confined config fw length) device packets := by
    have each : Along (step config fw length) (fun _ packet => SetsInside config packet) device
        packets := along_of_mem inside device
    exact each.mono fun device packet sets => step_confined sets length device
  refine ⟨along, ?_⟩
  intro i small
  have keeps : ∀ state packet, state.eeprom (config.magicAddr + i) =
      device.eeprom (config.magicAddr + i) → Confined config fw length state packet →
      (step config fw length state packet).eeprom (config.magicAddr + i) =
        device.eeprom (config.magicAddr + i) := by
    intro state packet same confined
    rw [confined _ (magic_not_named config packet i small), same]
  exact run_invariant keeps rfl along

/-- `id_dynamic_keymap_set_keycode` for layer 255, row 255, column 255. -/
def farKey : ℕ → BitVec 8 := packetOf [0x05, 255, 255, 255, 0xAA, 0xBB]

/-- A key that is no key of the keyboard is written past the regions. -/
theorem set_keycode_escapes :
    ¬Confined fourKeys idle 32 { data := farKey, eeprom := fun _ => 0, world := () } farKey := by
  intro confined
  have outside : ¬Named fourKeys farKey 3997 := by
    simp [Named, InRegions, fourKeys, Config.keymapSize, farKey, packetOf, commandId]
  have kept := confined 3997 outside
  have written := setKeycode_eeprom fourKeys idle 32
    { data := farKey, eeprom := fun _ => 0, world := () } (by decide)
  rw [step, written] at kept
  exact absurd kept (by decide)

end Changes

end QmkSonix.Via
