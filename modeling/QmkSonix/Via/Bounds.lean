import QmkSonix.Via.Model

/-! Which bytes of the memory behind a packet its command touches. -/

namespace QmkSonix.Via

open QmkSonix.Lib QmkSonix.Lib.Traced

variable {World : Type}

section Primitives

variable {Value : Type} {allowed : Access → Prop} {device : Device World}

@[simp] theorem value_readData (index : ℕ) (device : Device World) :
    (readData index).value device = device.data index := rfl

@[simp] theorem after_readData (index : ℕ) (device : Device World) :
    (readData index).after device = device := rfl

@[simp] theorem respects_readData (index : ℕ) :
    Respects allowed (readData index) device ↔ allowed (.packet index) := by
  simp [Respects, Traced.trace, readData]

@[simp] theorem respects_writeData (index : ℕ) (byte : BitVec 8) :
    Respects allowed (writeData index byte) device ↔ allowed (.packet index) := by
  simp [Respects, Traced.trace, writeData]

@[simp] theorem respects_eepromReadByte (address : ℕ) :
    Respects allowed (eepromReadByte address) device := by
  simp [Respects, Traced.trace, eepromReadByte]

@[simp] theorem after_eepromReadByte (address : ℕ) (device : Device World) :
    (eepromReadByte address).after device = device := rfl

@[simp] theorem respects_eepromUpdateByte (address : ℕ) (byte : BitVec 8) :
    Respects allowed (eepromUpdateByte address byte) device ↔ allowed (.update address) := by
  simp [Respects, Traced.trace, eepromUpdateByte]

@[simp] theorem respects_ask (reads : World → Value) : Respects allowed (ask reads) device := by
  simp [Respects, Traced.trace, ask]

@[simp] theorem after_ask (reads : World → Value) (device : Device World) :
    (ask reads).after device = device := rfl

@[simp] theorem respects_change (does : World → World) :
    Respects allowed (change does) device := by
  simp [Respects, Traced.trace, change]

end Primitives

/-- An access stays below the length of the packet. -/
def InPacket (length : ℕ) : Access → Prop
  | .packet index => index < length
  | .update _ => True

@[simp] theorem inPacket_packet (length index : ℕ) :
    InPacket length (.packet index) ↔ index < length := Iff.rfl

@[simp] theorem inPacket_update (length address : ℕ) : InPacket length (.update address) := trivial

/-- The bytes of a backlight command, by its value. Its effect may need none. -/
def backlightBytes (effect : Bool) (byte : BitVec 8) : ℕ :=
  match lightingValue byte with
  | .backlightBrightness => 3
  | .backlightEffect => if effect then 3 else 2
  | _ => 2

/-- The bytes of an RGB light command, by its value. -/
def rgblightBytes (byte : BitVec 8) : ℕ :=
  match lightingValue byte with
  | .rgblightBrightness | .rgblightEffect | .rgblightEffectSpeed => 3
  | .rgblightColor => 4
  | _ => 2

/-- The bytes of a lighting command, with what is built in. -/
def lightingBytes (config : Config) (effect : Bool) (byte : BitVec 8) : ℕ :=
  max (if config.backlight then backlightBytes effect byte else 1)
    (if config.rgblight then rgblightBytes byte else 1)

/-- The bytes that the fixed fields of a packet's command take. -/
def fixedBytes (config : Config) (packet : ℕ → BitVec 8) : ℕ :=
  match commandId (packet 0) with
  | .getProtocolVersion => 3
  | .getKeyboardValue =>
    match keyboardValueId (packet 1) with
    | .uptime | .layoutOptions => 6
    | .switchMatrixState =>
      if (config.matrixCols / 8 + 1) * config.matrixRows ≤ 28 then
        2 + config.matrixRows * config.rowBytes
      else 2
    | .other => 2
  | .setKeyboardValue => if keyboardValueId (packet 1) = .layoutOptions then 6 else 2
  | .dynamicKeymapGetKeycode | .dynamicKeymapSetKeycode => 6
  | .lightingSetValue => lightingBytes config config.breathing (packet 1)
  | .lightingGetValue => lightingBytes config true (packet 1)
  | .macroGetCount | .getLayerCount => 2
  | .macroGetBufferSize => 3
  | .macroGetBuffer | .macroSetBuffer | .getBuffer | .setBuffer => 4
  | .dynamicKeymapReset | .lightingSave | .macroReset | .unhandled => 1

/-- The offset and the size of a buffer command. -/
def packetOffset (packet : ℕ → BitVec 8) : BitVec 16 := packet 1 ++ packet 2

def packetSize (packet : ℕ → BitVec 8) : ℕ := (packet 3).toNat

/-- The packet holds the bytes that a buffer command copies: all of its size into
the packet, and from it those that fall into the region. -/
def BufferFits (config : Config) (length : ℕ) (packet : ℕ → BitVec 8) : Prop :=
  match commandId (packet 0) with
  | .macroGetBuffer | .getBuffer => 4 + packetSize packet ≤ length
  | .macroSetBuffer => ∀ i < packetSize packet,
      config.word ((packetOffset packet).toNat + i) < config.macroSize → 4 + i < length
  | .setBuffer => ∀ i < packetSize packet,
      config.word ((packetOffset packet).toNat + i) < config.keymapSize → 4 + i < length
  | _ => True

section Functions

variable {config : Config} {fw : Firmware World} {length : ℕ} {device : Device World}

theorem respects_getRegion (start regionSize : ℕ) (offset : BitVec 16) (size : BitVec 8)
    (device : Device World) :
    Respects (InPacket length) (getRegion config start regionSize offset size) device ↔
      ∀ i < size.toNat, 4 + i < length := by
  rw [getRegion, respects_forEach fun i => 4 + i < length]
  · simp
  · intro i _ state
    split <;> simp [writeCommand, ← Nat.add_assoc]

theorem respects_setRegion (start regionSize : ℕ) (offset : BitVec 16) (size : BitVec 8)
    (device : Device World) :
    Respects (InPacket length) (setRegion config start regionSize offset size) device ↔
      ∀ i < size.toNat, config.word (offset.toNat + i) < regionSize → 4 + i < length := by
  rw [setRegion, respects_forEach fun i =>
    config.word (offset.toNat + i) < regionSize → 4 + i < length]
  · simp
  · intro i _ state
    split
    · rename_i inside
      simp [readCommand, ← Nat.add_assoc, inside]
    · rename_i outside
      simp [outside]

/-- A loop that stays in the packet whatever its state. -/
theorem forEach_inPacket {elements : List ℕ} {body : ℕ → Via World Unit}
    (each : ∀ i state, Respects (InPacket length) (body i) state) (device : Device World) :
    Respects (InPacket length) (forEach elements body) device :=
  (respects_forEach (fun _ => True) (fun i _ state => by simp [each i state]) device).mpr (by simp)

theorem update_inPacket (address : ℕ) (byte : BitVec 8) (device : Device World) :
    Respects (InPacket length) (eepromUpdateByte address byte) device := by
  simp

theorem viaGetLayoutOptions_inPacket (left : ℕ) (value : BitVec 32) (device : Device World) :
    Respects (InPacket length) (viaGetLayoutOptions config left value) device := by
  induction left generalizing value with
  | zero => simp [viaGetLayoutOptions]
  | succ left ih => simp [viaGetLayoutOptions, ih]

theorem viaSetLayoutOptions_inPacket (value : BitVec 32) (device : Device World) :
    Respects (InPacket length) (viaSetLayoutOptions config value) device :=
  forEach_inPacket (fun _ => update_inPacket _ _) device

theorem dynamicKeymapSetKeycode_inPacket (layer row column : BitVec 8) (keycode : BitVec 16)
    (device : Device World) :
    Respects (InPacket length) (dynamicKeymapSetKeycode config layer row column keycode) device := by
  simp [dynamicKeymapSetKeycode]

theorem dynamicKeymapReset_inPacket (device : Device World) :
    Respects (InPacket length) (dynamicKeymapReset config) device :=
  forEach_inPacket (fun _ => forEach_inPacket fun _ => forEach_inPacket fun _ =>
    dynamicKeymapSetKeycode_inPacket _ _ _ _) device

theorem dynamicKeymapMacroReset_inPacket (device : Device World) :
    Respects (InPacket length) (dynamicKeymapMacroReset config) device :=
  forEach_inPacket (fun _ => update_inPacket _ _) device

theorem eeconfigUpdateBacklightCurrent_inPacket (device : Device World) :
    Respects (InPacket length) (eeconfigUpdateBacklightCurrent fw) device := by
  simp [eeconfigUpdateBacklightCurrent]

theorem eeconfigUpdateRgblightCurrent_inPacket (device : Device World) :
    Respects (InPacket length) (eeconfigUpdateRgblightCurrent fw) device := by
  have dword : ∀ (value : BitVec 32) (state : Device World),
      Respects (InPacket length) (eepromUpdateDword eeconfigRgblight value) state :=
    fun _ => forEach_inPacket fun _ => update_inPacket _ _
  simp [eeconfigUpdateRgblightCurrent, dword]

theorem backlightBreathing_inPacket (on : Bool) (device : Device World) :
    Respects (InPacket length) (backlightBreathing fw on) device := by
  rw [backlightBreathing, respects_bind]
  refine ⟨respects_ask _, ?_⟩
  split <;> simp [eeconfigUpdateBacklightCurrent_inPacket]

theorem rawHidSend_inPacket (device : Device World) :
    Respects (InPacket length) (rawHidSend length) device := by
  rw [rawHidSend]
  split
  · rw [respects_forEach fun i => i < length]
    · simp
    · intro i _ state
      simp
  · exact respects_pure _ _

theorem writeDword_inPacket (value : BitVec 32) (device : Device World) :
    Respects (InPacket length) (writeDword value) device ↔ 6 ≤ length := by
  simp [writeDword, writeCommand]
  omega

theorem respects_switchMatrixState (device : Device World) :
    Respects (InPacket length) (switchMatrixState config fw) device ↔
      ((config.matrixCols / 8 + 1) * config.matrixRows ≤ 28 →
        config.matrixRows = 0 ∨ 2 + config.matrixRows * config.rowBytes ≤ length) := by
  rw [switchMatrixState]
  split
  · rename_i small
    rw [respects_forEach fun row => ∀ i < config.rowBytes, 2 + row * config.rowBytes + i < length]
    · simp only [List.mem_range, small, forall_const]
      constructor
      · intro below
        rcases Nat.eq_zero_or_pos config.matrixRows with none | some
        · exact .inl none
        · have positive : 0 < config.rowBytes := Nat.succ_pos _
          have last := below (config.matrixRows - 1) (by omega) (config.rowBytes - 1) (by omega)
          have whole := Nat.sub_one_mul config.matrixRows config.rowBytes
          have room := Nat.le_mul_of_pos_left config.rowBytes some
          exact .inr (by omega)
      · rintro (none | room) row inside i within
        · omega
        · have rows := Nat.mul_le_mul_right config.rowBytes (Nat.succ_le_of_lt inside)
          rw [Nat.succ_mul] at rows
          omega
    · intro row _ state
      rw [respects_bind, respects_forEach fun i => 2 + row * config.rowBytes + i < length]
      · simp
      · intro i _ state
        simp [writeCommand, ← Nat.add_assoc]
  · rename_i large
    simp [large]

/-- The lighting commands find the value byte as it came. -/
theorem viaQmkBacklightGetValue_keeps (config : Config) (fw : Firmware World)
    (device : Device World) :
    ((viaQmkBacklightGetValue config fw).after device).data 1 = device.data 1 := by
  have written : ∀ (byte : BitVec 8) (state : Device World),
      ((writeCommand 1 byte).after state).data 1 = state.data 1 := by
    intro byte state
    have apart : (1 : ℕ) ≠ 1 + 1 := by decide
    exact Function.update_of_ne apart byte state.data
  rw [viaQmkBacklightGetValue, after_bind]
  cases lightingValue ((readCommand 0).value device) <;>
    simp [written, readCommand]

theorem viaQmkBacklightSetValue_keeps (config : Config) (fw : Firmware World)
    (device : Device World) :
    ((viaQmkBacklightSetValue config fw).after device).data 1 = device.data 1 := by
  have updated : ∀ (on : Bool) (state : Device World),
      ((backlightBreathing fw on).after state).data = state.data := by
    intro on state
    rw [backlightBreathing, after_bind]
    split <;> rfl
  rw [viaQmkBacklightSetValue, after_bind]
  cases lightingValue ((readCommand 0).value device) with
  | backlightEffect =>
    dsimp only
    split
    · simp [updated, readCommand]
    · rfl
  | backlightBrightness => rfl
  | rgblightBrightness => rfl
  | rgblightEffect => rfl
  | rgblightEffectSpeed => rfl
  | rgblightColor => rfl
  | other => rfl

theorem respects_backlightGetValue (config : Config) (fw : Firmware World)
    (device : Device World) :
    Respects (InPacket length) (viaQmkBacklightGetValue config fw) device ↔
      backlightBytes true (device.data 1) ≤ length := by
  rw [viaQmkBacklightGetValue, respects_bind, backlightBytes]
  cases found : lightingValue (device.data 1) <;>
    simp [readCommand, writeCommand, found, Nat.succ_le_iff] <;> omega

theorem respects_backlightSetValue (config : Config) (fw : Firmware World)
    (device : Device World) :
    Respects (InPacket length) (viaQmkBacklightSetValue config fw) device ↔
      backlightBytes config.breathing (device.data 1) ≤ length := by
  rw [viaQmkBacklightSetValue, respects_bind, backlightBytes]
  cases found : lightingValue (device.data 1) with
  | backlightEffect =>
    cases breathes : config.breathing with
    | true =>
      simp [readCommand, found, breathes, backlightBreathing_inPacket]
      omega
    | false => simp [readCommand, found, breathes, Nat.succ_le_iff]
  | backlightBrightness =>
    simp [readCommand, found]
    omega
  | rgblightBrightness => simp [readCommand, found, Nat.succ_le_iff]
  | rgblightEffect => simp [readCommand, found, Nat.succ_le_iff]
  | rgblightEffectSpeed => simp [readCommand, found, Nat.succ_le_iff]
  | rgblightColor => simp [readCommand, found, Nat.succ_le_iff]
  | other => simp [readCommand, found, Nat.succ_le_iff]

theorem respects_rgblightGetValue (fw : Firmware World) (device : Device World) :
    Respects (InPacket length) (viaQmkRgblightGetValue fw) device ↔
      rgblightBytes (device.data 1) ≤ length := by
  rw [viaQmkRgblightGetValue, respects_bind, rgblightBytes]
  cases found : lightingValue (device.data 1) <;>
    simp [readCommand, writeCommand, found, Nat.succ_le_iff] <;> omega

theorem respects_rgblightSetValue (fw : Firmware World) (device : Device World) :
    Respects (InPacket length) (viaQmkRgblightSetValue fw) device ↔
      rgblightBytes (device.data 1) ≤ length := by
  have switched : ∀ (mode : BitVec 8) (state : Device World), Respects (InPacket length)
      (if mode = 0 then change fw.rgblightDisableNoeeprom else change fw.rgblightEnableNoeeprom)
      state := by
    intro mode state
    split
    · exact respects_change _
    · exact respects_change _
  rw [viaQmkRgblightSetValue, respects_bind, rgblightBytes]
  cases found : lightingValue (device.data 1) with
  | rgblightEffect =>
    simp only [readCommand, value_readData, after_readData, respects_readData, inPacket_packet,
      found, respects_bind, respects_change, Nat.reduceAdd, true_and]
    constructor
    · intro touched
      omega
    · intro room
      exact ⟨by omega, room, room, switched _ _⟩
  | rgblightBrightness => simp [readCommand, found]; omega
  | rgblightEffectSpeed => simp [readCommand, found]; omega
  | rgblightColor => simp [readCommand, found]; omega
  | backlightBrightness => simp [readCommand, found, Nat.succ_le_iff]
  | backlightEffect => simp [readCommand, found, Nat.succ_le_iff]
  | other => simp [readCommand, found, Nat.succ_le_iff]

/-- Whatever lighting is built in stays in the packet that its bytes fit in. -/
theorem respects_lighting (config : Config) {backlight rgblight : Via World Unit} {first second : ℕ}
    {device : Device World} (firstSome : 0 < first) (secondSome : 0 < second)
    (backlightFits : Respects (InPacket length) backlight device ↔ first ≤ length)
    (rgblightFits : ∀ state : Device World, state.data 1 = device.data 1 →
      (Respects (InPacket length) rgblight state ↔ second ≤ length))
    (keeps : (backlight.after device).data 1 = device.data 1) :
    0 < length ∧ Respects (InPacket length) (lighting config backlight rgblight) device ↔
      max (if config.backlight then first else 1) (if config.rgblight then second else 1) ≤
        length := by
  rw [lighting]
  cases config.backlight <;> cases config.rgblight <;> cases config.customLighting <;>
    simp [built, rawHidReceiveKb, backlightFits, rgblightFits device rfl, rgblightFits _ keeps] <;>
    omega

/-- Lighting stays within what its parts and the command byte stay in. -/
theorem lighting_respects {allowed : Access → Prop} {backlight rgblight : Via World Unit}
    (first : ∀ device, Respects allowed backlight device)
    (second : ∀ device, Respects allowed rgblight device) (id : allowed (.packet 0))
    (device : Device World) : Respects allowed (lighting config backlight rgblight) device := by
  have part : ∀ (option : Bool) {program : Via World Unit},
      (∀ device, Respects allowed program device) →
      ∀ device, Respects allowed (built option program) device := by
    intro option program stays device
    cases option
    · exact respects_pure _ _
    · exact stays device
  have unhandled : ∀ device : Device World, Respects allowed (writeData 0 idUnhandled) device :=
    fun device => (respects_writeData 0 idUnhandled).mpr id
  rw [lighting, respects_bind, respects_bind, respects_bind]
  exact ⟨part _ first _, part _ second _, part _ unhandled _, part _ unhandled _⟩

theorem backlightBytes_pos (effect : Bool) (byte : BitVec 8) : 0 < backlightBytes effect byte := by
  unfold backlightBytes
  split <;> [decide; (split <;> decide); decide]

theorem rgblightBytes_pos (byte : BitVec 8) : 0 < rgblightBytes byte := by
  unfold rgblightBytes
  split <;> decide

/-- The fixed fields of a command with four arguments. -/
theorem respects_arguments {Value : Type} (next : BitVec 8 → BitVec 8 → BitVec 8 → Via World Value)
    (device : Device World) :
    Respects (InPacket length) (do
        let first ← readCommand 0
        let second ← readCommand 1
        let third ← readCommand 2
        next first second third) device ↔
      3 < length ∧
        Respects (InPacket length) (next (device.data 1) (device.data 2) (device.data 3)) device := by
  simp only [readCommand, Nat.reduceAdd, respects_bind, respects_readData, value_readData,
    after_readData, inPacket_packet]
  exact ⟨fun fits => fits.2.2, fun fits => ⟨by omega, by omega, fits⟩⟩

theorem respects_buffer (body : BitVec 16 → BitVec 8 → Via World Unit) (device : Device World) :
    Respects (InPacket length) (do
        let offset ← readOffset
        let size ← readCommand 2
        body offset size) device ↔
      3 < length ∧
        Respects (InPacket length) (body (packetOffset device.data) (device.data 3)) device := by
  have offset : (readOffset : Via World _).value device = packetOffset device.data := rfl
  have stays : (readOffset : Via World _).after device = device := rfl
  rw [respects_bind, respects_bind, offset, stays]
  simp only [readOffset, readCommand, Nat.reduceAdd, respects_bind, respects_pure, respects_readData,
    value_readData, after_readData, inPacket_packet, and_true]
  exact ⟨fun fits => fits.2, fun fits => ⟨by omega, fits⟩⟩

theorem respects_getBuffer (start regionSize : ℕ) (device : Device World) :
    0 < length ∧ Respects (InPacket length) (do
        let offset ← readOffset
        let size ← readCommand 2
        getRegion config start regionSize offset size) device ↔
      4 ≤ length ∧ 4 + packetSize device.data ≤ length := by
  rw [respects_buffer, respects_getRegion, packetSize]
  constructor
  · rintro ⟨-, fields, below⟩
    refine ⟨fields, ?_⟩
    by_contra short
    have last := below (length - 4) (by omega)
    omega
  · rintro ⟨fields, room⟩
    exact ⟨by omega, fields, fun i inside => by omega⟩

theorem respects_setBuffer (start regionSize : ℕ) (device : Device World) :
    0 < length ∧ Respects (InPacket length) (do
        let offset ← readOffset
        let size ← readCommand 2
        setRegion config start regionSize offset size) device ↔
      4 ≤ length ∧ ∀ i < packetSize device.data,
        config.word ((packetOffset device.data).toNat + i) < regionSize → 4 + i < length := by
  rw [respects_buffer, respects_setRegion, packetSize]
  exact ⟨fun fits => fits.2, fun fits => ⟨by omega, fits⟩⟩

/-- A packet touches only its own bytes exactly when it holds the fixed fields of its
command and what a buffer command copies. -/
theorem packet_bounds_iff (config : Config) (fw : Firmware World) (length : ℕ)
    (device : Device World) :
    Respects (InPacket length) (receive config fw length) device ↔
      fixedBytes config device.data ≤ length ∧ BufferFits config length device.data := by
  rw [receive, respects_bind, rawHidReceive, respects_bind, fixedBytes, BufferFits]
  simp only [rawHidSend_inPacket, and_true, value_readData, after_readData, respects_readData,
    inPacket_packet]
  cases commandId (device.data 0) with
  | getProtocolVersion => simp [writeCommand]; omega
  | getKeyboardValue =>
    dsimp only
    rw [respects_bind]
    simp only [readCommand, Nat.add_zero, value_readData, after_readData, respects_readData,
      inPacket_packet, and_true]
    cases keyboardValueId (device.data 1) with
    | uptime => simp [writeDword_inPacket]; omega
    | layoutOptions => simp [writeDword_inPacket, viaGetLayoutOptions_inPacket]; omega
    | switchMatrixState =>
      dsimp only
      rw [respects_switchMatrixState]
      split
      · rename_i small
        simp only [small, forall_const]
        constructor
        · rintro ⟨-, second, none | room⟩
          · rw [none]
            omega
          · exact room
        · exact fun room => ⟨by omega, by omega, .inr room⟩
      · rename_i large
        simp only [large, false_implies, and_true]
        omega
    | other => simp [rawHidReceiveKb]; omega
  | setKeyboardValue =>
    dsimp only
    rw [respects_bind]
    simp only [readCommand, Nat.add_zero, value_readData, after_readData, respects_readData,
      inPacket_packet, and_true]
    cases keyboardValueId (device.data 1) with
    | layoutOptions => simp [viaSetLayoutOptions_inPacket]; omega
    | uptime => simp [rawHidReceiveKb]; omega
    | switchMatrixState => simp [rawHidReceiveKb]; omega
    | other => simp [rawHidReceiveKb]; omega
  | dynamicKeymapGetKeycode =>
    dsimp only
    rw [respects_arguments]
    simp [dynamicKeymapGetKeycode, writeCommand]
    omega
  | dynamicKeymapSetKeycode =>
    dsimp only
    rw [respects_arguments]
    simp [readCommand, dynamicKeymapSetKeycode_inPacket]
    omega
  | dynamicKeymapReset => simp [dynamicKeymapReset_inPacket]; omega
  | lightingSetValue =>
    rw [and_true]
    exact respects_lighting config (backlightBytes_pos config.breathing _) (rgblightBytes_pos _)
      (respects_backlightSetValue config fw device)
      (fun state same => by rw [respects_rgblightSetValue, same])
      (viaQmkBacklightSetValue_keeps config fw device)
  | lightingGetValue =>
    rw [and_true]
    exact respects_lighting config (backlightBytes_pos true _) (rgblightBytes_pos _)
      (respects_backlightGetValue config fw device)
      (fun state same => by rw [respects_rgblightGetValue, same])
      (viaQmkBacklightGetValue_keeps config fw device)
  | lightingSave =>
    rw [and_true]
    refine ⟨fun fits => fits.1, fun fits => ⟨fits, lighting_respects ?_ ?_ fits device⟩⟩
    · exact eeconfigUpdateBacklightCurrent_inPacket
    · exact eeconfigUpdateRgblightCurrent_inPacket
  | macroGetCount => simp [writeCommand]; omega
  | macroGetBufferSize => simp [writeCommand]; omega
  | macroGetBuffer => exact respects_getBuffer config.macroAddr config.macroSize device
  | macroSetBuffer => exact respects_setBuffer config.macroAddr config.macroSize device
  | macroReset => simp [dynamicKeymapMacroReset_inPacket]; omega
  | getLayerCount => simp [writeCommand]; omega
  | getBuffer => exact respects_getBuffer config.keymapAddr config.keymapSize device
  | setBuffer => exact respects_setBuffer config.keymapAddr config.keymapSize device
  | unhandled => simp; omega

theorem lightingBytes_le (config : Config) (effect : Bool) (byte : BitVec 8) :
    lightingBytes config effect byte ≤ 4 := by
  have first : backlightBytes effect byte ≤ 4 := by
    unfold backlightBytes
    split <;> [decide; (split <;> decide); decide]
  have second : rgblightBytes byte ≤ 4 := by
    unfold rgblightBytes
    split <;> decide
  unfold lightingBytes
  split <;> split <;> omega

/-- In a packet of 32 bytes only the buffer commands can go too far. -/
theorem fixedBytes_le (config : Config) (packet : ℕ → BitVec 8) :
    fixedBytes config packet ≤ 32 := by
  have lit := lightingBytes_le config
  have cols := config.cols_fit
  have bytes : config.rowBytes ≤ config.matrixCols / 8 + 1 := by
    unfold Config.rowBytes
    split <;> split <;> split <;> omega
  have rows := Nat.mul_le_mul_left config.matrixRows bytes
  rw [Nat.mul_comm _ (config.matrixCols / 8 + 1)] at rows
  unfold fixedBytes
  split
  all_goals try omega
  · split <;> try omega
    split <;> omega
  · split <;> omega
  · exact (lit _ _).trans (by decide)
  · exact (lit _ _).trans (by decide)

end Functions

section Overrun

/-- A keyboard of four keys and two layers, with nothing built in but VIA. -/
def fourKeys : Config where
  matrixRows := 2
  matrixCols := 2
  layerCount := 2
  macroCount := 16
  magicAddr := 423
  layoutOptionsSize := 1
  keymapAddr := 427
  macroAddr := 443
  macroSize := 581
  wordBits := 32
  keymaps _ _ _ := 0
  backlight := false
  breathing := false
  backlightLevels := 0
  rgblight := false
  customLighting := false
  rows_fit := by decide
  cols_fit := by decide
  words := by decide
  eeconfig_fits := by decide
  options_fit := by decide
  keymap_fits := by decide
  macro_fits := by decide

/-- Nothing else runs. -/
def idle : Firmware Unit where
  timerRead32 _ := 0
  matrixGetRow _ _ := 0
  getBacklightLevel _ := 0
  backlightLevelNoeeprom _ world := world
  isBacklightBreathing _ := false
  setBreathing _ world := world
  breathingEnable _ world := world
  backlightRaw _ := 0
  rgblightGetVal _ := 0
  rgblightGetMode _ := 0
  rgblightGetSpeed _ := 0
  rgblightGetHue _ := 0
  rgblightGetSat _ := 0
  rgblightSethsvNoeeprom _ _ _ world := world
  rgblightModeNoeeprom _ world := world
  rgblightDisableNoeeprom world := world
  rgblightEnableNoeeprom world := world
  rgblightSetSpeedNoeeprom _ world := world
  rgblightCheckConfig world := world
  rgblightRaw _ := 0

/-- A packet, with zeros behind its first bytes. -/
def packetOf (bytes : List (BitVec 8)) : ℕ → BitVec 8 := fun i => bytes.getD i 0

/-- `id_dynamic_keymap_get_buffer` with offset 0 and size 29. -/
def longGet : Device Unit := { data := packetOf [0x12, 0, 0, 29], eeprom := fun _ => 0, world := () }

/-- The last byte is written behind the packet of 32 bytes. -/
theorem get_buffer_overruns : ¬Respects (InPacket 32) (receive fourKeys idle 32) longGet := by
  intro respects
  rw [receive, respects_bind, rawHidReceive, respects_bind] at respects
  obtain ⟨-, room⟩ := (respects_getBuffer fourKeys.keymapAddr fourKeys.keymapSize longGet).mp
    ⟨by decide, respects.1.2⟩
  exact absurd room (by decide)

end Overrun

end QmkSonix.Via
