import QmkSonix.OpenRgb.Model

/-! Which packets of OpenRGB stay inside of the packet, the buffer and the colour table. -/

namespace QmkSonix.OpenRgb

open QmkSonix.Lib QmkSonix.Lib.Traced

/-- An access is inside of what it accesses. -/
def Inside (config : Config) : Access → Prop
  | .packet index => index < rawEpsize
  | .buffer index => index < rawEpsize
  | .colour index => index < config.driverLedTotal

/-- The counts of a packet fit its size and that of the answer, and the LEDs that are set
are there. -/
def Fits (config : Config) (data : ℕ → BitVec 8) (command : CommandId) : Prop :=
  match command with
  | .getLedInfo => (data 2).toNat ≤ 9
  | .directModeSetLeds => (data 1).toNat ≤ 15 ∧ (config.unbuffered = false →
      ∀ i < (data 1).toNat, (data (i * 4 + 2)).toNat < config.driverLedTotal)
  | _ => True

variable {World : Type} {config : Config} {fw : Firmware World} {data : ℕ → BitVec 8}
  {device : Device World}

section Primitives

variable {allowed : Access → Prop}

@[simp] theorem value_readData (index : ℕ) :
    (readData data index).value device = data index := rfl

@[simp] theorem after_readData (index : ℕ) :
    (readData data index).after device = device := rfl

@[simp] theorem respects_readData (index : ℕ) :
    Respects allowed (readData data index) device ↔ allowed (.packet index) := by
  simp [Respects, Traced.trace, readData]

@[simp] theorem respects_writeBuffer (index : ℕ) (value : BitVec 8) :
    Respects allowed (writeBuffer index value) device ↔ allowed (.buffer index) := by
  simp [Respects, Traced.trace, writeBuffer]

@[simp] theorem respects_readColour (index : ℕ) :
    Respects allowed (readColour index) device ↔ allowed (.colour index) := by
  simp [Respects, Traced.trace, readColour]

@[simp] theorem respects_writeColour (index : ℕ) (colour : Rgb) :
    Respects allowed (writeColour index colour) device ↔ allowed (.colour index) := by
  simp [Respects, Traced.trace, writeColour]

@[simp] theorem respects_ask {Value : Type} (reads : World → Value) :
    Respects allowed (ask reads) device := by
  simp [Respects, Traced.trace, ask]

@[simp] theorem respects_change (does : World → World) :
    Respects allowed (change does) device := by
  simp [Respects, Traced.trace, change]

end Primitives

@[simp] theorem inside_packet (index : ℕ) :
    Inside config (.packet index) ↔ index < 64 := Iff.rfl

@[simp] theorem inside_buffer (index : ℕ) :
    Inside config (.buffer index) ↔ index < 64 := Iff.rfl

@[simp] theorem inside_colour (index : ℕ) :
    Inside config (.colour index) ↔ index < config.driverLedTotal := Iff.rfl

/-! ### The commands that no packet can break -/

/-- A string ends at its limit. -/
theorem writeString_inside {limit : ℕ} (fits : limit ≤ 64) (currentByte : ℕ)
    (string : List (BitVec 8)) (device : Device World) :
    Respects (Inside config) (writeString limit currentByte string) device ∧
      (writeString limit currentByte string).value device ≤ max currentByte limit := by
  induction string generalizing currentByte device with
  | nil => exact ⟨respects_pure _ _, Nat.le_max_left _ _⟩
  | cons char rest ih =>
    rw [writeString]
    split
    · rename_i below
      obtain ⟨inside, ends⟩ := ih (currentByte + 1) ((writeBuffer currentByte char).after device)
      refine ⟨?_, ?_⟩
      · simp only [respects_bind, respects_writeBuffer, inside_buffer]
        exact ⟨by omega, inside⟩
      · rw [value_bind]
        omega
    · exact ⟨respects_pure _ _, Nat.le_max_left _ _⟩

theorem getQmkVersion_inside (device : Device World) :
    Respects (Inside config) (openrgbGetQmkVersion config) device := by
  simp [openrgbGetQmkVersion, (writeString_inside _ _ _ _).1, rawEpsize]

theorem getDeviceInfo_inside (device : Device World) :
    Respects (Inside config) (openrgbGetDeviceInfo config) device := by
  have product := fun device : Device World =>
    @writeString_inside World config ((rawEpsize - 2) / 2) (by decide) 3
      config.product device
  simp only [openrgbGetDeviceInfo, respects_bind, respects_writeBuffer, inside_buffer,
    respects_pure, and_true]
  refine ⟨by decide, by decide, by decide, (product _).1, ?_, ?_⟩
  · have ends := (product ((writeBuffer 2 (BitVec.ofNat 8 (config.matrixCols *
      config.matrixRows))).after ((writeBuffer 1 (BitVec.ofNat 8 config.driverLedTotal)).after
        ((writeBuffer 0 3).after device)))).2
    exact Nat.lt_of_le_of_lt ends (by decide)
  · exact (writeString_inside (by decide) _ _ _).1

theorem getModeInfo_inside (device : Device World) :
    Respects (Inside config) (openrgbGetModeInfo fw) device := by
  simp [openrgbGetModeInfo]

theorem effectsIndexes_length (config : Config) : (effectsIndexes config).length ≤ 41 := by
  have most := List.length_filter_le config.enabled (List.range' 2 40)
  rw [List.length_range'] at most
  exact Nat.succ_le_succ most

theorem getEnabledModes_inside (device : Device World) :
    Respects (Inside config) (openrgbGetEnabledModes config) device := by
  have few := effectsIndexes_length config
  simp only [openrgbGetEnabledModes, respects_bind, respects_writeBuffer, inside_buffer]
  refine ⟨by decide, ?_, by omega⟩
  rw [respects_forEach fun i => i + 1 < 64]
  · intro i member
    have below := List.mem_range.mp member
    omega
  · intro i _ state
    simp

theorem setMode_inside (device : Device World) :
    Respects (Inside config) (openrgbSetMode config fw data) device := by
  simp only [openrgbSetMode, respects_bind, respects_readData, inside_packet, value_readData,
    after_readData, respects_writeBuffer, inside_buffer]
  refine ⟨by decide, by decide, by decide, by decide, by decide, by decide, by decide, ?_⟩
  by_cases beyond : config.rgbMatrixEffectMax ≤ (data 4).toNat
  · simp [beyond, rawEpsize]
  · by_cases saves : data 6 = 1
    · simp only [beyond, saves, ↓reduceIte, respects_bind, respects_change, respects_writeBuffer,
        inside_buffer, true_and]
      decide
    · simp only [beyond, saves, ↓reduceIte, respects_bind, respects_change, respects_writeBuffer,
        inside_buffer, true_and]
      decide

theorem setSingleLed_inside (device : Device World) :
    Respects (Inside config) (openrgbDirectModeSetSingleLed config fw data) device := by
  simp only [openrgbDirectModeSetSingleLed, respects_bind, respects_readData, inside_packet,
    value_readData, after_readData, respects_writeBuffer, inside_buffer]
  refine ⟨by decide, by decide, by decide, by decide, by decide, ?_⟩
  by_cases beyond : config.driverLedTotal ≤ (data 1).toNat
  · simp [beyond, rawEpsize]
  · cases direct : config.unbuffered with
    | true => simp [beyond, rawEpsize]
    | false => simp [beyond, rawEpsize, Nat.lt_of_not_le beyond]

theorem answer_inside (device : Device World) :
    Respects (Inside config) (answer fw) device := by
  simp only [answer, respects_bind, respects_writeBuffer, inside_buffer]
  refine ⟨by decide, ?_, ?_⟩
  · intro access member
    obtain ⟨i, below, rfl⟩ := List.mem_map.mp member
    exact List.mem_range.mp below
  · rw [respects_forEach fun i => i < 64]
    · intro i member
      exact List.mem_range.mp member
    · intro i _ state
      simp

/-! ### The commands with counts -/

/-- A round of the loop over LEDs writes its last byte seven behind its start. -/
theorem ledInfo_inside_iff (firstLed : BitVec 8) (i : ℕ) (device : Device World) :
    Respects (Inside config) (ledInfo config firstLed i) device ↔ i * 7 % 256 + 7 < 64 := by
  simp only [ledInfo]
  generalize i * 7 % 256 = dataIdx
  by_cases beyond : config.driverLedTotal ≤ (firstLed + BitVec.ofNat 8 i).toNat
  · simp only [beyond, ↓reduceIte, respects_bind, respects_writeBuffer, inside_buffer]
    omega
  · have there := Nat.lt_of_not_le beyond
    cases direct : config.unbuffered with
    | true =>
      simp only [beyond, ↓reduceIte, respects_bind, respects_writeBuffer, inside_buffer]
      omega
    | false =>
      simp only [beyond, Bool.false_eq_true, ↓reduceIte, respects_bind, respects_writeBuffer,
        respects_readColour, inside_buffer, inside_colour, there, true_and]
      omega

theorem getLedInfo_inside_iff (device : Device World) :
    Respects (Inside config) (openrgbGetLedInfo config data) device ↔ (data 2).toNat ≤ 9 := by
  simp only [openrgbGetLedInfo, respects_bind, respects_readData, inside_packet, value_readData,
    after_readData, respects_writeBuffer, inside_buffer]
  rw [respects_forEach fun i => i * 7 % 256 + 7 < 64]
  · simp only [List.mem_range]
    constructor
    · rintro ⟨-, -, -, inside⟩
      by_contra many
      have tenth := inside 9 (by omega)
      omega
    · intro few
      refine ⟨by decide, by decide, by decide, fun i below => ?_⟩
      rw [Nat.mod_eq_of_lt (by omega)]
      omega
  · intro i _ state
    exact ledInfo_inside_iff _ i state

/-- A round of the loop that sets LEDs reads its last byte five behind its start. -/
theorem setLed_inside_iff (i : ℕ) (device : Device World) :
    Respects (Inside config) (setLed config fw data i) device ↔
      (if config.unbuffered then i * 4 + 5 < 64
      else i * 4 % 256 + 5 < 64 ∧ (data (i * 4 % 256 + 2)).toNat < config.driverLedTotal) := by
  rw [setLed]
  cases direct : config.unbuffered with
  | true =>
    simp only [↓reduceIte, respects_bind, respects_readData, inside_packet, respects_change,
      and_true]
    omega
  | false =>
    simp only [Bool.false_eq_true, ↓reduceIte, respects_bind, respects_readData, inside_packet,
      respects_writeColour, inside_colour, value_readData]
    omega

theorem setLeds_inside_iff (device : Device World) :
    Respects (Inside config) (openrgbDirectModeSetLeds config fw data) device ↔
      (data 1).toNat ≤ 15 ∧ (config.unbuffered = false →
        ∀ i < (data 1).toNat, (data (i * 4 + 2)).toNat < config.driverLedTotal) := by
  simp only [openrgbDirectModeSetLeds, respects_bind, respects_readData, inside_packet,
    value_readData, after_readData, show (1 : ℕ) < 64 from by decide, true_and]
  rw [respects_forEach _ fun i _ state => setLed_inside_iff i state]
  simp only [List.mem_range]
  cases direct : config.unbuffered with
  | true =>
    simp only [↓reduceIte, Bool.true_eq_false, false_implies, and_true]
    constructor
    · intro inside
      by_contra many
      have sixteenth := inside 15 (by omega)
      omega
    · intro few i below
      omega
  | false =>
    simp only [Bool.false_eq_true, ↓reduceIte, forall_const]
    constructor
    · intro inside
      have few : (data 1).toNat ≤ 15 := by
        by_contra many
        have sixteenth := (inside 15 (by omega)).1
        omega
      refine ⟨few, fun i below => ?_⟩
      have there := (inside i below).2
      rwa [Nat.mod_eq_of_lt (by omega)] at there
    · rintro ⟨few, there⟩ i below
      rw [Nat.mod_eq_of_lt (by omega)]
      exact ⟨by omega, there i below⟩

theorem perform_inside_iff (command : CommandId) (device : Device World) :
    Respects (Inside config) (perform config fw data command) device ↔ Fits config data command := by
  cases command with
  | getProtocolVersion =>
    refine iff_of_true ?_ trivial
    simp [perform, openrgbGetProtocolVersion]
  | getQmkVersion => exact iff_of_true (getQmkVersion_inside device) trivial
  | getDeviceInfo => exact iff_of_true (getDeviceInfo_inside device) trivial
  | getModeInfo => exact iff_of_true (getModeInfo_inside device) trivial
  | getLedInfo => exact getLedInfo_inside_iff device
  | getEnabledModes => exact iff_of_true (getEnabledModes_inside device) trivial
  | setMode => exact iff_of_true (setMode_inside device) trivial
  | directModeSetSingleLed =>
    refine iff_of_true ?_ trivial
    simp only [perform, respects_bind]
    exact ⟨setSingleLed_inside device, respects_change _⟩
  | directModeSetLeds =>
    simp only [perform, respects_bind, respects_change, and_true]
    exact setLeds_inside_iff device
  | unknown => exact iff_of_true (respects_pure _ _) trivial

/-- `raw_hid_receive` stays inside of the packet, the buffer and the colour table exactly
for the packets whose counts and LEDs fit. -/
theorem receive_inside_iff (config : Config) (fw : Firmware World) (data : ℕ → BitVec 8)
    (device : Device World) :
    Respects (Inside config) (rawHidReceive config fw data) device ↔
      Fits config data (commandId (data 0)) := by
  have first : Inside config (.packet 0) := (inside_packet 0).mpr (by decide)
  simp only [rawHidReceive, respects_bind, respects_readData, value_readData, after_readData,
    first, true_and, perform_inside_iff]
  refine and_iff_left ?_
  by_cases silent : commandId (data 0) = .directModeSetLeds
  · simp [silent]
  · simp only [silent, ↓reduceIte]
    exact answer_inside _

/-! ### A packet that does not fit -/

/-- One key with one LED. -/
def oneLed : Config where
  matrixRows := 1
  matrixCols := 1
  driverLedTotal := 1
  point _ := (0, 0)
  flags _ := 0
  matrixCo _ _ := 0
  keymaps _ _ _ := 0x0004
  unbuffered := false
  enabled _ := false
  rgbMatrixEffectMax := 3
  rgbMatrixOpenrgbDirect := 2
  qmkVersion := []
  product := []
  manufacturer := []

/-- An RGB matrix that keeps nothing. -/
def deaf : Firmware Unit where
  rgbMatrixGetHsv _ := ⟨0, 0, 0⟩
  rgbMatrixGetMode _ := 0
  rgbMatrixGetSpeed _ := 0
  rgbMatrixMode _ world := world
  rgbMatrixSetSpeed _ world := world
  rgbMatrixSethsv _ world := world
  rgbMatrixModeNoeeprom _ world := world
  rgbMatrixSetSpeedNoeeprom _ world := world
  rgbMatrixSethsvNoeeprom _ world := world
  rgbMatrixSetColor _ _ world := world
  rawHidSend _ world := world

/-- `OPENRGB_GET_LED_INFO` for ten LEDs: the tenth is written behind the buffer. -/
theorem ten_leds_outside :
    ¬Respects (Inside oneLed) (rawHidReceive oneLed deaf fun i => [5, 0, 10].getD i 0)
      ⟨fun _ => 0, fun _ => ⟨0, 0, 0⟩, ()⟩ := by
  rw [rawHidReceive, respects_bind, not_and]
  intro _ respects
  have few : 10 ≤ 9 := (perform_inside_iff _ _).mp (respects_bind.mp respects).1
  exact absurd few (by decide)

end QmkSonix.OpenRgb
