import QmkSonix.Rgblight.Tables

/-! Modes and base modes stay in their tables, along runs in which the timer is not
started on a base mode of another time. -/

namespace QmkSonix.Rgblight

open QmkSonix.Lib

variable {cfg : Config}

/-- A sync lights these lights. -/
def SyncInfo.lights (info : SyncInfo cfg) : Prop :=
  info.changeFlags.getLsbD statusChangeMode = true ∧ info.config.enable = true

instance (info : SyncInfo cfg) : Decidable info.lights := inferInstanceAs (Decidable (_ ∧ _))

namespace State

variable (s : State cfg)

/-- `base_mode` is what `mode_base_table` has for a mode. -/
def fits (mode : BitVec 7) : Prop := cfg.modeBaseTable[mode.toNat]? = some s.baseMode

instance (mode : BitVec 7) : Decidable (s.fits mode) := inferInstanceAs (Decidable (_ = _))

/-- Enabled lights have a mode in range, and a running timer finds the base mode of the
mode and a place inside the interval table of its effect. -/
structure InRange : Prop where
  mode : s.config.enable = true → 1 ≤ s.config.mode.toNat ∧ s.config.mode.toNat ≤ cfg.rgblightModes
  base : s.timerEnabled = true → s.fits s.config.mode
  interval : s.timerEnabled = true → ∀ effect place length, cfg.effectAt s.baseMode = some effect →
    intervalOf (s.config.modeByte - s.baseMode).toNat effect = some (place, length) → place < length

/-- Enabled lights have the base mode of their mode, timer or not. -/
structure Consistent : Prop where
  mode : s.config.enable = true → 1 ≤ s.config.mode.toNat ∧ s.config.mode.toNat ≤ cfg.rgblightModes
  lit : s.config.enable = true → s.fits s.config.mode
  base : s.timerEnabled = true → s.fits s.config.mode

/-- If the timer starts, it does so on the base mode of the mode. -/
def startsFitting : Prop := cfg.isStaticEffect s.config.modeByte = false → s.fits s.config.mode

/-- Where a write to the EEPROM corrects the mode under a running timer, the base mode is
that of the corrected mode. -/
def storesFitting : Prop :=
  cfg.eepromEnable = true → s.timerEnabled = true → s.fits (cfg.clampMode s.config.modeByte)

/-- What `rgblight_reload_from_eeprom` loads. -/
def loaded : LightConfig := s.config.setRaw (eeconfigReadRgblight s)

/-- The steps that leave no timer running on the base mode of another mode. -/
def allowed : Event cfg → Prop
  | .reload => s.timerEnabled = true → s.loaded.enable = false →
      s.fits (cfg.clampMode s.loaded.modeByte)
  | .timerEnable => s.startsFitting
  | .timerToggle => s.timerEnabled = false → s.startsFitting
  | .wakeup => s.preSuspendEnabled = false → s.startsFitting
  | .updateSync info _ => info.changeFlags.getLsbD statusChangeTimer = true →
      info.timerEnabled = true → ¬info.lights → s.startsFitting
  | .setSpeed _ write | .increaseSpeed write | .decreaseSpeed write =>
      write = true → s.storesFitting
  | .updateCurrent => s.storesFitting
  | _ => True

instance : Decidable s.startsFitting := inferInstanceAs (Decidable (_ → _))

instance : Decidable s.storesFitting := inferInstanceAs (Decidable (_ → _))

instance : ∀ event, Decidable (s.allowed event)
  | .reload => inferInstanceAs (Decidable (_ → _ → _))
  | .timerEnable => inferInstanceAs (Decidable s.startsFitting)
  | .timerToggle => inferInstanceAs (Decidable (_ → _))
  | .wakeup => inferInstanceAs (Decidable (_ → _))
  | .updateSync _ _ => inferInstanceAs (Decidable (_ → _ → _ → s.startsFitting))
  | .setSpeed _ _ | .increaseSpeed _ | .decreaseSpeed _ =>
    inferInstanceAs (Decidable (_ → s.storesFitting))
  | .updateCurrent => inferInstanceAs (Decidable s.storesFitting)
  | .init | .updateDword _ | .mode _ _ | .increase | .decrease | .step _ | .stepReverse _
  | .enable _ | .disable _ | .toggle _ | .sethsv _ _ _ _ | .showSolidColor | .timerDisable
  | .suspend | .setLayerState _ _ | .blinkLayerRepeat _ _ _ _ | .task _ _ | .store _ =>
    inferInstanceAs (Decidable True)

end State

section Consistency

variable {s : State cfg}

theorem fits_getD {s : State cfg} (low : 1 ≤ s.config.mode.toNat)
    (high : s.config.mode.toNat ≤ cfg.rgblightModes)
    (base : s.baseMode = cfg.modeBaseTable.getD s.config.mode.toNat 0) : s.fits s.config.mode := by
  obtain ⟨_, base', found, -⟩ := modeBaseTable_effect cfg low high
  rw [State.fits, base, List.getD_eq_getElem?_getD, found]
  rfl

/-- The base mode of a mode keeps `delta` inside the tables. -/
theorem State.Consistent.inRange (consistent : s.Consistent) : s.InRange := by
  refine ⟨consistent.mode, consistent.base, fun runs effect place length running found => ?_⟩
  have fits := consistent.base runs
  have length_ := length_modeBaseTable cfg
  have small : s.config.mode.toNat < cfg.rgblightModes + 1 := by
    rw [← length_]
    exact (List.getElem?_eq_some_iff.mp fits).1
  rcases Nat.eq_zero_or_pos s.config.mode.toNat with zero | positive
  · have blank : s.baseMode = 0 := by
      rw [State.fits, zero] at fits
      exact (Option.some.inj fits).symm
    rw [blank, effectAt_zero] at running
    cases running
  · obtain ⟨owner, base, entry, below, above, isOwner⟩ :=
      modeBaseTable_effect cfg positive (by omega)
    have isBase : s.baseMode = BitVec.ofNat 8 base := Option.some.inj (fits.symm.trans entry)
    rw [isBase, isOwner] at running
    obtain rfl := Option.some.inj running
    refine intervalOf_inside ?_ found
    have most := rgblightModes_le cfg
    have mode : s.config.modeByte.toNat = s.config.mode.toNat := by
      rw [LightConfig.modeByte, BitVec.toNat_setWidth]
      omega
    rw [isBase, BitVec.toNat_sub, mode, BitVec.toNat_ofNat]
    omega

/-- A write to the EEPROM leaves all but the mode and the value. -/
theorem eeconfigUpdate_mode (s : State cfg) :
    (eeconfigUpdateRgblightCurrent s).config.enable = s.config.enable ∧
      (eeconfigUpdateRgblightCurrent s).timerEnabled = s.timerEnabled ∧
      (eeconfigUpdateRgblightCurrent s).baseMode = s.baseMode ∧
      (eeconfigUpdateRgblightCurrent s).config.mode =
        if cfg.eepromEnable then cfg.clampMode s.config.modeByte else s.config.mode := by
  unfold eeconfigUpdateRgblightCurrent
  cases cfg.eepromEnable <;> exact ⟨rfl, rfl, rfl, rfl⟩

theorem eeconfigUpdate_of_range (low : 1 ≤ s.config.mode.toNat)
    (high : s.config.mode.toNat ≤ cfg.rgblightModes) :
    (eeconfigUpdateRgblightCurrent s).config.mode = s.config.mode := by
  rw [(eeconfigUpdate_mode s).2.2.2, LightConfig.modeByte, clampMode_of_range cfg low high, ite_self]

theorem State.Consistent.update (consistent : s.Consistent) (stores : s.storesFitting) :
    (eeconfigUpdateRgblightCurrent s).Consistent := by
  obtain ⟨enable, timer, base, mode⟩ := eeconfigUpdate_mode s
  have lit (enabled : s.config.enable = true) :
      (eeconfigUpdateRgblightCurrent s).config.mode = s.config.mode :=
    eeconfigUpdate_of_range (consistent.mode enabled).1 (consistent.mode enabled).2
  refine ⟨fun enabled => ?_, fun enabled => ?_, fun runs => ?_⟩
  · rw [enable] at enabled
    rw [lit enabled]
    exact consistent.mode enabled
  · rw [enable] at enabled
    rw [State.fits, base, lit enabled]
    exact consistent.lit enabled
  · rw [timer] at runs
    rw [State.fits, base, mode]
    split
    · rename_i stored
      exact stores stored runs
    · exact consistent.base runs

/-- `rgblight_sethsv_eeprom_helper` takes the base mode from the table. -/
theorem sethsv_consistent
    (range : s.config.enable = true → 1 ≤ s.config.mode.toNat ∧ s.config.mode.toNat ≤ cfg.rgblightModes)
    (dark : s.config.enable = false → s.timerEnabled = true → s.fits s.config.mode)
    (hue sat val : Byte) (write : Bool) :
    (rgblightSethsvEepromHelper s hue sat val write).Consistent := by
  unfold rgblightSethsvEepromHelper
  cases enabled : s.config.enable with
  | false =>
    have off : ¬s.config.enable = true := by simp [enabled]
    exact ⟨fun on => absurd on off, fun on => absurd on off, dark enabled⟩
  | true =>
    obtain ⟨low, high⟩ := range enabled
    have shown (hue val : Byte) : ({ s with
        baseMode := cfg.modeBaseTable.getD s.config.mode.toNat 0
        config := { s.config with hue, sat, val } } : State cfg).Consistent := by
      have fits := fits_getD (s := { s with
        baseMode := cfg.modeBaseTable.getD s.config.mode.toNat 0 }) low high rfl
      exact ⟨fun _ => ⟨low, high⟩, fun _ => fits, fun _ => fits⟩
    simp only [↓reduceIte]
    split
    · refine (shown _ _).update fun _ _ => ?_
      have same : cfg.clampMode s.config.modeByte = s.config.mode := clampMode_of_range cfg low high
      have fits := (shown s.config.hue s.config.val).lit enabled
      show State.fits _ (cfg.clampMode s.config.modeByte)
      rw [same]
      exact fits
    · exact shown _ _

/-- Enabled lights are consistent behind `rgblight_mode_eeprom_helper`, whatever they were. -/
theorem modeHelper_consistent (enabled : s.config.enable = true) (mode : Byte) (write : Bool) :
    (rgblightModeEepromHelper s mode write).Consistent := by
  unfold rgblightModeEepromHelper
  rw [if_pos enabled]
  obtain ⟨low, high⟩ := clampMode_range cfg mode
  obtain ⟨t, isT⟩ : ∃ t, t = (if write then eeconfigUpdateRgblightCurrent
      { s with config := { s.config with mode := cfg.clampMode mode } }
      else { s with config := { s.config with mode := cfg.clampMode mode } }) := ⟨_, rfl⟩
  have clamped : t.config.mode = cfg.clampMode mode := by
    rw [isT]
    split
    · exact eeconfigUpdate_of_range (s := { s with
        config := { s.config with mode := cfg.clampMode mode } }) low high
    · rfl
  have lit : t.config.enable = true := by
    rw [isT]
    split
    · exact (eeconfigUpdate_mode _).1.trans enabled
    · exact enabled
  dsimp only
  rw [← isT]
  have timed : ∀ u : State cfg, u.config = t.config →
      (rgblightSethsvEepromHelper u u.config.hue u.config.sat u.config.val false).Consistent := by
    intro u same
    refine sethsv_consistent (fun _ => ?_) (fun off => ?_) _ _ _ false
    · rw [same, clamped]
      exact ⟨low, high⟩
    · rw [same, lit] at off
      cases off
  refine timed _ ?_
  split
  · rfl
  · unfold rgblightTimerEnable
    split <;> rfl

theorem modeHelper_off (off : s.config.enable = false) (mode : Byte) (write : Bool) :
    rgblightModeEepromHelper s mode write = s := by
  simp [rgblightModeEepromHelper, off]

theorem State.Consistent.modeHelper (consistent : s.Consistent) (mode : Byte) (write : Bool) :
    (rgblightModeEepromHelper s mode write).Consistent := by
  cases enabled : s.config.enable with
  | true => exact modeHelper_consistent enabled mode write
  | false => rwa [modeHelper_off enabled]

/-- Dark lights with a stopped timer are consistent, whatever else they are. -/
theorem consistent_of_dark (off : s.config.enable = false) (stopped : s.timerEnabled = false) :
    s.Consistent := by
  refine ⟨fun on => ?_, fun on => ?_, fun runs => ?_⟩
  · rw [off] at on
    cases on
  · rw [off] at on
    cases on
  · rw [stopped] at runs
    cases runs

theorem disable_consistent (s : State cfg) (write : Bool) : (rgblightDisable s write).Consistent := by
  refine consistent_of_dark ?_ rfl
  unfold rgblightDisable rgblightTimerDisable
  cases write with
  | true => exact (eeconfigUpdate_mode _).1
  | false => rfl

theorem timerDisable_consistent (consistent : s.Consistent) : (rgblightTimerDisable s).Consistent :=
  ⟨consistent.mode, consistent.lit, fun runs => absurd runs Bool.false_ne_true⟩

theorem timerEnable_consistent (consistent : s.Consistent) (starts : s.startsFitting) :
    (rgblightTimerEnable s).Consistent := by
  unfold rgblightTimerEnable
  split
  · exact consistent
  · rename_i moving
    exact ⟨consistent.mode, consistent.lit, fun _ => starts (Bool.not_eq_true _ ▸ moving)⟩

/-- Enabled lights start fitting. -/
theorem State.Consistent.starts (consistent : s.Consistent) (enabled : s.config.enable = true) :
    s.startsFitting :=
  fun _ => consistent.lit enabled

end Consistency

section Steps

variable {s : State cfg}

theorem enable_consistent (s : State cfg) (write : Bool) : (rgblightEnable s write).Consistent :=
  modeHelper_consistent rfl _ _

theorem show_consistent (dark : s.config.enable = false → s.Consistent) :
    (rgblightShow s).Consistent := by
  unfold rgblightShow
  split
  · rename_i enabled
    exact modeHelper_consistent enabled _ _
  · rename_i off
    exact dark (Bool.not_eq_true _ ▸ off)

theorem init_consistent (consistent : s.Consistent) : (rgblightInit s).Consistent := by
  unfold rgblightInit
  split
  · exact consistent
  · -- The timer is stopped before the mode is shown.
    have lit (t : State cfg) : (rgblightShow (rgblightTimerDisable t)).Consistent :=
      show_consistent fun off => consistent_of_dark off rfl
    have same (t : State cfg) := lit (rgblightCheckConfig t)
    exact ⟨(same _).mode, (same _).lit, (same _).base⟩

theorem reload_consistent (consistent : s.Consistent) (allows : s.allowed .reload) :
    (rgblightReloadFromEeprom s).Consistent := by
  refine show_consistent fun off => ?_
  have dark : ¬s.loaded.enable = true := by
    rw [show s.loaded.enable = false from off]
    exact Bool.false_ne_true
  exact ⟨fun on => absurd on dark, fun on => absurd on dark, fun runs => allows runs off⟩

theorem setLayerState_consistent (consistent : s.Consistent) (layer : Nat) (enabled : Bool) :
    (rgblightSetLayerState s layer enabled).Consistent := by
  have masked (mask : BitVec cfg.maskWidth) :
      ({ s with enabledLayerMask := mask } : State cfg).Consistent :=
    ⟨consistent.mode, consistent.lit, consistent.base⟩
  unfold rgblightSetLayerState
  dsimp only
  split
  · exact masked _
  · exact (masked _).modeHelper _ _

theorem blinkLayerRepeat_consistent (consistent : s.Consistent) (layer : Nat)
    (duration : BitVec 16) (times : Byte) (now : BitVec 16) :
    (rgblightBlinkLayerRepeat s layer duration times now).Consistent := by
  have timed : ({ s with timesRemaining := times * 2, dur := duration } : State cfg).Consistent :=
    ⟨consistent.mode, consistent.lit, consistent.base⟩
  have layered := setLayerState_consistent timed layer true
  exact ⟨layered.mode, layered.lit, layered.base⟩

theorem task_consistent (consistent : s.Consistent) (now : BitVec 16) (clock : Nat → BitVec 16) :
    (rgblightTask s now clock).Consistent := by
  have rounds (layers : List Nat) (t : State cfg) (before : t.Consistent) :
      (layers.foldl (blinkLayer clock) t).Consistent := by
    induction layers generalizing t with
    | nil => exact before
    | cons layer rest ih =>
      refine ih _ ?_
      unfold blinkLayer
      split
      · have layered := setLayerState_consistent before layer (t.timesRemaining.toNat % 2 ≠ 1)
        exact ⟨layered.mode, layered.lit, layered.base⟩
      · exact before
  have ended := rounds (List.range cfg.maxLayers) s consistent
  unfold rgblightTask rgblightBlinkLayerRepeatHelper
  split
  · dsimp only
    split
    · exact ⟨ended.mode, ended.lit, ended.base⟩
    · exact ended
  · exact consistent

theorem suspend_consistent (consistent : s.Consistent) : (rgblightSuspend s).Consistent := by
  unfold rgblightSuspend
  dsimp only
  split
  · exact timerDisable_consistent consistent
  · exact disable_consistent _ _

theorem sethsv_enable (s : State cfg) (hue sat val : Byte) (write : Bool) :
    (rgblightSethsvEepromHelper s hue sat val write).config.enable = s.config.enable := by
  unfold rgblightSethsvEepromHelper
  split
  · dsimp only
    split
    · exact (eeconfigUpdate_mode _).1
    · rfl
  · rfl

theorem modeHelper_enable (s : State cfg) (mode : Byte) (write : Bool) :
    (rgblightModeEepromHelper s mode write).config.enable = s.config.enable := by
  have timed (t : State cfg) : (if cfg.isStaticEffect t.config.modeByte = true then
      rgblightTimerDisable t else rgblightTimerEnable t).config = t.config := by
    unfold rgblightTimerEnable rgblightTimerDisable
    split <;> rfl
  unfold rgblightModeEepromHelper
  split
  · rw [sethsv_enable, timed]
    split
    · exact (eeconfigUpdate_mode _).1
    · rfl
  · rfl

theorem wakeup_consistent (consistent : s.Consistent) (allows : s.allowed .wakeup) :
    (rgblightWakeup s).Consistent := by
  unfold rgblightWakeup
  dsimp only
  split
  · refine timerEnable_consistent (enable_consistent _ _) ((enable_consistent _ _).starts ?_)
    exact modeHelper_enable ..
  · rename_i woken
    refine timerEnable_consistent ?_ (allows (Bool.not_eq_true _ ▸ woken))
    exact ⟨consistent.mode, consistent.lit, consistent.base⟩

theorem updateDword_consistent (s : State cfg) (dword : BitVec 32) :
    (rgblightUpdateDword s dword).Consistent := by
  unfold rgblightUpdateDword
  dsimp only
  split
  · rename_i enabled
    exact modeHelper_consistent enabled _ _
  · rename_i off
    exact consistent_of_dark (Bool.not_eq_true _ ▸ off) rfl

theorem setSpeed_consistent (consistent : s.Consistent) (speed : Byte) {write : Bool}
    (stores : write = true → s.storesFitting) :
    (rgblightSetSpeedEepromHelper s speed write).Consistent := by
  have paced : ({ s with config := { s.config with speed } } : State cfg).Consistent :=
    ⟨consistent.mode, consistent.lit, consistent.base⟩
  unfold rgblightSetSpeedEepromHelper
  dsimp only
  split
  · rename_i written
    exact paced.update (stores written)
  · exact paced

/-- The mode part of a sync lights the lights, or leaves the mode and base mode they had. -/
theorem syncMode_cases (s : State cfg) (info : SyncInfo cfg) (write : Bool) :
    (info.lights ∧ syncMode s info write = rgblightModeEepromHelper
        { s with config := { s.config with enable := true } } info.config.modeByte write) ∨
      (¬info.lights ∧ syncMode s info write = rgblightDisable s false) ∨
      (¬info.lights ∧ syncMode s info write = s) := by
  unfold syncMode SyncInfo.lights
  by_cases modes : info.changeFlags.getLsbD statusChangeMode = true
  · rw [if_pos modes]
    by_cases enables : info.config.enable = true
    · exact Or.inl ⟨⟨modes, enables⟩, if_pos enables⟩
    · exact Or.inr (Or.inl ⟨fun both => enables both.2, if_neg enables⟩)
  · exact Or.inr (Or.inr ⟨fun both => modes both.1, if_neg modes⟩)

theorem syncMode_consistent (consistent : s.Consistent) (info : SyncInfo cfg) (write : Bool) :
    (syncMode s info write).Consistent ∧
      (info.lights → (syncMode s info write).config.enable = true) ∧
      (¬info.lights → s.startsFitting → (syncMode s info write).startsFitting) := by
  obtain ⟨lights, lit⟩ | ⟨dark, off⟩ | ⟨dark, same⟩ := syncMode_cases s info write
  · rw [lit]
    exact ⟨modeHelper_consistent rfl _ _, fun _ => modeHelper_enable .., fun neither =>
      absurd lights neither⟩
  · rw [off]
    exact ⟨disable_consistent _ _, fun lights => absurd lights dark, fun _ starts => starts⟩
  · rw [same]
    exact ⟨consistent, fun lights => absurd lights dark, fun _ starts => starts⟩

/-- Dark lights ignore a change of their colour. -/
theorem sethsv_off (off : s.config.enable = false) (hue sat val : Byte) (write : Bool) :
    rgblightSethsvEepromHelper s hue sat val write = s := by
  simp [rgblightSethsvEepromHelper, off]

/-- Up to the timer, a sync keeps the lights consistent. -/
theorem syncLights_consistent (consistent : s.Consistent) (info : SyncInfo cfg) (write : Bool) :
    (syncLights s info write).Consistent ∧
      (info.lights → (syncLights s info write).config.enable = true) ∧
      (¬info.lights → s.startsFitting → (syncLights s info write).startsFitting) := by
  obtain ⟨layered, isLayered⟩ : ∃ layered, layered =
      (if info.changeFlags.getLsbD statusChangeLayers = true then
        { s with enabledLayerMask := info.enabledLayerMask } else s) := ⟨_, rfl⟩
  have before : layered.Consistent ∧ (s.startsFitting → layered.startsFitting) := by
    rw [isLayered]
    split
    · exact ⟨⟨consistent.mode, consistent.lit, consistent.base⟩, id⟩
    · exact ⟨consistent, id⟩
  obtain ⟨moded, enabled, starts⟩ := syncMode_consistent before.1 info write
  unfold syncLights
  dsimp only
  rw [← isLayered]
  split
  · have shown := sethsv_consistent moded.mode (fun _ => moded.base) info.config.hue
      info.config.sat info.config.val write
    refine ⟨shown, fun lights => ?_, fun dark fits => ?_⟩
    · rw [sethsv_enable]
      exact enabled lights
    · cases lit : (syncMode layered info write).config.enable with
      | true =>
        refine shown.starts ?_
        rw [sethsv_enable]
        exact lit
      | false =>
        rw [sethsv_off lit]
        exact starts dark (before.2 fits)
  · exact ⟨moded, enabled, fun dark fits => starts dark (before.2 fits)⟩

theorem updateSync_consistent (consistent : s.Consistent) (info : SyncInfo cfg) (write : Bool)
    (allows : s.allowed (.updateSync info write)) : (rgblightUpdateSync s info write).Consistent := by
  obtain ⟨synced, enabled, starts⟩ := syncLights_consistent consistent info write
  unfold rgblightUpdateSync
  dsimp only
  split
  · rename_i timed
    split
    · rename_i runs
      refine timerEnable_consistent synced ?_
      by_cases lights : info.lights
      · exact synced.starts (enabled lights)
      · exact starts lights (allows timed runs lights)
    · exact timerDisable_consistent synced
  · exact synced

/-- Every allowed step keeps the lights consistent. -/
theorem exec_consistent (s : State cfg) (event : Event cfg) (consistent : s.Consistent)
    (allows : s.allowed event) : (exec s event).Consistent := by
  cases event with
  | init => exact init_consistent consistent
  | reload => exact reload_consistent consistent allows
  | updateDword dword => exact updateDword_consistent s dword
  | mode mode write => exact consistent.modeHelper mode write
  | increase => exact consistent.modeHelper _ _
  | decrease => exact consistent.modeHelper _ _
  | step write => exact consistent.modeHelper _ _
  | stepReverse write => exact consistent.modeHelper _ _
  | enable write => exact enable_consistent s write
  | disable write => exact disable_consistent s write
  | toggle write =>
    unfold exec rgblightToggle
    dsimp only
    split
    · exact disable_consistent s write
    · exact enable_consistent s write
  | sethsv hue sat val write => exact sethsv_consistent consistent.mode (fun _ => consistent.base) ..
  | setSpeed speed write => exact setSpeed_consistent consistent speed allows
  | increaseSpeed write => exact setSpeed_consistent consistent _ allows
  | decreaseSpeed write => exact setSpeed_consistent consistent _ allows
  | updateCurrent => exact consistent.update allows
  | showSolidColor => exact (enable_consistent s true).modeHelper _ _
  | timerEnable => exact timerEnable_consistent consistent allows
  | timerDisable => exact timerDisable_consistent consistent
  | timerToggle =>
    unfold exec rgblightTimerToggle
    dsimp only
    split
    · exact timerDisable_consistent consistent
    · rename_i stopped
      exact timerEnable_consistent consistent (allows (Bool.not_eq_true _ ▸ stopped))
  | suspend => exact suspend_consistent consistent
  | wakeup => exact wakeup_consistent consistent allows
  | updateSync info write => exact updateSync_consistent consistent info write allows
  | setLayerState layer enabled => exact setLayerState_consistent consistent layer enabled
  | blinkLayerRepeat layer duration times now =>
    exact blinkLayerRepeat_consistent consistent layer duration times now
  | task now clock => exact task_consistent consistent now clock
  | store dword => exact ⟨consistent.mode, consistent.lit, consistent.base⟩

/-- Dark lights that a sync does not light keep their mode and base mode. -/
theorem syncLights_dark (off : s.config.enable = false) {info : SyncInfo cfg} (write : Bool)
    (dark : ¬info.lights) :
    (syncLights s info write).config.mode = s.config.mode ∧
      (syncLights s info write).baseMode = s.baseMode := by
  have moded (t : State cfg) (tOff : t.config.enable = false) :
      (syncMode t info write).config.enable = false ∧
        (syncMode t info write).config.mode = t.config.mode ∧
        (syncMode t info write).baseMode = t.baseMode := by
    obtain ⟨lights, -⟩ | ⟨-, disabled⟩ | ⟨-, same⟩ := syncMode_cases t info write
    · exact absurd lights dark
    · rw [disabled]
      exact ⟨rfl, rfl, rfl⟩
    · rw [same]
      exact ⟨tOff, rfl, rfl⟩
  have shown (t : State cfg) (tOff : t.config.enable = false) :
      (if info.changeFlags.getLsbD statusChangeHsvs = true then rgblightSethsvEepromHelper t
        info.config.hue info.config.sat info.config.val write else t) = t := by
    rw [sethsv_off tOff, ite_self]
  obtain ⟨layered, isLayered⟩ : ∃ layered, layered =
      (if info.changeFlags.getLsbD statusChangeLayers = true then
        { s with enabledLayerMask := info.enabledLayerMask } else s) := ⟨_, rfl⟩
  have same : layered.config = s.config ∧ layered.baseMode = s.baseMode := by
    rw [isLayered]
    split <;> exact ⟨rfl, rfl⟩
  obtain ⟨still, mode, base⟩ := moded layered (same.1 ▸ off)
  unfold syncLights
  dsimp only
  rw [← isLayered, shown _ still, mode, base, same.1, same.2]
  exact ⟨rfl, rfl⟩

/-- A timer that starts and is in range started fitting. -/
theorem timerEnable_exact (inRange : (rgblightTimerEnable s).InRange) : s.startsFitting := by
  intro moving
  have running : rgblightTimerEnable s = { s with timerEnabled := true } := by
    simp [rgblightTimerEnable, moving]
  rw [running] at inRange
  exact inRange.base rfl

theorem update_exact (inRange : (eeconfigUpdateRgblightCurrent s).InRange) : s.storesFitting := by
  intro stored runs
  obtain ⟨-, timer, base, mode⟩ := eeconfigUpdate_mode s
  have fits := inRange.base (timer.trans runs)
  rw [State.fits, base, mode, if_pos stored] at fits
  exact fits

theorem setSpeed_exact {speed : Byte} {write : Bool}
    (inRange : (rgblightSetSpeedEepromHelper s speed write).InRange) (written : write = true) :
    s.storesFitting := by
  have updated : rgblightSetSpeedEepromHelper s speed write =
      eeconfigUpdateRgblightCurrent { s with config := { s.config with speed } } := if_pos written
  rw [updated] at inRange
  have stores := update_exact inRange
  exact stores

/-- A step that leaves the lights in range is allowed. -/
theorem exec_exact (s : State cfg) (event : Event cfg) (consistent : s.Consistent)
    (inRange : (exec s event).InRange) : s.allowed event := by
  cases event with
  | reload =>
    intro runs off
    have dark : exec s .reload = rgblightCheckConfig { s with config := s.loaded } := by
      have off' : (rgblightCheckConfig { s with config := s.loaded }).config.enable = false := off
      show rgblightShow (rgblightCheckConfig { s with config := s.loaded }) = _
      simp [rgblightShow, off']
    rw [dark] at inRange
    exact inRange.base runs
  | timerEnable => exact timerEnable_exact inRange
  | timerToggle =>
    intro stopped
    have starts : exec s .timerToggle = rgblightTimerEnable s := by
      simp [exec, rgblightTimerToggle, stopped]
    exact timerEnable_exact (starts ▸ inRange)
  | wakeup =>
    intro woken
    have starts : exec s .wakeup = rgblightTimerEnable { s with isSuspended := false } := by
      simp [exec, rgblightWakeup, woken]
    rw [starts] at inRange
    have fits := timerEnable_exact inRange
    exact fits
  | updateSync info write =>
    intro timed runs dark
    cases enabled : s.config.enable with
    | true => exact consistent.starts enabled
    | false =>
      have starts : exec s (.updateSync info write) = rgblightTimerEnable (syncLights s info write) := by
        simp [exec, rgblightUpdateSync, timed, runs]
      rw [starts] at inRange
      obtain ⟨mode, base⟩ := syncLights_dark enabled write dark
      have fits := timerEnable_exact inRange
      rw [State.startsFitting, State.fits, LightConfig.modeByte, mode, base] at fits
      exact fits
  | setSpeed speed write => exact setSpeed_exact inRange
  | increaseSpeed write => exact setSpeed_exact inRange
  | decreaseSpeed write => exact setSpeed_exact inRange
  | updateCurrent => exact update_exact inRange
  | init | updateDword _ | mode _ _ | increase | decrease | step _ | stepReverse _ | enable _
  | disable _ | toggle _ | sethsv _ _ _ _ | showSolidColor | timerDisable | suspend
  | setLayerState _ _ | blinkLayerRepeat _ _ _ _ | task _ _ | store _ => trivial

end Steps

section Runs

/-- The statics at power-on, with any contents of the EEPROM. -/
def powerOn (cfg : Config) (eeconfigEnabled : Bool) (eeprom : BitVec 32) : State cfg :=
  { eeconfigEnabled, eeprom }

theorem powerOn_consistent (cfg : Config) (eeconfigEnabled : Bool) (eeprom : BitVec 32) :
    (powerOn cfg eeconfigEnabled eeprom).Consistent := consistent_of_dark rfl rfl

/-- In every build and from any contents of the EEPROM, the lights stay in range along a run
exactly when none of its steps starts or keeps the timer on a base mode of another mode. -/
theorem modes_in_range_iff (cfg : Config) (eeconfigEnabled : Bool) (eeprom : BitVec 32)
    (events : List (Event cfg)) :
    (∀ cut, (run exec (powerOn cfg eeconfigEnabled eeprom) (events.take cut)).InRange) ↔
      Along exec State.allowed (powerOn cfg eeconfigEnabled eeprom) events :=
  property_iff_along (fun _ consistent => consistent.inRange) exec_consistent exec_exact
    (powerOn_consistent cfg eeconfigEnabled eeprom) events

/-- A build with all effects. -/
def everyEffect : Config where
  effects _ := true

/-- The lights breathe, are replaced by a dark configuration with a twinkling mode, and
the computer sleeps and wakes: the timer runs, and breathing looks up place 38 of 4. -/
theorem wakeup_breaks :
    let breathing : LightConfig := { enable := true, mode := 2 }
    let twinkling : LightConfig := { enable := false, mode := 40 }
    let s := run exec (powerOn everyEffect true breathing.raw)
      [.init, .updateDword twinkling.raw, .suspend, .wakeup]
    s.timerEnabled = true ∧ everyEffect.effectAt s.baseMode = some .breathing ∧
      intervalOf (s.config.modeByte - s.baseMode).toNat .breathing = some (38, 4) ∧ ¬s.InRange := by
  intro breathing twinkling s
  have runs : s.timerEnabled = true := by decide +kernel
  have running : everyEffect.effectAt s.baseMode = some .breathing := by decide +kernel
  have place : intervalOf (s.config.modeByte - s.baseMode).toNat .breathing = some (38, 4) := by
    decide +kernel
  refine ⟨runs, running, place, fun inRange => ?_⟩
  exact absurd (inRange.interval runs _ _ _ running place) (by decide)

end Runs

end QmkSonix.Rgblight
