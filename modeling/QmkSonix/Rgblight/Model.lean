import Mathlib
import QmkSonix.Lib.Run

/-! Underglow: the modes, the timer, the layers and the blinks of `rgblight.c`. What the
LEDs show is left out here. -/

namespace QmkSonix.Rgblight

abbrev Byte := BitVec 8

/-- The effects of `rgblight_modes.h`, in its order. -/
inductive Effect where
  | staticLight | breathing | rainbowMood | rainbowSwirl | snake | knight | christmas
  | staticGradient | rgbTest | alternating | twinkle
  deriving DecidableEq, Repr

namespace Effect

/-- How many modes an effect has. -/
def modes : Effect → Nat
  | breathing => 4
  | rainbowMood | knight => 3
  | rainbowSwirl | snake | twinkle => 6
  | staticGradient => 10
  | staticLight | christmas | rgbTest | alternating => 1

/-- The `_RGBM_…_STATIC` entries. -/
def isStatic : Effect → Bool
  | staticLight | staticGradient => true
  | _ => false

def all : List Effect :=
  [staticLight, breathing, rainbowMood, rainbowSwirl, snake, knight, christmas, staticGradient,
    rgbTest, alternating, twinkle]

end Effect

/-- A build: the effects it has and its parameters. -/
structure Config where
  effects : Effect → Bool
  eepromEnable : Bool := true
  limitVal : Byte := 255
  defaultMode : BitVec 7 := 1
  defaultHue : Byte := 0
  defaultSat : Byte := 255
  defaultVal : Byte := 255
  defaultSpeed : Byte := 0
  maxLayers : Nat := 8

/-- The first mode of every effect of a list. -/
def basesFrom (next : Nat) : List Effect → List (Effect × Nat)
  | [] => []
  | effect :: rest => (effect, next) :: basesFrom (next + effect.modes) rest

namespace Config

variable (cfg : Config)

/-- The effects that are compiled. `STATIC_LIGHT` is always there. -/
def compiled : List Effect := Effect.all.filter fun effect => effect = .staticLight ∨ cfg.effects effect

/-- The effects with their `RGBLIGHT_MODE_…` numbers. -/
def bases : List (Effect × Nat) := basesFrom 1 cfg.compiled

/-- `mode_base_table` -/
def modeBaseTable : List Byte :=
  0 :: cfg.bases.flatMap fun entry => List.replicate entry.1.modes (BitVec.ofNat 8 entry.2)

/-- `RGBLIGHT_MODES` -/
def rgblightModes : Nat := (cfg.compiled.map Effect.modes).sum

/-- `static_effect_table` -/
def staticEffectTable : List Byte :=
  cfg.bases.flatMap fun entry =>
    if entry.1.isStatic then (List.range' entry.2 entry.1.modes).map (BitVec.ofNat 8) else []

/-- `is_static_effect` -/
def isStaticEffect (mode : Byte) : Bool := cfg.staticEffectTable.contains mode

/-- The effect whose `RGBLIGHT_MODE_…` a base mode is equal to. -/
def effectAt (baseMode : Byte) : Option Effect :=
  (cfg.bases.find? fun entry => BitVec.ofNat 8 entry.2 = baseMode).map Prod.fst

/-- The width of `rgblight_layer_mask_t` -/
def maskWidth : Nat := if cfg.maxLayers ≤ 8 then 8 else if cfg.maxLayers ≤ 16 then 16 else 32

/-- A mode brought into the range from `RGBLIGHT_MODE_STATIC_LIGHT` to `RGBLIGHT_MODES`. -/
def clampMode (mode : Byte) : BitVec 7 :=
  if mode.toNat < 1 then 1
  else if cfg.rgblightModes < mode.toNat then BitVec.ofNat 7 cfg.rgblightModes
  else mode.setWidth 7

end Config

/-- `rgblight_config_t` -/
structure LightConfig where
  enable : Bool := false
  mode : BitVec 7 := 0
  hue : Byte := 0
  sat : Byte := 0
  val : Byte := 0
  speed : Byte := 0
  deriving DecidableEq, Repr

namespace LightConfig

/-- `rgblight_config.raw` -/
def raw (config : LightConfig) : BitVec 32 :=
  config.val ++ config.sat ++ config.hue ++ config.mode ++ BitVec.ofBool config.enable

/-- `rgblight_config.raw = dword`, which leaves the speed -/
def setRaw (config : LightConfig) (dword : BitVec 32) : LightConfig :=
  { config with
    enable := dword.getLsbD 0
    mode := dword.extractLsb' 1 7
    hue := dword.extractLsb' 8 8
    sat := dword.extractLsb' 16 8
    val := dword.extractLsb' 24 8 }

/-- `rgblight_config.mode` where the code computes with it. -/
def modeByte (config : LightConfig) : Byte := config.mode.setWidth 8

end LightConfig

/-- The statics of `rgblight.c` and the EEPROM's `EECONFIG_RGBLIGHT`. -/
structure State (cfg : Config) where
  config : LightConfig := {}
  baseMode : Byte := 0
  timerEnabled : Bool := false
  enabledLayerMask : BitVec cfg.maskWidth := 0
  isInitialized : Bool := false
  isSuspended : Bool := false
  preSuspendEnabled : Bool := false
  eeconfigEnabled : Bool
  eeprom : BitVec 32
  blinkingLayerMask : BitVec cfg.maskWidth := 0
  repeatTimer : BitVec 16 := 0
  timesRemaining : Byte := 0
  dur : BitVec 16 := 0

/-- What `rgblight_update_sync` reads of its `rgblight_syncinfo_t`. -/
structure SyncInfo (cfg : Config) where
  changeFlags : Byte
  config : LightConfig
  timerEnabled : Bool
  enabledLayerMask : BitVec cfg.maskWidth

section Functions

variable {cfg : Config} (s : State cfg)

/-- `rgblight_check_config` -/
def rgblightCheckConfig : State cfg :=
  { s with config := { s.config with
    mode := cfg.clampMode s.config.modeByte
    val := if cfg.limitVal < s.config.val then cfg.limitVal else s.config.val } }

/-- `eeconfig_read_rgblight` -/
def eeconfigReadRgblight : BitVec 32 := if cfg.eepromEnable then s.eeprom else 0

/-- `eeconfig_update_rgblight(rgblight_config.raw)` -/
def eeconfigUpdateRgblightCurrent : State cfg :=
  if cfg.eepromEnable then { rgblightCheckConfig s with eeprom := s.config.raw } else s

/-- `eeconfig_update_rgblight_default` -/
def eeconfigUpdateRgblightDefault : State cfg :=
  eeconfigUpdateRgblightCurrent { s with config :=
    { enable := true, mode := cfg.defaultMode, hue := cfg.defaultHue, sat := cfg.defaultSat,
      val := cfg.defaultVal, speed := cfg.defaultSpeed } }

/-- `rgblight_timer_enable` -/
def rgblightTimerEnable : State cfg :=
  if cfg.isStaticEffect s.config.modeByte then s else { s with timerEnabled := true }

/-- `rgblight_timer_disable` and `rgblight_timer_init` -/
def rgblightTimerDisable : State cfg := { s with timerEnabled := false }

/-- `rgblight_timer_toggle` -/
def rgblightTimerToggle : State cfg :=
  if s.timerEnabled then rgblightTimerDisable s else rgblightTimerEnable s

/-- `rgblight_sethsv_eeprom_helper`. Breathing ignores the value, the rainbows the hue. -/
def rgblightSethsvEepromHelper (hue sat val : Byte) (writeToEeprom : Bool) : State cfg :=
  if s.config.enable then
    let baseMode := cfg.modeBaseTable.getD s.config.mode.toNat 0
    let effect := if s.config.mode = 1 then none else cfg.effectAt baseMode
    let val := if effect = some .breathing then s.config.val else val
    let hue := if effect = some .rainbowMood ∨ effect = some .rainbowSwirl then s.config.hue else hue
    let s := { s with baseMode, config := { s.config with hue, sat, val } }
    if writeToEeprom then eeconfigUpdateRgblightCurrent s else s
  else s

/-- `rgblight_mode_eeprom_helper` -/
def rgblightModeEepromHelper (mode : Byte) (writeToEeprom : Bool) : State cfg :=
  if s.config.enable then
    let s := { s with config := { s.config with mode := cfg.clampMode mode } }
    let s := if writeToEeprom then eeconfigUpdateRgblightCurrent s else s
    let s := if cfg.isStaticEffect s.config.modeByte then rgblightTimerDisable s
      else rgblightTimerEnable s
    rgblightSethsvEepromHelper s s.config.hue s.config.sat s.config.val false
  else s

/-- `rgblight_enable` and `rgblight_enable_noeeprom` -/
def rgblightEnable (writeToEeprom : Bool) : State cfg :=
  rgblightModeEepromHelper { s with config := { s.config with enable := true } }
    s.config.modeByte writeToEeprom

/-- `rgblight_disable` and `rgblight_disable_noeeprom` -/
def rgblightDisable (writeToEeprom : Bool) : State cfg :=
  let s := { s with config := { s.config with enable := false } }
  rgblightTimerDisable (if writeToEeprom then eeconfigUpdateRgblightCurrent s else s)

/-- `rgblight_toggle` and `rgblight_toggle_noeeprom` -/
def rgblightToggle (writeToEeprom : Bool) : State cfg :=
  if s.config.enable then rgblightDisable s writeToEeprom else rgblightEnable s writeToEeprom

/-- `if (rgblight_config.enable) rgblight_mode_noeeprom(rgblight_config.mode)` -/
def rgblightShow : State cfg :=
  if s.config.enable then rgblightModeEepromHelper s s.config.modeByte false else s

/-- `rgblight_init` -/
def rgblightInit : State cfg :=
  if s.isInitialized then s
  else
    -- `eeconfig_init` writes 0 for `EECONFIG_RGBLIGHT`.
    let s := if s.eeconfigEnabled then s
      else eeconfigUpdateRgblightDefault { s with eeconfigEnabled := true, eeprom := 0 }
    let s := { s with config := s.config.setRaw (eeconfigReadRgblight s) }
    let s := if s.config.mode = 0 then
        let s := eeconfigUpdateRgblightDefault s
        { s with config := s.config.setRaw (eeconfigReadRgblight s) }
      else s
    { rgblightShow (rgblightTimerDisable (rgblightCheckConfig s)) with isInitialized := true }

/-- `rgblight_reload_from_eeprom` -/
def rgblightReloadFromEeprom : State cfg :=
  rgblightShow (rgblightCheckConfig { s with config := s.config.setRaw (eeconfigReadRgblight s) })

/-- `rgblight_update_dword` -/
def rgblightUpdateDword (dword : BitVec 32) : State cfg :=
  let s := { s with config := s.config.setRaw dword }
  if s.config.enable then rgblightModeEepromHelper s s.config.modeByte false
  else rgblightTimerDisable s

/-- `rgblight_increase` -/
def rgblightIncrease : State cfg :=
  rgblightModeEepromHelper s
    (if s.config.mode.toNat < cfg.rgblightModes then s.config.modeByte + 1 else 0) true

/-- `rgblight_decrease` -/
def rgblightDecrease : State cfg :=
  rgblightModeEepromHelper s (if 1 < s.config.mode.toNat then s.config.modeByte - 1 else 0) true

/-- `rgblight_step_helper` -/
def rgblightStepHelper (writeToEeprom : Bool) : State cfg :=
  let mode := s.config.modeByte + 1
  rgblightModeEepromHelper s (if cfg.rgblightModes < mode.toNat then 1 else mode) writeToEeprom

/-- `rgblight_step_reverse_helper` -/
def rgblightStepReverseHelper (writeToEeprom : Bool) : State cfg :=
  let mode := s.config.modeByte - 1
  rgblightModeEepromHelper s
    (if mode.toNat < 1 then BitVec.ofNat 8 cfg.rgblightModes else mode) writeToEeprom

/-- `rgblight_set_speed_eeprom_helper` -/
def rgblightSetSpeedEepromHelper (speed : Byte) (writeToEeprom : Bool) : State cfg :=
  let s := { s with config := { s.config with speed } }
  if writeToEeprom then eeconfigUpdateRgblightCurrent s else s

/-- `rgblight_increase_speed_helper` -/
def rgblightIncreaseSpeedHelper (writeToEeprom : Bool) : State cfg :=
  rgblightSetSpeedEepromHelper s
    (if s.config.speed < 3 then s.config.speed + 1 else s.config.speed) writeToEeprom

/-- `rgblight_decrease_speed_helper` -/
def rgblightDecreaseSpeedHelper (writeToEeprom : Bool) : State cfg :=
  rgblightSetSpeedEepromHelper s
    (if 0 < s.config.speed then s.config.speed - 1 else s.config.speed) writeToEeprom

/-- `rgblight_show_solid_color` -/
def rgblightShowSolidColor : State cfg :=
  rgblightModeEepromHelper (rgblightEnable s true) 1 true

/-- `rgblight_set_layer_state` -/
def rgblightSetLayerState (layer : Nat) (enabled : Bool) : State cfg :=
  let mask := (1 : BitVec cfg.maskWidth) <<< layer
  let s := { s with enabledLayerMask :=
    if enabled then s.enabledLayerMask ||| mask else s.enabledLayerMask &&& ~~~mask }
  -- "Static modes don't have a ticker running to update the LEDs"
  if s.timerEnabled then s else rgblightModeEepromHelper s s.config.modeByte false

/-- `rgblight_blink_layer_repeat`. The product and the difference are `uint8_t`s. -/
def rgblightBlinkLayerRepeat (layer : Nat) (durationMs : BitVec 16) (times : Byte)
    (now : BitVec 16) : State cfg :=
  let s := rgblightSetLayerState { s with timesRemaining := times * 2, dur := durationMs } layer true
  { s with
    timesRemaining := s.timesRemaining - 1
    blinkingLayerMask := s.blinkingLayerMask ||| (1 : BitVec cfg.maskWidth) <<< layer
    repeatTimer := now + durationMs }

/-- `timer_expired` -/
def timerExpired (current future : BitVec 16) : Bool := (current - future).toNat < 32767

/-- One round of the loop of `rgblight_blink_layer_repeat_helper`. -/
def blinkLayer (clock : Nat → BitVec 16) (s : State cfg) (layer : Nat) : State cfg :=
  if s.blinkingLayerMask.getLsbD layer ∧ 0 < s.timesRemaining then
    let s := rgblightSetLayerState s layer (s.timesRemaining.toNat % 2 ≠ 1)
    { s with timesRemaining := s.timesRemaining - 1, repeatTimer := clock layer + s.dur }
  else s

/-- `rgblight_blink_layer_repeat_helper`. The timer is read at the start and once for
every layer that blinks. -/
def rgblightBlinkLayerRepeatHelper (now : BitVec 16) (clock : Nat → BitVec 16) : State cfg :=
  if s.blinkingLayerMask ≠ 0 ∧ timerExpired now s.repeatTimer then
    let s := (List.range cfg.maxLayers).foldl (blinkLayer clock) s
    if s.timesRemaining = 0 then { s with blinkingLayerMask := 0 } else s
  else s

/-- `rgblight_task`. Its animations change neither modes nor layers. -/
def rgblightTask (now : BitVec 16) (clock : Nat → BitVec 16) : State cfg :=
  rgblightBlinkLayerRepeatHelper s now clock

/-- `rgblight_suspend` -/
def rgblightSuspend : State cfg :=
  let s := rgblightTimerDisable s
  if s.isSuspended then s
  else rgblightDisable { s with
    isSuspended := true
    preSuspendEnabled := s.config.enable
    enabledLayerMask := s.enabledLayerMask &&& ~~~s.blinkingLayerMask
    blinkingLayerMask := 0 } false

/-- `rgblight_wakeup` -/
def rgblightWakeup : State cfg :=
  let s := { s with isSuspended := false }
  rgblightTimerEnable (if s.preSuspendEnabled then rgblightEnable s false else s)

/-- `RGBLIGHT_STATUS_CHANGE_MODE`, `RGBLIGHT_STATUS_CHANGE_HSVS`,
`RGBLIGHT_STATUS_CHANGE_TIMER` and `RGBLIGHT_STATUS_CHANGE_LAYERS` -/
def statusChangeMode : Nat := 0
def statusChangeHsvs : Nat := 1
def statusChangeTimer : Nat := 2
def statusChangeLayers : Nat := 4

/-- The part of `rgblight_update_sync` for `RGBLIGHT_STATUS_CHANGE_MODE`. -/
def syncMode (info : SyncInfo cfg) (writeToEeprom : Bool) : State cfg :=
  if info.changeFlags.getLsbD statusChangeMode then
    if info.config.enable then
      rgblightModeEepromHelper { s with config := { s.config with enable := true } }
        info.config.modeByte writeToEeprom
    else rgblightDisable s false
  else s

/-- `rgblight_update_sync` up to the timer. -/
def syncLights (info : SyncInfo cfg) (writeToEeprom : Bool) : State cfg :=
  let s := if info.changeFlags.getLsbD statusChangeLayers then
      { s with enabledLayerMask := info.enabledLayerMask } else s
  let s := syncMode s info writeToEeprom
  if info.changeFlags.getLsbD statusChangeHsvs then
    rgblightSethsvEepromHelper s info.config.hue info.config.sat info.config.val writeToEeprom
  else s

/-- `rgblight_update_sync` -/
def rgblightUpdateSync (info : SyncInfo cfg) (writeToEeprom : Bool) : State cfg :=
  let s := syncLights s info writeToEeprom
  if info.changeFlags.getLsbD statusChangeTimer then
    if info.timerEnabled then rgblightTimerEnable s else rgblightTimerDisable s
  else s

end Functions

/-- The operations, and writes of others to the EEPROM. -/
inductive Event (cfg : Config) where
  | init
  | reload
  | updateDword (dword : BitVec 32)
  | mode (mode : Byte) (writeToEeprom : Bool)
  | increase
  | decrease
  | step (writeToEeprom : Bool)
  | stepReverse (writeToEeprom : Bool)
  | enable (writeToEeprom : Bool)
  | disable (writeToEeprom : Bool)
  | toggle (writeToEeprom : Bool)
  | sethsv (hue sat val : Byte) (writeToEeprom : Bool)
  | setSpeed (speed : Byte) (writeToEeprom : Bool)
  | increaseSpeed (writeToEeprom : Bool)
  | decreaseSpeed (writeToEeprom : Bool)
  | updateCurrent
  | showSolidColor
  | timerEnable
  | timerDisable
  | timerToggle
  | suspend
  | wakeup
  | updateSync (info : SyncInfo cfg) (writeToEeprom : Bool)
  | setLayerState (layer : Nat) (enabled : Bool)
  | blinkLayerRepeat (layer : Nat) (durationMs : BitVec 16) (times : Byte) (now : BitVec 16)
  | task (now : BitVec 16) (clock : Nat → BitVec 16)
  | store (dword : BitVec 32)

def exec {cfg : Config} (s : State cfg) : Event cfg → State cfg
  | .init => rgblightInit s
  | .reload => rgblightReloadFromEeprom s
  | .updateDword dword => rgblightUpdateDword s dword
  | .mode mode write => rgblightModeEepromHelper s mode write
  | .increase => rgblightIncrease s
  | .decrease => rgblightDecrease s
  | .step write => rgblightStepHelper s write
  | .stepReverse write => rgblightStepReverseHelper s write
  | .enable write => rgblightEnable s write
  | .disable write => rgblightDisable s write
  | .toggle write => rgblightToggle s write
  | .sethsv hue sat val write => rgblightSethsvEepromHelper s hue sat val write
  | .setSpeed speed write => rgblightSetSpeedEepromHelper s speed write
  | .increaseSpeed write => rgblightIncreaseSpeedHelper s write
  | .decreaseSpeed write => rgblightDecreaseSpeedHelper s write
  | .updateCurrent => eeconfigUpdateRgblightCurrent s
  | .showSolidColor => rgblightShowSolidColor s
  | .timerEnable => rgblightTimerEnable s
  | .timerDisable => rgblightTimerDisable s
  | .timerToggle => rgblightTimerToggle s
  | .suspend => rgblightSuspend s
  | .wakeup => rgblightWakeup s
  | .updateSync info write => rgblightUpdateSync s info write
  | .setLayerState layer enabled => rgblightSetLayerState s layer enabled
  | .blinkLayerRepeat layer duration times now => rgblightBlinkLayerRepeat s layer duration times now
  | .task now clock => rgblightTask s now clock
  | .store dword => { s with eeprom := dword }

end QmkSonix.Rgblight
