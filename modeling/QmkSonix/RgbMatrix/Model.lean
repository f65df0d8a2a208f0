import QmkSonix.Lib.Run
import QmkSonix.RgbMatrix.Hits

/-! `rgb_matrix.c`: the task that renders a frame in four phases, and what keys and mode
changes do to it. Without `RGB_DISABLE_WHEN_USB_SUSPENDED` nothing sets `suspend_state`, which
is left out. -/

namespace QmkSonix.RgbMatrix

open QmkSonix.Lib

structure RGB where
  r : Byte
  g : Byte
  b : Byte
  deriving DecidableEq, Repr

/-- `RGB_OFF` -/
def RGB.off : RGB := ⟨0, 0, 0⟩

/-- `rgb_task_states` -/
inductive TaskState where
  | starting
  | rendering
  | flushing
  | syncing
  deriving DecidableEq, Repr

/-- `effect_params_t` -/
structure EffectParams where
  iter : Byte
  flags : Byte
  init : Bool
  deriving DecidableEq, Repr

/-- Which key events are stored for reactive effects: `RGB_MATRIX_KEYPRESSES` or
`RGB_MATRIX_KEYRELEASES` -/
inductive Reactive where
  | keypresses
  | keyreleases
  deriving DecidableEq, Repr

/-- The macros of a keyboard, and where its LEDs are. -/
structure Config where
  /-- `DRIVER_LED_TOTAL` -/
  ledTotal : ℕ
  /-- `RGB_DISABLE_TIMEOUT` -/
  disableTimeout : BitVec 32
  /-- `RGB_MATRIX_LED_FLUSH_LIMIT` -/
  flushLimit : BitVec 32 := 16
  /-- `RGB_MATRIX_EFFECT_MAX` -/
  effectMax : ℕ
  /-- `RGB_MATRIX_STARTUP_MODE` -/
  startupMode : BitVec 6
  /-- `RGB_MATRIX_SPLIT` is defined -/
  split : Bool := false
  /-- `RGB_MATRIX_KEYREACTIVE_ENABLED` -/
  reactive : Option Reactive
  /-- `LED_HITS_TO_REMEMBER` -/
  hitsToRemember : ℕ := 8
  /-- `rgb_matrix_map_row_column_to_led_kb` -/
  mapKb : ℕ → ℕ → List Byte := fun _ _ => []
  /-- `g_led_config.matrix_co` -/
  matrixCo : ℕ → ℕ → Byte
  /-- `g_led_config.point` -/
  point : Byte → Byte × Byte

/-- The colours of all LEDs of the driver. -/
abbrev Colors (cfg : Config) := Fin cfg.ledTotal → RGB

/-- `rgb_matrix_set_color_all` -/
def setColorAll (cfg : Config) (color : RGB) : Colors cfg := fun _ => color

/-- The effects of a keyboard, over what they keep for themselves. -/
structure Effects (cfg : Config) (Scratch : Type*) where
  /-- The function of an effect, with whether it goes on rendering -/
  effect : Byte → EffectParams → (rgbTimer : BitVec 32) → (tracker : LastHit) →
    Scratch × Colors cfg → (Scratch × Colors cfg) × Bool
  /-- `rgb_matrix_indicators` and `rgb_matrix_indicators_advanced` -/
  indicators : EffectParams → Scratch × Colors cfg → Scratch × Colors cfg
  /-- What a key does to the frame buffer in a mode. -/
  typing : BitVec 6 → ℕ → ℕ → Scratch → Scratch

/-- `rgb_config_t`, as far as the task looks at it -/
structure Settings where
  enable : BitVec 2
  mode : BitVec 6
  flags : Byte
  deriving DecidableEq, Repr

structure State (cfg : Config) (Scratch : Type*) extends Settings where
  lastEnable : Byte := 255
  lastEffect : Byte := 255
  effectParams : EffectParams := { iter := 0, flags := 255, init := false }
  taskState : TaskState := .syncing
  anykeyTimer : BitVec 32 := 0
  timerBuffer : BitVec 32 := 0
  rgbTimer : BitVec 32 := 0
  lastHitBuffer : LastHit
  lastHitTracker : LastHit
  scratch : Scratch
  /-- What the driver buffers, and what it was last told to show. -/
  colors : Colors cfg
  flushed : Colors cfg

variable {cfg : Config} {Scratch : Type*} (fx : Effects cfg Scratch)

/-- `rgb_matrix_map_row_column_to_led` -/
def mapRowColumnToLed (cfg : Config) (row column : ℕ) : List Byte :=
  let ledIndex := cfg.matrixCo row column
  if ledIndex ≠ 255 then cfg.mapKb row column ++ [ledIndex] else cfg.mapKb row column

/-- The LEDs that `process_rgb_matrix` stores for a key event, just hit. -/
def newHits (cfg : Config) (row column : ℕ) (pressed : Bool) : List Hit :=
  let leds : List Byte :=
    match cfg.reactive with
    | none => []
    | some .keyreleases => if !pressed then mapRowColumnToLed cfg row column else []
    | some .keypresses => if pressed then mapRowColumnToLed cfg row column else []
  leds.map fun led =>
    { x := (cfg.point led).1, y := (cfg.point led).2, index := led, tick := 0 }

/-- `process_rgb_matrix` -/
def processRgbMatrix (state : State cfg Scratch) (row column : ℕ) (pressed master : Bool) :
    State cfg Scratch :=
  if !cfg.split && !master then state
  else
    { state with
      anykeyTimer := if 0 < cfg.disableTimeout then 0 else state.anykeyTimer
      lastHitBuffer :=
        if cfg.reactive.isSome then
          state.lastHitBuffer.record cfg.hitsToRemember (newHits cfg row column pressed)
        else state.lastHitBuffer
      scratch := fx.typing state.mode row column state.scratch }

/-- `rgb_matrix_test` -/
def rgbMatrixTest (cfg : Config) (rgbTimer : BitVec 32) : Colors cfg :=
  match (rgbTimer.toNat / 1024) % 4 with
  | 0 => setColorAll cfg ⟨20, 0, 0⟩
  | 1 => setColorAll cfg ⟨0, 20, 0⟩
  | 2 => setColorAll cfg ⟨0, 0, 20⟩
  | _ => setColorAll cfg ⟨20, 20, 20⟩

/-- `rgb_matrix_none` -/
def rgbMatrixNone (params : EffectParams) (picture : Scratch × Colors cfg) :
    (Scratch × Colors cfg) × Bool :=
  if !params.init then (picture, false)
  else ((picture.1, setColorAll cfg .off), false)

/-- What a task reads from the timer: for the elapsed time, for the next elapsed time, and in
`rgb_task_sync`. -/
structure Reads where
  elapsed : BitVec 32
  buffer : BitVec 32
  sync : BitVec 32
  deriving DecidableEq, Repr

/-- `rgb_task_timers` -/
def rgbTaskTimers (state : State cfg Scratch) (reads : Reads) : State cfg Scratch :=
  let deltaTime := reads.elapsed - state.timerBuffer
  { state with
    timerBuffer := reads.buffer
    anykeyTimer :=
      if 0 < cfg.disableTimeout ∧ state.anykeyTimer + deltaTime ≤ BitVec.allOnes 32 then
        state.anykeyTimer + deltaTime
      else state.anykeyTimer
    lastHitBuffer :=
      if cfg.reactive.isSome then state.lastHitBuffer.age deltaTime else state.lastHitBuffer }

/-- `rgb_task_sync`, as far as it does not store the settings -/
def rgbTaskSync (state : State cfg Scratch) (now : BitVec 32) : State cfg Scratch :=
  if cfg.flushLimit ≤ now - state.rgbTimer then { state with taskState := .starting } else state

/-- `rgb_task_start` -/
def rgbTaskStart (state : State cfg Scratch) : State cfg Scratch :=
  { state with
    effectParams.iter := 0
    rgbTimer := state.timerBuffer
    lastHitTracker := if cfg.reactive.isSome then state.lastHitBuffer else state.lastHitTracker
    taskState := .rendering }

/-- The `init` of `rgb_task_render` -/
def State.renderInit (state : State cfg Scratch) (effect : Byte) : Bool :=
  effect ≠ state.lastEffect || state.enable.setWidth 8 ≠ state.lastEnable

/-- The first lines of `rgb_task_render`: new parameters, and a dark picture where the flags
have changed -/
def State.prepared (state : State cfg Scratch) (effect : Byte) : State cfg Scratch :=
  { state with
    effectParams := { state.effectParams with
      init := state.renderInit effect
      flags := state.flags }
    colors :=
      if state.effectParams.flags ≠ state.flags then setColorAll cfg .off else state.colors }

/-- The `switch` of `rgb_task_render` without its last case -/
def runEffect (state : State cfg Scratch) (effect : Byte) : (Scratch × Colors cfg) × Bool :=
  if effect = 0 then rgbMatrixNone state.effectParams (state.scratch, state.colors)
  else if effect.toNat < cfg.effectMax then
    fx.effect effect state.effectParams state.rgbTimer state.lastHitTracker
      (state.scratch, state.colors)
  else ((state.scratch, state.colors), false)

/-- `rgb_task_render` -/
def rgbTaskRender (state : State cfg Scratch) (effect : Byte) : State cfg Scratch :=
  let state := state.prepared effect
  if effect = 255 then
    { state with colors := rgbMatrixTest cfg state.rgbTimer, taskState := .flushing }
  else
    let ((scratch, colors), rendering) := runEffect fx state effect
    { state with
      scratch := scratch
      colors := colors
      effectParams.iter := state.effectParams.iter + 1
      taskState :=
        if rendering then state.taskState
        else if !state.effectParams.init && effect = 0 then .syncing
        else .flushing }

/-- The calls of the indicators behind `rgb_task_render` -/
def indicate (state : State cfg Scratch) : State cfg Scratch :=
  let (scratch, colors) := fx.indicators state.effectParams (state.scratch, state.colors)
  { state with scratch := scratch, colors := colors }

/-- `rgb_task_flush` -/
def rgbTaskFlush (state : State cfg Scratch) (effect : Byte) : State cfg Scratch :=
  { state with
    lastEffect := effect
    lastEnable := state.enable.setWidth 8
    flushed := state.colors
    taskState := .syncing }

/-- The effect that `rgb_matrix_task` computes behind `rgb_task_timers` -/
def State.effect (state : State cfg Scratch) : Byte :=
  if (0 < cfg.disableTimeout ∧ cfg.disableTimeout < state.anykeyTimer) ∨ state.enable = 0 then 0
  else state.mode.setWidth 8

/-- The `switch` of `rgb_matrix_task` -/
def runPhase (state : State cfg Scratch) (reads : Reads) : State cfg Scratch :=
  match state.taskState with
  | .starting => rgbTaskStart state
  | .rendering =>
    let rendered := rgbTaskRender fx state state.effect
    if state.effect = 0 then rendered else indicate fx rendered
  | .flushing => rgbTaskFlush state state.effect
  | .syncing => rgbTaskSync state reads.sync

/-- `rgb_matrix_task` -/
def rgbMatrixTask (state : State cfg Scratch) (reads : Reads) : State cfg Scratch :=
  runPhase fx (rgbTaskTimers state reads) reads

/-- `rgb_matrix_toggle` -/
def toggle (state : State cfg Scratch) : State cfg Scratch :=
  { state with enable := state.enable ^^^ 1, taskState := .starting }

/-- `rgb_matrix_enable` -/
def enable (state : State cfg Scratch) : State cfg Scratch :=
  { state with
    taskState := if state.enable = 0 then .starting else state.taskState
    enable := 1 }

/-- `rgb_matrix_disable` -/
def disable (state : State cfg Scratch) : State cfg Scratch :=
  { state with
    taskState := if state.enable = 0 then state.taskState else .starting
    enable := 0 }

/-- `rgb_matrix_mode` -/
def setMode (state : State cfg Scratch) (mode : Byte) : State cfg Scratch :=
  if state.enable = 0 then state
  else
    let mode :=
      if mode < 1 then 1
      else if cfg.effectMax ≤ mode.toNat then BitVec.ofNat 8 (cfg.effectMax - 1)
      else mode
    { state with mode := mode.setWidth 6, taskState := .starting }

/-- `rgb_matrix_step` -/
def stepMode (state : State cfg Scratch) : State cfg Scratch :=
  let mode := state.mode.setWidth 8 + 1
  setMode state (if mode.toNat < cfg.effectMax then mode else 1)

/-- `rgb_matrix_step_reverse` -/
def stepModeReverse (state : State cfg Scratch) : State cfg Scratch :=
  let mode := state.mode.setWidth 8 - 1
  setMode state (if mode < 1 then BitVec.ofNat 8 (cfg.effectMax - 1) else mode)

/-- `rgb_matrix_set_flags` -/
def setFlags (state : State cfg Scratch) (flags : Byte) : State cfg Scratch :=
  { state with flags := flags }

/-- What is done with the matrix. -/
inductive Event where
  | key (row column : ℕ) (pressed master : Bool)
  | task (reads : Reads)
  | toggle
  | enable
  | disable
  | mode (mode : Byte)
  | step
  | stepReverse
  | flags (flags : Byte)
  deriving DecidableEq, Repr

def step (state : State cfg Scratch) : Event → State cfg Scratch
  | .key row column pressed master => processRgbMatrix fx state row column pressed master
  | .task reads => rgbMatrixTask fx state reads
  | .toggle => toggle state
  | .enable => enable state
  | .disable => disable state
  | .mode mode => setMode state mode
  | .step => stepMode state
  | .stepReverse => stepModeReverse state
  | .flags flags => setFlags state flags

/-- `eeconfig_update_rgb_matrix_default` -/
def defaultSettings (cfg : Config) : Settings where
  enable := 1
  mode := cfg.startupMode
  flags := 255

/-- The settings that `rgb_matrix_init` starts with: those of the EEPROM, if it is in use -/
def initSettings (cfg : Config) (stored : Option Settings) : Settings :=
  match stored with
  | none => defaultSettings cfg
  | some stored => if stored.mode = 0 then defaultSettings cfg else stored

/-- The static variables behind `rgb_matrix_init`, over what the effects and the driver start
with -/
def rgbMatrixInit (cfg : Config) (stored : Option Settings) (scratch : Scratch)
    (colors flushed : Colors cfg) : State cfg Scratch where
  toSettings := initSettings cfg stored
  lastHitBuffer := .clear fun _ => { x := 0, y := 0, index := 0, tick := 0 }
  lastHitTracker := .clear fun _ => { x := 0, y := 0, index := 0, tick := 0 }
  scratch := scratch
  colors := colors
  flushed := flushed

section Frame

/-- The settings, the timers and the hits of two states are the same. -/
structure SameInput (state other : State cfg Scratch) : Prop where
  settings : other.toSettings = state.toSettings
  anykeyTimer : other.anykeyTimer = state.anykeyTimer
  timerBuffer : other.timerBuffer = state.timerBuffer
  lastHitBuffer : other.lastHitBuffer = state.lastHitBuffer

theorem sameInput_rgbTaskRender (state : State cfg Scratch) (effect : Byte) :
    SameInput state (rgbTaskRender fx state effect) := by
  unfold rgbTaskRender
  dsimp only
  split
  · exact ⟨rfl, rfl, rfl, rfl⟩
  · exact ⟨rfl, rfl, rfl, rfl⟩

/-- Rendering a frame leaves what the frame depends on as it is. -/
theorem sameInput_runPhase (state : State cfg Scratch) (reads : Reads) :
    SameInput state (runPhase fx state reads) := by
  unfold runPhase
  cases state.taskState with
  | starting => exact ⟨rfl, rfl, rfl, rfl⟩
  | rendering =>
    obtain ⟨settings, anykeyTimer, timerBuffer, lastHitBuffer⟩ :=
      sameInput_rgbTaskRender fx state state.effect
    dsimp only
    split
    · exact ⟨settings, anykeyTimer, timerBuffer, lastHitBuffer⟩
    · exact ⟨settings, anykeyTimer, timerBuffer, lastHitBuffer⟩
  | flushing => exact ⟨rfl, rfl, rfl, rfl⟩
  | syncing =>
    simp only [rgbTaskSync]
    split <;> exact ⟨rfl, rfl, rfl, rfl⟩

/-- Neither the timers nor the hits depend on the settings. -/
structure SameTimers (state other : State cfg Scratch) : Prop where
  anykeyTimer : other.anykeyTimer = state.anykeyTimer
  timerBuffer : other.timerBuffer = state.timerBuffer
  lastHitBuffer : other.lastHitBuffer = state.lastHitBuffer

theorem sameTimers_setMode (state : State cfg Scratch) (mode : Byte) :
    SameTimers state (setMode state mode) := by
  unfold setMode
  split <;> exact ⟨rfl, rfl, rfl⟩

end Frame

end QmkSonix.RgbMatrix
