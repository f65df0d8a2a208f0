import QmkSonix.RgbMatrix.Limits
import QmkSonix.SharedScan.Model

/-! The effects of `animations/` as the LEDs that they reach, over the driver whose interrupt
looks the LEDs up by itself. -/

namespace QmkSonix.RgbMatrix

open QmkSonix.Lib

/-- The effects, those over an effect runner by their runner -/
inductive Animation where
  | solidColor
  | alphasMods
  | runnerDxDy
  | runnerDxDyDist
  | runnerI
  | runnerReactive
  | runnerReactiveSplash
  | runnerSinCosI
  | raindrops
  | jellybeanRaindrops
  | digitalRain
  | typingHeatmap
  | pixelFractal
  deriving DecidableEq, Repr

/-- A keyboard whose LEDs an SN32 drives: `g_led_config`, and what else decides which LEDs an
effect reaches -/
structure Layout (cfg : Config) where
  board : SharedScan.Board
  /-- `g_led_config.flags` -/
  flags : ℕ → Byte
  /-- What lies in front of `g_led_config.matrix_co` -/
  before : Byte
  /-- `RGB_MATRIX_LED_PROCESS_LIMIT` -/
  limit : ℕ
  /-- The first number of `RGB_MATRIX_SPLIT` -/
  leftLeds : Byte
  /-- `is_keyboard_left` -/
  left : Bool
  /-- `rgb_matrix_config.speed` -/
  speed : Byte
  /-- The effects from 1 up to `RGB_MATRIX_EFFECT_MAX` -/
  animation : Byte → Animation
  total_pos : 0 < cfg.ledTotal
  total_lt : cfg.ledTotal < 255
  sameTable : board.matrixCo = cfg.matrixCo
  entries : ∀ row < board.rows, ∀ col < board.cols,
    (cfg.matrixCo row col).toNat < cfg.ledTotal ∨ cfg.matrixCo row col = 255
  mapKb_lt : ∀ row col, ∀ led ∈ cfg.mapKb row col, led.toNat < cfg.ledTotal
  ledCols_le : board.ledCols ≤ board.cols
  rows_le : board.rows ≤ 255
  cols_le : board.cols ≤ 32

/-- What the effects compute, over what they keep: the frame buffer, the random numbers and
the static variables that do not decide which LEDs are reached -/
structure Painter (Memory : Type*) where
  /-- `rand` -/
  rand : Memory → Memory × ℕ
  /-- What an effect does before its loop, in a round of it, and behind it -/
  start : Animation → EffectParams → BitVec 32 → Memory → Memory
  round : Animation → EffectParams → BitVec 32 → Visit → Memory → Memory
  finish : Animation → EffectParams → BitVec 32 → Memory → Memory
  /-- The colour of an LED -/
  color : Animation → EffectParams → BitVec 32 → LastHit → Visit → Memory → RGB
  /-- `process_rgb_matrix_typing_heatmap` -/
  typing : ℕ → ℕ → Memory → Memory

/-- What the effects have called `rgb_matrix_set_color` with, and what they keep -/
structure Drawing (Memory : Type*) where
  calls : List (ℕ × RGB) := []
  /-- The `wait_timer` of `PIXEL_FRACTAL` -/
  waitTimer : BitVec 32 := 0
  memory : Memory

abbrev Canvas (cfg : Config) (Memory : Type*) := Drawing Memory × Colors cfg

/-- `rgb_matrix_set_color` -/
def rgbMatrixSetColor {cfg : Config} {Memory : Type*} (canvas : Canvas cfg Memory) (index : ℕ)
    (color : RGB) : Canvas cfg Memory :=
  ({ canvas.1 with calls := canvas.1.calls ++ [(index, color)] },
    fun led => if led.val = index then color else canvas.2 led)

/-- `qadd8` -/
def qadd8 (i j : Byte) : Byte := if i.toNat + j.toNat < 256 then i + j else 255

/-- `scale16by8`, without `FASTLED_SCALE8_FIXED` -/
def scale16by8 (i : BitVec 16) (scale : Byte) : BitVec 16 :=
  BitVec.ofNat 16 (i.toNat * scale.toNat / 256)

section Effects

variable {cfg : Config} {Memory : Type*} (layout : Layout cfg) (painter : Painter Memory)

/-- What a call of an effect gets. -/
structure Call where
  animation : Animation
  params : EffectParams
  rgbTimer : BitVec 32
  tracker : LastHit

variable (call : Call)

/-- The part of an effect that does not reach LEDs -/
def Canvas.change (canvas : Canvas cfg Memory) (change : Memory → Memory) : Canvas cfg Memory :=
  ({ canvas.1 with memory := change canvas.1.memory }, canvas.2)

/-- The colour of a visit goes to an LED. -/
def paint (visit : Visit) (canvas : Canvas cfg Memory) (index : ℕ) : Canvas cfg Memory :=
  rgbMatrixSetColor canvas index
    (painter.color call.animation call.params call.rgbTimer call.tracker visit canvas.1.memory)

/-- `RGB_MATRIX_USE_LIMITS`, for every `RGB_MATRIX_LED_PROCESS_LIMIT` -/
def Layout.useLimits (iter : Byte) : ℕ × ℕ :=
  let (min, max) :=
    if 0 < layout.limit ∧ layout.limit < cfg.ledTotal then
      let min := layout.limit * iter.toNat % 256
      let max := (min + layout.limit) % 256
      (min, if cfg.ledTotal < max then cfg.ledTotal else max)
    else (0, cfg.ledTotal)
  if cfg.split then
    (if !layout.left && min < layout.leftLeds.toNat then layout.leftLeds.toNat else min,
      if layout.left && layout.leftLeds.toNat < max then layout.leftLeds.toNat else max)
  else (min, max)

/-- `rgb_matrix_check_finished_leds` -/
def Layout.checkFinishedLeds (ledIdx : ℕ) : Bool :=
  if cfg.split && layout.left then ledIdx < layout.leftLeds.toNat else ledIdx < cfg.ledTotal

/-- A round of a loop over LEDs with `RGB_MATRIX_TEST_LED_FLAGS` -/
def drawLed (canvas : Canvas cfg Memory) (i : ℕ) : Canvas cfg Memory :=
  if layout.flags i &&& call.params.flags = 0 then canvas
  else
    paint painter call (.led i)
      (canvas.change (painter.round call.animation call.params call.rgbTimer (.led i))) i

/-- An effect that goes through a slice of LEDs: `SOLID_COLOR`, `ALPHAS_MODS` and the effect
runners -/
def drawLeds (canvas : Canvas cfg Memory) : Canvas cfg Memory × Bool :=
  let (min, max) := layout.useLimits call.params.iter
  ((List.range' min (max - min)).foldl (drawLed layout painter call) canvas,
    layout.checkFinishedLeds max)

/-- `RAINDROPS` and `JELLYBEAN_RAINDROPS`, which change one LED at some of the times -/
def drawRaindrops (every : ℕ) (canvas : Canvas cfg Memory) : Canvas cfg Memory × Bool :=
  if !call.params.init then
    if (scale16by8 (call.rgbTimer.setWidth 16) (qadd8 layout.speed 16)).toNat % every = 0 then
      let (memory, number) := painter.rand canvas.1.memory
      (drawLed layout painter call (canvas.change fun _ => memory) (number % cfg.ledTotal), false)
    else (canvas, false)
  else drawLeds layout painter call canvas

/-- A round of the loops of `DIGITAL_RAIN`, which lights one of the LEDs of a key -/
def drawDrop (canvas : Canvas cfg Memory) (cell : ℕ × ℕ) : Canvas cfg Memory :=
  let visit := Visit.cell cell.1 cell.2
  let canvas := canvas.change (painter.round call.animation call.params call.rgbTimer visit)
  match mapRowColumnToLed cfg cell.1 cell.2 with
  | [] => canvas
  | led :: _ => paint painter call visit canvas led.toNat

/-- `DIGITAL_RAIN`, which goes through the keys column by column -/
def drawDigitalRain (canvas : Canvas cfg Memory) : Canvas cfg Memory × Bool :=
  let canvas : Canvas cfg Memory :=
    if call.params.init then (canvas.1, setColorAll cfg .off) else canvas
  let canvas := Canvas.change canvas (painter.start call.animation call.params call.rgbTimer)
  let cells := (List.range layout.board.cols).flatMap fun col =>
    (List.range layout.board.rows).map fun row => (row, col)
  (Canvas.change (cells.foldl (drawDrop painter call) canvas)
    (painter.finish call.animation call.params call.rgbTimer), false)

/-- A round of the loop of `TYPING_HEATMAP` -/
def drawHeat (canvas : Canvas cfg Memory) (i : ℕ) : Canvas cfg Memory :=
  let row := i % layout.board.rows
  let col := i / layout.board.rows
  let visit := Visit.cell row col
  let canvas := (mapRowColumnToLed cfg row col).foldl
    (fun canvas led =>
      if layout.flags led.toNat &&& call.params.flags = 0 then canvas
      else paint painter call visit canvas led.toNat) canvas
  Canvas.change canvas (painter.round call.animation call.params call.rgbTimer visit)

/-- `TYPING_HEATMAP` -/
def drawHeatmap (canvas : Canvas cfg Memory) : Canvas cfg Memory × Bool :=
  let size := layout.board.rows * layout.board.cols
  let min := layout.limit * call.params.iter.toNat % 256
  let max := (min + layout.limit) % 256
  let max := if size < max then size else max
  let canvas : Canvas cfg Memory :=
    if call.params.init then (canvas.1, setColorAll cfg .off) else canvas
  let canvas := Canvas.change canvas (painter.start call.animation call.params call.rgbTimer)
  ((List.range' min (max - min)).foldl (drawHeat layout painter call) canvas, max < size)

/-- The `MID_COL` of `PIXEL_FRACTAL` -/
def Layout.midCol : ℕ := layout.board.cols / 2

/-- `matrix_co[h][MID_COL - 1]`, which lies in the row before where there is one column -/
def Layout.beforeMid (row : ℕ) : Byte :=
  if 0 < layout.midCol then cfg.matrixCo row (layout.midCol - 1)
  else if 0 < row then cfg.matrixCo (row - 1) (layout.board.cols - 1)
  else layout.before

/-- The entries of `matrix_co` that `PIXEL_FRACTAL` looks up in a row: the left columns, the
right ones from the edge, and the two in the middle -/
def Layout.fractalLeds (row : ℕ) : List Byte :=
  (List.range (layout.midCol - 1)).map (cfg.matrixCo row) ++
    (List.range' (layout.midCol + 1)
      (layout.board.cols - 1 - layout.midCol)).reverse.map (cfg.matrixCo row) ++
    [cfg.matrixCo row layout.midCol, layout.beforeMid row]

/-- A round of the outer loop of `PIXEL_FRACTAL` -/
def drawFractalRow (canvas : Canvas cfg Memory) (row : ℕ) : Canvas cfg Memory :=
  Canvas.change
    ((layout.fractalLeds row).zipIdx.foldl
      (fun canvas led => paint painter call (.cell row led.2) canvas led.1.toNat) canvas)
    (painter.round call.animation call.params call.rgbTimer (.cell row 0))

/-- `PIXEL_FRACTAL` -/
def drawPixelFractal (canvas : Canvas cfg Memory) : Canvas cfg Memory × Bool :=
  if call.rgbTimer < canvas.1.waitTimer then (canvas, false)
  else
    let canvas := (List.range layout.board.rows).foldl (drawFractalRow layout painter call) canvas
    let interval := 3000 / (scale16by8 ((qadd8 layout.speed 16).setWidth 16) 16).toNat
    (({ canvas.1 with waitTimer := call.rgbTimer + BitVec.ofNat 32 interval }, canvas.2), false)

/-- The call of an effect -/
def drawEffect (canvas : Canvas cfg Memory) : Canvas cfg Memory × Bool :=
  match call.animation with
  | .raindrops => drawRaindrops layout painter call 10 canvas
  | .jellybeanRaindrops => drawRaindrops layout painter call 5 canvas
  | .digitalRain => drawDigitalRain layout painter call canvas
  | .typingHeatmap => drawHeatmap layout painter call canvas
  | .pixelFractal => drawPixelFractal layout painter call canvas
  | .solidColor | .alphasMods | .runnerDxDy | .runnerDxDyDist | .runnerI | .runnerReactive
  | .runnerReactiveSplash | .runnerSinCosI => drawLeds layout painter call canvas

/-- The effects of a keyboard without indicators of its own -/
def layoutEffects : Effects cfg (Drawing Memory) where
  effect := fun number params rgbTimer tracker canvas =>
    drawEffect layout painter ⟨layout.animation number, params, rgbTimer, tracker⟩ canvas
  indicators := fun _ canvas => canvas
  typing := fun mode row col drawing =>
    if layout.animation (mode.setWidth 8) = .typingHeatmap then
      { drawing with memory := painter.typing row col drawing.memory }
    else drawing

end Effects

section Machine

variable {cfg : Config} {Memory : Type*} (layout : Layout cfg) (painter : Painter Memory)

/-- The matrix, the driver, and the indexes that `led_state` has been read at -/
structure Machine (layout : Layout cfg) (Memory : Type*) where
  matrix : State cfg (Drawing Memory)
  scan : SharedScan.State layout.board
  ledReads : List ℕ := []

/-- What happens to the keyboard. -/
inductive Deed where
  | matrix (event : Event)
  | callback (pressed : ℕ → Bool)

/-- What the calls of an event leave in `led_state`, and behind it -/
def storeColors (scan : SharedScan.State layout.board) (colors : Colors cfg)
    (calls : List (ℕ × RGB)) : SharedScan.State layout.board :=
  let behind := calls.foldl
    (fun scan call => SharedScan.setColor scan call.1 ⟨call.2.r, call.2.g, call.2.b⟩) scan
  { behind with
    ledState := fun index =>
      if inside : index < cfg.ledTotal then
        let color := colors ⟨index, inside⟩
        ⟨color.r, color.g, color.b⟩
      else behind.ledState index }

def machineStep (machine : Machine layout Memory) : Deed → Machine layout Memory
  | .matrix event =>
    let matrix := step (layoutEffects layout painter) machine.matrix event
    { machine with
      matrix := matrix
      scan := storeColors layout machine.scan matrix.colors
        (matrix.scratch.calls.drop machine.matrix.scratch.calls.length) }
  | .callback pressed =>
    let scan := (SharedScan.rgbCallback machine.scan pressed).1
    { machine with
      scan := scan
      ledReads := machine.ledReads ++
        (List.range layout.board.ledCols).map (SharedScan.ledIndex layout.board scan.rowIdx) }

/-- The keyboard behind `rgb_matrix_init`, over its stored settings -/
def machineInit (stored : Option Settings) (memory : Memory) : Machine layout Memory where
  matrix := rgbMatrixInit cfg stored { memory := memory } (fun _ => .off) fun _ => .off
  scan := {}

end Machine

end QmkSonix.RgbMatrix
