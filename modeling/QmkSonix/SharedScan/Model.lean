import Mathlib
import QmkSonix.Lib.Run

/-! `rgb_matrix_sn32f24xb.c` and `matrix_sn32f24xx.c` with `COL2ROW` diodes: one interrupt
lights a row of LEDs and samples a row of keys, and `matrix_scan` looks at what it has found. -/

namespace QmkSonix.SharedScan

open QmkSonix.Lib

abbrev Byte := BitVec 8

structure RGB where
  r : Byte
  g : Byte
  b : Byte
  deriving DecidableEq, Repr

/-- A pin of the chip, by its port -/
inductive Pin where
  | a (number : ℕ)
  | b (number : ℕ)
  | c (number : ℕ)
  deriving DecidableEq, Repr

/-- The PWM channel of a pin in the `switch` of `rgb_ch_ctrl`, if it has one -/
def Pin.channel : Pin → Option ℕ
  | .a number => if number < 16 then some number else none
  | .b number =>
    if number < 8 then some (16 + number) else if number < 16 then some (number - 8) else none
  | .c number => if number < 16 then some (8 + number) else none

/-- `LED_MATRIX_ROW_CHANNELS` -/
def ledMatrixRowChannels : ℕ := 3

/-- A keyboard with as many rows of LEDs as of keys. -/
structure Board where
  /-- `LED_MATRIX_ROWS`, which is `MATRIX_ROWS` -/
  rows : ℕ
  /-- `MATRIX_COLS` -/
  cols : ℕ
  /-- `LED_MATRIX_COL_PINS` -/
  ledColPins : List Pin
  /-- The bits of a `matrix_row_t` -/
  rowWidth : ℕ
  /-- `g_led_config.matrix_co` -/
  matrixCo : ℕ → ℕ → Byte
  rows_pos : 0 < rows
  cols_pos : 0 < cols
  cols_le : cols ≤ rowWidth

/-- `LED_MATRIX_ROWS_HW` -/
def Board.rowsHw (board : Board) : ℕ := 3 * board.rows

/-- `LED_MATRIX_COLS` -/
def Board.ledCols (board : Board) : ℕ := board.ledColPins.length

/-- What `rgb_ch_ctrl` leaves in `chan_col_order`, which starts with zeros -/
def Board.chanColOrder (board : Board) (col : ℕ) : ℕ :=
  ((board.ledColPins[col]?).bind Pin.channel).getD 0

abbrev Rows (board : Board) := ℕ → BitVec board.rowWidth

structure State (board : Board) where
  currentRow : Byte := 0
  rowIdx : Byte := 0
  enablePwm : Bool := false
  /-- The colours of `led_state`, and what lies behind them -/
  ledState : ℕ → RGB := fun _ => ⟨0, 0, 0⟩
  rawMatrix : Rows board := fun _ => 0
  lastMatrix : Rows board := fun _ => 0

/-- What a callback does to the outputs: the LED row pin that it sets behind clearing all of
them, and the channels that it enables behind disabling all of them, each with its duty. -/
structure Output where
  rowPin : Option ℕ
  duties : List (ℕ × Byte)
  deriving DecidableEq, Repr

variable {board : Board}

/-- `matrix_scan_keys` for one row, over which columns read `PRESSED_KEY_PIN_STATE` -/
def matrixScanKeys (board : Board) (pressed : ℕ → Bool) (row : BitVec board.rowWidth) :
    BitVec board.rowWidth :=
  (List.range board.cols).foldl
    (fun row col =>
      if pressed col then row ||| ((1 : BitVec board.rowWidth) <<< col)
      else row &&& ~~~((1 : BitVec board.rowWidth) <<< col))
    row

/-- The counters behind the first lines of `rgb_callback` -/
def advance (board : Board) (counters : Byte × Byte) : Byte × Byte :=
  let currentRow := counters.1 + 1
  let currentRow := if board.rowsHw ≤ currentRow.toNat then 0 else currentRow
  let rowIdx :=
    if currentRow.toNat % ledMatrixRowChannels = 2 then counters.2 + 1 else counters.2
  let rowIdx := if board.rows ≤ rowIdx.toNat then 0 else rowIdx
  (currentRow, rowIdx)

/-- The colour that the `switch` of `update_pwm_channels` selects -/
def component (currentRow : Byte) (color : RGB) : Byte :=
  match currentRow.toNat % ledMatrixRowChannels with
  | 0 => color.b
  | 1 => color.g
  | _ => color.r

/-- The index that `update_pwm_channels` reads `led_state` at -/
def ledIndex (board : Board) (rowIdx : Byte) (col : ℕ) : ℕ :=
  (board.matrixCo rowIdx.toNat col).toNat

/-- A round of the loop of `update_pwm_channels`, over whether the PWM is enabled and what it
has enabled -/
def updateChannel (state : State board) (update : Bool × List (ℕ × Byte)) (col : ℕ) :
    Bool × List (ℕ × Byte) :=
  let color := state.ledState (ledIndex board state.rowIdx col)
  let enablePwm := update.1 || color.b ≠ 0 || color.g ≠ 0 || color.r ≠ 0
  (enablePwm,
    if enablePwm then
      update.2 ++ [(board.chanColOrder col, component state.currentRow color)]
    else update.2)

/-- `update_pwm_channels` -/
def updatePwmChannels (state : State board) : Bool × List (ℕ × Byte) :=
  (List.range board.ledCols).foldl (updateChannel state) (state.enablePwm, [])

/-- The first part of `rgb_callback`: the next row of LEDs, and the keys of the row that it
belongs to, over the pins that are read -/
def sampleRow (state : State board) (pressed : ℕ → Bool) : State board :=
  let counters := advance board (state.currentRow, state.rowIdx)
  let row := counters.2.toNat
  { state with
    currentRow := counters.1
    rowIdx := counters.2
    rawMatrix := Function.update state.rawMatrix row
      (matrixScanKeys board pressed (state.rawMatrix row)) }

/-- `rgb_callback` -/
def rgbCallback (state : State board) (pressed : ℕ → Bool) : State board × Output :=
  let state := sampleRow state pressed
  let (enablePwm, duties) := updatePwmChannels state
  ({ state with enablePwm := enablePwm },
    { rowPin := if enablePwm then some state.currentRow.toNat else none, duties := duties })

/-- A round of the loops of `matrix_scan`, with `matrix_changed` -/
def scanRow (rawMatrix : Rows board) (scan : Bool × Rows board) (row : ℕ) : Bool × Rows board :=
  if scan.2 row ≠ rawMatrix row then (true, Function.update scan.2 row (rawMatrix row)) else scan

/-- `matrix_scan`, as far as the debounce algorithm is not concerned: what it returns -/
def matrixScan (state : State board) : State board × Bool :=
  let (changed, lastMatrix) := (List.range board.cols).foldl
    (fun scan _ => (List.range board.rows).foldl (scanRow state.rawMatrix) scan)
    (false, state.lastMatrix)
  ({ state with lastMatrix := lastMatrix }, changed)

/-- `SN32F24xB_set_color`, without underglow -/
def setColor (state : State board) (index : ℕ) (color : RGB) : State board :=
  { state with ledState := Function.update state.ledState index color }

/-- What the matrix meets: the interrupt, a scan, or an effect that sets a colour. -/
inductive Event where
  | callback (pressed : ℕ → Bool)
  | scan
  | setColor (index : ℕ) (color : RGB)

def step (state : State board) : Event → State board
  | .callback pressed => (rgbCallback state pressed).1
  | .scan => (matrixScan state).1
  | .setColor index color => setColor state index color

/-- The outputs of the callbacks among some events -/
def outputs (state : State board) : List Event → List Output
  | [] => []
  | event :: rest =>
    match event with
    | .callback pressed => (rgbCallback state pressed).2 :: outputs (step state event) rest
    | _ => outputs (step state event) rest

end QmkSonix.SharedScan
