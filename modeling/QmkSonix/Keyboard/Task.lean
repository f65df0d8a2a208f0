import QmkSonix.Keyboard.Record

/-! `keyboard_task` of `keyboard.c`: from the debounced matrix to the events handed
to `action_exec`. Built without `MATRIX_HAS_GHOST`. -/

namespace QmkSonix.Keyboard

/-- The configuration of the matrix and of its scan. -/
structure Board where
  /-- `MATRIX_ROWS` -/
  matrixRows : ℕ
  /-- `MATRIX_COLS` -/
  matrixCols : ℕ
  /-- `QMK_KEYS_PER_SCAN`, where it is defined. -/
  keysPerScan : Option ℕ
  rows_fit : matrixRows ≤ 255
  cols_fit : matrixCols ≤ 32

namespace Board

variable (board : Board)

/-- The bits of `matrix_row_t`. -/
def rowBits : ℕ := if board.matrixCols ≤ 8 then 8 else if board.matrixCols ≤ 16 then 16 else 32

/-- A matrix, a row at a time. -/
abbrev Matrix := Fin board.matrixRows → BitVec board.rowBits

/-- The position of a key. -/
def keyAt (r : Fin board.matrixRows) (c : ℕ) : KeyPos :=
  { row := BitVec.ofNat 8 r, col := BitVec.ofNat 8 c }

end Board

/-- What one call of `keyboard_task` meets: the matrix after `matrix_scan`, and
the clock at each call of `action_exec`. -/
structure Scan (board : Board) where
  matrix : board.Matrix
  shouldProcessKeypress : Bool
  timerRead : ℕ → BitVec 16

/-- The locals and the static of `keyboard_task`, and the events handed to
`action_exec` so far. -/
structure Progress (board : Board) where
  matrixPrev : board.Matrix
  executed : List KeyEvent := []
  keysProcessed : BitVec 8 := 0

namespace Board

variable (board : Board)

/-- `col_mask` -/
def colMask (c : ℕ) : BitVec board.rowBits := BitVec.twoPow board.rowBits c

/-- The event of a key. -/
def keyEvent (scan : Scan board) (progress : Progress board) (r : Fin board.matrixRows) (c : ℕ) :
    KeyEvent :=
  { key := board.keyAt r c
    pressed := scan.matrix r &&& board.colMask c ≠ 0
    time := scan.timerRead progress.executed.length ||| 1 }

/-- The body of the loop for a key that changed. -/
def processKey (scan : Scan board) (r : Fin board.matrixRows) (c : ℕ) (progress : Progress board) :
    Progress board :=
  { matrixPrev := Function.update progress.matrixPrev r
      (progress.matrixPrev r ^^^ board.colMask c)
    executed :=
      if scan.shouldProcessKeypress then progress.executed ++ [board.keyEvent scan progress r c]
      else progress.executed
    keysProcessed := progress.keysProcessed + 1 }

/-- Enough keys are processed to jump out of the loop. -/
def enough (keysProcessed : BitVec 8) : Bool :=
  match board.keysPerScan with
  | none => true
  | some keys => keys ≤ keysProcessed.toNat

/-- The loop over the columns of a row, and whether it jumps to `MATRIX_LOOP_END`. -/
def scanColumns (scan : Scan board) (r : Fin board.matrixRows) (change : BitVec board.rowBits) :
    List ℕ → Progress board → Progress board × Bool
  | [], progress => (progress, false)
  | c :: rest, progress =>
    if change &&& board.colMask c ≠ 0 then
      let processed := board.processKey scan r c progress
      if board.enough processed.keysProcessed then (processed, true)
      else scanColumns scan r change rest processed
    else scanColumns scan r change rest progress

/-- The loop over the rows. -/
def scanRows (scan : Scan board) :
    List (Fin board.matrixRows) → Progress board → Progress board × Bool
  | [], progress => (progress, false)
  | r :: rest, progress =>
    let change := scan.matrix r ^^^ progress.matrixPrev r
    if change ≠ 0 then
      let scanned := board.scanColumns scan r change (List.range board.matrixCols) progress
      if scanned.2 then scanned else scanRows scan rest scanned.1
    else scanRows scan rest progress

/-- `keyboard_task`, up to `MATRIX_LOOP_END`. -/
def keyboardTask (matrixPrev : board.Matrix) (scan : Scan board) : Progress board :=
  let scanned := board.scanRows scan (List.finRange board.matrixRows) { matrixPrev := matrixPrev }
  let progress := scanned.1
  if scanned.2 || (board.keysPerScan.isSome && progress.keysProcessed ≠ 0) then progress
  else
    { progress with
      executed := progress.executed ++ [tickEvent (scan.timerRead progress.executed.length)] }

end Board

/-- `matrix_prev`, and all events handed to `action_exec`. -/
structure Reported (board : Board) where
  matrixPrev : board.Matrix := fun _ => 0
  executed : List KeyEvent := []

/-- One call of `keyboard_task`. -/
def Board.step (board : Board) (reported : Reported board) (scan : Scan board) : Reported board :=
  let progress := board.keyboardTask reported.matrixPrev scan
  { matrixPrev := progress.matrixPrev, executed := reported.executed ++ progress.executed }

end QmkSonix.Keyboard
