import QmkSonix.Combo.Packing
import QmkSonix.Keyboard.Reporting

/-! `keyboard_task` built with `MATRIX_HAS_GHOST`. In a matrix without diodes the
current also finds its way round through other closed switches, so that a row
reads keys that nobody presses. -/

namespace QmkSonix.Keyboard

open QmkSonix.Lib

/-- `keymaps[0]` -/
abbrev Keymap (board : Board) := Fin board.matrixRows → Fin board.matrixCols → BitVec 16

/-- `popcount_more_than_one` -/
def popcountMoreThanOne {bits : ℕ} (rowdata : BitVec bits) : Bool := rowdata &&& (rowdata - 1) ≠ 0

namespace Board

variable (board : Board)

/-- `get_real_keys`: of a keycode only the low byte is read. -/
def getRealKeys (keymap : Keymap board) (row : Fin board.matrixRows)
    (rowdata : BitVec board.rowBits) : BitVec board.rowBits :=
  (List.finRange board.matrixCols).foldl (fun out col =>
    if (keymap row col).setWidth 8 ≠ 0 ∧ rowdata &&& board.colMask col ≠ 0 then
      out ||| board.colMask col
    else out) 0

def hasGhostInRow (keymap : Keymap board) (matrix : board.Matrix) (row : Fin board.matrixRows)
    (rowdata : BitVec board.rowBits) : Bool :=
  let rowdata := board.getRealKeys keymap row rowdata
  if popcountMoreThanOne rowdata = false then false
  else (List.finRange board.matrixRows).any fun i =>
    i ≠ row && popcountMoreThanOne (board.getRealKeys keymap i (matrix i) &&& rowdata)

/-- The loop over the rows, which goes on behind a row with a ghost. -/
def scanGhostRows (keymap : Keymap board) (scan : Scan board) :
    List (Fin board.matrixRows) → Progress board → Progress board × Bool
  | [], progress => (progress, false)
  | r :: rest, progress =>
    let change := scan.matrix r ^^^ progress.matrixPrev r
    if change ≠ 0 then
      if board.hasGhostInRow keymap scan.matrix r (scan.matrix r) then
        scanGhostRows keymap scan rest progress
      else
        let scanned := board.scanColumns scan r change (List.range board.matrixCols) progress
        if scanned.2 then scanned else scanGhostRows keymap scan rest scanned.1
    else scanGhostRows keymap scan rest progress

/-- `keyboard_task`, up to `MATRIX_LOOP_END`. -/
def keyboardGhostTask (keymap : Keymap board) (matrixPrev : board.Matrix) (scan : Scan board) :
    Progress board :=
  let scanned := board.scanGhostRows keymap scan (List.finRange board.matrixRows)
    { matrixPrev := matrixPrev }
  let progress := scanned.1
  if scanned.2 || (board.keysPerScan.isSome && progress.keysProcessed ≠ 0) then progress
  else
    { progress with
      executed := progress.executed ++ [tickEvent (scan.timerRead progress.executed.length)] }

/-- One call of `keyboard_task`. -/
def ghostStep (keymap : Keymap board) (reported : Reported board) (scan : Scan board) :
    Reported board :=
  let progress := board.keyboardGhostTask keymap reported.matrixPrev scan
  { matrixPrev := progress.matrixPrev, executed := reported.executed ++ progress.executed }

end Board

/-! ### Rows with a ghost look unchanged -/

/-- The matrix with the rows that have a ghost held back. -/
def Board.heldBack {board : Board} (keymap : Keymap board) (matrixPrev matrix : board.Matrix) :
    board.Matrix := fun r =>
  if board.hasGhostInRow keymap matrix r (matrix r) then matrixPrev r else matrix r

def Board.calm {board : Board} (keymap : Keymap board) (matrixPrev : board.Matrix)
    (scan : Scan board) : Scan board :=
  { scan with matrix := Board.heldBack keymap matrixPrev scan.matrix }

section Calm

variable {board : Board} {keymap : Keymap board} {matrixPrev : board.Matrix}
  {scan other : Scan board}

theorem heldBack_ghost {matrix : board.Matrix} {r : Fin board.matrixRows}
    (ghost : board.hasGhostInRow keymap matrix r (matrix r) = true) :
    Board.heldBack keymap matrixPrev matrix r = matrixPrev r := if_pos ghost

theorem heldBack_calm {matrix : board.Matrix} {r : Fin board.matrixRows}
    (calm : board.hasGhostInRow keymap matrix r (matrix r) = false) :
    Board.heldBack keymap matrixPrev matrix r = matrix r := if_neg (by simp [calm])

theorem scanColumns_congr {r : Fin board.matrixRows} {change : BitVec board.rowBits}
    (row : other.matrix r = scan.matrix r)
    (process : other.shouldProcessKeypress = scan.shouldProcessKeypress)
    (timer : other.timerRead = scan.timerRead) (cols : List ℕ) (progress : Progress board) :
    board.scanColumns other r change cols progress =
      board.scanColumns scan r change cols progress := by
  have processed (c : ℕ) (progress : Progress board) :
      board.processKey other r c progress = board.processKey scan r c progress := by
    simp only [Board.processKey, Board.keyEvent, row, process, timer]
  induction cols generalizing progress with
  | nil => rfl
  | cons c rest ih =>
    rw [Board.scanColumns, Board.scanColumns]
    simp only [processed, ih]

theorem scanColumns_frame {r r' : Fin board.matrixRows} (apart : r' ≠ r)
    {change : BitVec board.rowBits} (cols : List ℕ) (progress : Progress board) :
    (board.scanColumns scan r change cols progress).1.matrixPrev r' = progress.matrixPrev r' := by
  induction cols generalizing progress with
  | nil => rfl
  | cons c rest ih =>
    have kept : (board.processKey scan r c progress).matrixPrev r' = progress.matrixPrev r' :=
      Function.update_of_ne apart ..
    rw [Board.scanColumns]
    split
    · dsimp only
      split
      · exact kept
      · rw [ih, kept]
    · exact ih progress

theorem scanGhostRows_calm (rows : List (Fin board.matrixRows)) (distinct : rows.Nodup)
    (progress : Progress board) (fresh : ∀ r ∈ rows, progress.matrixPrev r = matrixPrev r) :
    board.scanGhostRows keymap scan rows progress =
      board.scanRows (Board.calm keymap matrixPrev scan) rows progress := by
  induction rows generalizing progress with
  | nil => rfl
  | cons r rest ih =>
    obtain ⟨absent, distinctRest⟩ := List.nodup_cons.mp distinct
    have freshRest : ∀ r' ∈ rest, progress.matrixPrev r' = matrixPrev r' :=
      fun r' member => fresh r' (List.mem_cons_of_mem _ member)
    rw [Board.scanGhostRows, Board.scanRows]
    by_cases ghost : board.hasGhostInRow keymap scan.matrix r (scan.matrix r) = true
    · have held : (Board.calm keymap matrixPrev scan).matrix r = progress.matrixPrev r := by
        rw [fresh r List.mem_cons_self]
        exact heldBack_ghost ghost
      simp only [held, BitVec.xor_self, ghost, if_true, ne_eq, not_true_eq_false, if_false,
        ite_self]
      exact ih distinctRest progress freshRest
    · have passed : (Board.calm keymap matrixPrev scan).matrix r = scan.matrix r :=
        heldBack_calm (Bool.eq_false_iff.mpr ghost)
      have columns := @scanColumns_congr _ scan (Board.calm keymap matrixPrev scan) r
        (scan.matrix r ^^^ progress.matrixPrev r) passed rfl rfl (List.range board.matrixCols)
        progress
      simp only [passed, ghost, columns, ih distinctRest progress freshRest]
      rw [ih distinctRest]
      · rfl
      · intro r' member
        rw [scanColumns_frame (ne_of_mem_of_not_mem member absent)]
        exact freshRest r' member

/-- The task is the one without `MATRIX_HAS_GHOST` on the matrix held back. -/
theorem keyboardGhostTask_calm (keymap : Keymap board) (matrixPrev : board.Matrix)
    (scan : Scan board) :
    board.keyboardGhostTask keymap matrixPrev scan =
      board.keyboardTask matrixPrev (Board.calm keymap matrixPrev scan) := by
  rw [Board.keyboardGhostTask, Board.keyboardTask,
    @scanGhostRows_calm _ keymap matrixPrev _ _ (List.nodup_finRange _) _ fun _ _ => rfl]
  rfl

theorem ghostStep_calm (keymap : Keymap board) (reported : Reported board) (scan : Scan board) :
    board.ghostStep keymap reported scan =
      board.step reported (Board.calm keymap reported.matrixPrev scan) := by
  rw [Board.ghostStep, Board.step, keyboardGhostTask_calm]

end Calm

/-! ### Two keys on a row -/

section Bits

/-- `rowdata & (rowdata - 1)` is empty for no bit and for one bit. -/
theorem popcountMoreThanOne_iff {bits : ℕ} (rowdata : BitVec bits) :
    popcountMoreThanOne rowdata = true ↔
      ∃ i j, i ≠ j ∧ rowdata.getLsbD i = true ∧ rowdata.getLsbD j = true := by
  have more : popcountMoreThanOne rowdata = !Combo.onlyOneKeyIsDown rowdata := by
    simp [popcountMoreThanOne, Combo.onlyOneKeyIsDown]
  rw [more, Combo.Short.onlyOneKeyIsDown_eq, Bool.not_eq_true', decide_eq_false_iff_not]
  by_cases none : rowdata.toNat = 0
  · have empty : rowdata = 0 := BitVec.toNat_inj.mp (by simpa using none)
    subst empty
    simp
  rw [Nat.and_sub_one_eq_zero_iff_isPowerOfTwo none]
  constructor
  · intro several
    have top : rowdata.getLsbD rowdata.toNat.log2 = true := Nat.testBit_log2 none
    by_contra alone
    push Not at alone
    refine several ⟨rowdata.toNat.log2, Nat.eq_of_testBit_eq fun i => ?_⟩
    rw [Nat.testBit_two_pow]
    by_cases same : rowdata.toNat.log2 = i
    · subst same
      rw [decide_eq_true rfl]
      exact top
    · rw [decide_eq_false same]
      exact Bool.eq_false_iff.mpr (alone _ i same top)
  · rintro ⟨i, j, apart, first, second⟩ ⟨k, power⟩
    rw [BitVec.getLsbD, power, Nat.testBit_two_pow, decide_eq_true_eq] at first second
    exact apart (first.symm.trans second)

variable {board : Board} {keymap : Keymap board}

theorem getLsbD_getRealKeys (row : Fin board.matrixRows) (rowdata : BitVec board.rowBits) (i : ℕ) :
    (board.getRealKeys keymap row rowdata).getLsbD i = true ↔
      ∃ c : Fin board.matrixCols, i = c ∧ (keymap row c).setWidth 8 ≠ 0 ∧
        rowdata.getLsbD c = true := by
  have gathered (cols : List (Fin board.matrixCols)) (out : BitVec board.rowBits) :
      (cols.foldl (fun out col =>
        if (keymap row col).setWidth 8 ≠ 0 ∧ rowdata &&& board.colMask col ≠ 0 then
          out ||| board.colMask col
        else out) out).getLsbD i = true ↔
      out.getLsbD i = true ∨ ∃ c ∈ cols, i = c ∧ (keymap row c).setWidth 8 ≠ 0 ∧
        rowdata.getLsbD c = true := by
    induction cols generalizing out with
    | nil => simp
    | cons c rest ih =>
      have bound : (c : ℕ) < board.rowBits := lt_of_lt_of_le c.isLt board.cols_le_rowBits
      rw [List.foldl_cons, ih]
      simp only [mask_ne_zero, List.mem_cons, exists_eq_or_imp]
      split
      · next real =>
        have bit : (out ||| board.colMask c).getLsbD i = true ↔
            out.getLsbD i = true ∨ i = c := by
          rw [@eq_comm ℕ i c]
          simp [Board.colMask, BitVec.getLsbD_twoPow, bound]
        rw [bit, or_assoc, and_iff_left real]
      · next blank =>
        have never : ¬(i = c ∧ (keymap row c).setWidth 8 ≠ 0 ∧ rowdata.getLsbD c = true) :=
          fun real => blank real.2
        simp only [never, false_or]
  have all := gathered (List.finRange board.matrixCols) 0
  simpa [Board.getRealKeys] using all

/-- A row has a ghost when another row reads two of its keys as well. -/
theorem hasGhostInRow_iff (matrix : board.Matrix) (row : Fin board.matrixRows) :
    board.hasGhostInRow keymap matrix row (matrix row) = true ↔
      ∃ i ≠ row, ∃ c c' : Fin board.matrixCols, c ≠ c' ∧
        ∀ col ∈ [c, c'], ∀ r ∈ [i, row],
          (keymap r col).setWidth 8 ≠ 0 ∧ matrix.isOn r col = true := by
  have common (i : Fin board.matrixRows) :
      popcountMoreThanOne (board.getRealKeys keymap i (matrix i) &&&
        board.getRealKeys keymap row (matrix row)) = true ↔
      ∃ c c' : Fin board.matrixCols, c ≠ c' ∧
        ∀ col ∈ [c, c'], ∀ r ∈ [i, row],
          (keymap r col).setWidth 8 ≠ 0 ∧ matrix.isOn r col = true := by
    rw [popcountMoreThanOne_iff]
    constructor
    · rintro ⟨j, j', apart, first, second⟩
      simp only [BitVec.getLsbD_and, Bool.and_eq_true, getLsbD_getRealKeys] at first second
      obtain ⟨⟨c, rfl, here⟩, c₁, same₁, there⟩ := first
      obtain ⟨⟨c', rfl, here'⟩, c₂, same₂, there'⟩ := second
      obtain rfl := Fin.ext same₁
      obtain rfl := Fin.ext same₂
      exact ⟨c, c', fun same => apart (congrArg _ same), by
        simpa [Board.Matrix.isOn] using ⟨⟨here, there⟩, here', there'⟩⟩
    · rintro ⟨c, c', apart, real⟩
      refine ⟨c, c', fun same => apart (Fin.ext same), ?_⟩
      simp only [BitVec.getLsbD_and, Bool.and_eq_true, getLsbD_getRealKeys]
      simp only [List.mem_cons, List.not_mem_nil, or_false, forall_eq_or_imp, forall_eq] at real
      obtain ⟨⟨here, there⟩, here', there'⟩ := real
      exact ⟨⟨⟨c, rfl, here⟩, c, rfl, there⟩, ⟨c', rfl, here'⟩, c', rfl, there'⟩
  rw [Board.hasGhostInRow]
  split
  · next few =>
    constructor
    · intro no
      cases no
    · rintro ⟨i, -, shared⟩
      obtain ⟨j, j', apart, first, second⟩ :=
        (popcountMoreThanOne_iff _).mp ((common i).mpr shared)
      simp only [BitVec.getLsbD_and, Bool.and_eq_true] at first second
      have more := (popcountMoreThanOne_iff _).mpr ⟨j, j', apart, first.2, second.2⟩
      rw [few] at more
      cases more
  · simp only [List.any_eq_true, List.mem_finRange, true_and, Bool.and_eq_true, decide_eq_true_eq,
      common]

end Bits

/-! ### A matrix without diodes -/

/-- The columns that a row reaches through closed switches. -/
inductive Reaches {board : Board} (pressed : Fin board.matrixRows → Fin board.matrixCols → Prop)
    (r : Fin board.matrixRows) : Fin board.matrixCols → Prop where
  | direct (c : Fin board.matrixCols) (here : pressed r c) : Reaches pressed r c
  | around (c c' : Fin board.matrixCols) (i : Fin board.matrixRows) (reaches : Reaches pressed r c)
      (back : pressed i c) (along : pressed i c') : Reaches pressed r c'

/-- A reading of the switches that are closed. -/
structure Reading {board : Board} (keymap : Keymap board) (matrix : board.Matrix)
    (pressed : Fin board.matrixRows → Fin board.matrixCols → Prop) : Prop where
  reads : ∀ r c, matrix.isOn r c = true ↔ Reaches pressed r c
  /-- There is a switch only where the keymap has a key. -/
  real : ∀ r c, pressed r c → (keymap r c).setWidth 8 ≠ 0

/-- With three corners of a rectangle the keymap has the fourth. -/
def Rectangular {board : Board} (keymap : Keymap board) : Prop :=
  ∀ r i c c', (keymap r c').setWidth 8 ≠ 0 → (keymap i c).setWidth 8 ≠ 0 →
    (keymap i c').setWidth 8 ≠ 0 → (keymap r c).setWidth 8 ≠ 0

section Phantoms

variable {board : Board} {keymap : Keymap board} {matrix : board.Matrix}
  {pressed : Fin board.matrixRows → Fin board.matrixCols → Prop} {r : Fin board.matrixRows}
  {c : Fin board.matrixCols}

theorem Reaches.trans {i : Fin board.matrixRows} {c' : Fin board.matrixCols}
    (reaches : Reaches pressed i c') (first : Reaches pressed r c) (back : pressed i c) :
    Reaches pressed r c' := by
  induction reaches with
  | direct c' along => exact .around c c' i first back along
  | around c₁ c₂ j _ back' along ih => exact .around c₁ c₂ j ih back' along

/-- The last switch on the way round belongs to another row, which reads what this
row reads. -/
theorem Reaches.phantom (reaches : Reaches pressed r c) (phantom : ¬pressed r c) :
    ∃ i ≠ r, ∃ c' ≠ c, Reaches pressed r c' ∧ pressed i c' ∧ pressed i c := by
  induction reaches with
  | direct c here => exact absurd here phantom
  | around c' c i reaches back along ih =>
    by_cases same : c' = c
    · subst same
      exact ih phantom
    · have apart : i ≠ r := by
        rintro rfl
        exact phantom along
      exact ⟨i, apart, c', same, reaches, back, along⟩

/-- What a row without a ghost reads is pressed. -/
theorem Reading.pressed_iff (reading : Reading keymap matrix pressed)
    (rectangular : Rectangular keymap) (real : (keymap r c).setWidth 8 ≠ 0)
    (calm : board.hasGhostInRow keymap matrix r (matrix r) = false) :
    matrix.isOn r c = true ↔ pressed r c := by
  rw [reading.reads]
  refine ⟨fun reaches => ?_, .direct c⟩
  by_contra phantom
  obtain ⟨i, apart, c', other, reaches', back, along⟩ := reaches.phantom phantom
  have ghost : board.hasGhostInRow keymap matrix r (matrix r) = true := by
    rw [hasGhostInRow_iff]
    refine ⟨i, apart, c', c, other, ?_⟩
    have corner := rectangular r i c' c real (reading.real i c' back) (reading.real i c along)
    simp only [List.mem_cons, List.not_mem_nil, or_false, forall_eq_or_imp, forall_eq,
      reading.reads]
    exact ⟨⟨⟨reading.real i c' back, .direct c' back⟩, corner, reaches'⟩,
      ⟨reading.real i c along, .direct c along⟩, real, reaches⟩
  rw [calm] at ghost
  cases ghost

end Phantoms

/-! ### Runs -/

section Runs

variable {board : Board} {keymap : Keymap board} {scan : Scan board} {r : Fin board.matrixRows}

theorem scanGhostRows_frame
    (ghost : board.hasGhostInRow keymap scan.matrix r (scan.matrix r) = true)
    (rows : List (Fin board.matrixRows)) (progress : Progress board) :
    (board.scanGhostRows keymap scan rows progress).1.matrixPrev r = progress.matrixPrev r := by
  induction rows generalizing progress with
  | nil => rfl
  | cons r' rest ih =>
    rw [Board.scanGhostRows]
    dsimp only
    split
    · by_cases same : r' = r
      · subst same
        rw [if_pos ghost]
        exact ih progress
      · have kept := @scanColumns_frame _ scan r' r (Ne.symm same)
          (scan.matrix r' ^^^ progress.matrixPrev r') (List.range board.matrixCols) progress
        split
        · exact ih progress
        split
        · exact kept
        · rw [ih, kept]
    · exact ih progress

/-- A row with a ghost stays as it was reported. -/
theorem ghostStep_frame (ghost : board.hasGhostInRow keymap scan.matrix r (scan.matrix r) = true)
    (reported : Reported board) :
    (board.ghostStep keymap reported scan).matrixPrev r = reported.matrixPrev r := by
  have kept := scanGhostRows_frame ghost (List.finRange board.matrixRows)
    { matrixPrev := reported.matrixPrev }
  rw [Board.ghostStep, Board.keyboardGhostTask]
  dsimp only
  split <;> exact kept

theorem ghostStep_heldBack (reported : Reported board) :
    Board.heldBack keymap (board.ghostStep keymap reported scan).matrixPrev scan.matrix =
      Board.heldBack keymap reported.matrixPrev scan.matrix := by
  funext r
  rw [Board.heldBack, Board.heldBack]
  split
  · next ghost => exact ghostStep_frame ghost reported
  · rfl

/-- While the matrix stays the same, each call takes a change away that no ghost
holds back. -/
theorem run_ghost_changes {matrix : board.Matrix} (scans : List (Scan board))
    (constant : ∀ scan ∈ scans, scan.matrix = matrix) (reported : Reported board) :
    ((Board.heldBack keymap reported.matrixPrev matrix).changed
        (run (board.ghostStep keymap) reported scans).matrixPrev).card ≤
      ((Board.heldBack keymap reported.matrixPrev matrix).changed reported.matrixPrev).card -
        scans.length := by
  induction scans generalizing reported with
  | nil => exact Nat.le_refl _
  | cons scan rest ih =>
    obtain rfl := constant scan List.mem_cons_self
    have now := step_changes board reported (Board.calm keymap reported.matrixPrev scan)
    rw [← ghostStep_calm] at now
    have later := ih (fun scan member => constant scan (List.mem_cons_of_mem _ member))
      (board.ghostStep keymap reported scan)
    rw [ghostStep_heldBack] at later
    rw [run_cons, List.length_cons]
    simp only [Board.calm] at now
    omega

theorem mem_changed {matrix matrixPrev : board.Matrix} {c : Fin board.matrixCols} :
    (r, c) ∈ matrix.changed matrixPrev ↔ matrix.isOn r c ≠ matrixPrev.isOn r c := by
  simp [Board.Matrix.changed]

theorem run_ghost_balanced (keymap : Keymap board) {scans : List (Scan board)}
    (master : ∀ scan ∈ scans, scan.shouldProcessKeypress = true) :
    Balanced (run (board.ghostStep keymap) {} scans).matrixPrev
      (run (board.ghostStep keymap) {} scans).executed := by
  have keeps : ∀ (reported : Reported board) (scan : Scan board),
      Balanced reported.matrixPrev reported.executed → scan.shouldProcessKeypress = true →
      Balanced (board.ghostStep keymap reported scan).matrixPrev
        (board.ghostStep keymap reported scan).executed := by
    intro reported scan balanced alone
    rw [ghostStep_calm]
    exact step_balanced balanced alone
  exact run_invariant keeps (balanced_start board) (along_of_mem master _)

/-- The events of one call tell what the rows without a ghost read. -/
theorem ghostTask_events (matrixPrev : board.Matrix) (master : scan.shouldProcessKeypress = true) :
    ∀ event ∈ (board.keyboardGhostTask keymap matrixPrev scan).executed,
      (∃ time, event = tickEvent time) ∨
        ∃ (r : Fin board.matrixRows) (c : Fin board.matrixCols), event.key = board.keyAt r c ∧
          board.hasGhostInRow keymap scan.matrix r (scan.matrix r) = false ∧
          event.pressed = scan.matrix.isOn r c := by
  rw [keyboardGhostTask_calm]
  obtain ⟨keys, final, reports, -, ends⟩ :=
    keyboardTask_cases board matrixPrev (Board.calm keymap matrixPrev scan)
  obtain ⟨events, executed, -, changes⟩ := reports.events master
  rw [List.nil_append] at executed
  have told : ∀ event ∈ events,
      ∃ (r : Fin board.matrixRows) (c : Fin board.matrixCols), event.key = board.keyAt r c ∧
        board.hasGhostInRow keymap scan.matrix r (scan.matrix r) = false ∧
        event.pressed = scan.matrix.isOn r c := by
    intro event member
    obtain ⟨r, c, key, pressed, differs⟩ := changes event member
    have calm : board.hasGhostInRow keymap scan.matrix r (scan.matrix r) = false := by
      by_contra ghost
      rw [Bool.not_eq_false] at ghost
      apply differs
      simp only [Board.Matrix.isOn, Board.calm, heldBack_ghost ghost]
    refine ⟨r, c, key, calm, ?_⟩
    rw [pressed]
    simp only [Board.Matrix.isOn, Board.calm, heldBack_calm calm]
  rcases ends with ⟨-, only⟩ | ⟨-, -, time, ticked⟩
  · rw [only, executed]
    exact fun event member => .inr (told event member)
  · rw [ticked, executed]
    intro event member
    rcases List.mem_append.mp member with key | tick
    · exact .inr (told event key)
    · exact .inl ⟨time, List.mem_singleton.mp tick⟩

/-- A call of `keyboard_task`, and the switches that are closed meanwhile. -/
structure Observed (board : Board) where
  scan : Scan board
  pressed : Fin board.matrixRows → Fin board.matrixCols → Prop

/-- An event that tells what one of the observations holds, where the keymap has a key. -/
def Told (keymap : Keymap board) (observed : List (Observed board)) (event : KeyEvent) : Prop :=
  ∃ o ∈ observed, ∃ (r : Fin board.matrixRows) (c : Fin board.matrixCols),
    event.key = board.keyAt r c ∧
      ((keymap r c).setWidth 8 ≠ 0 → (event.pressed = true ↔ o.pressed r c))

/-- In a matrix without diodes no event is ever of a key that the current only
reached round other switches: presses are of keys that are down, releases of keys
that are up, in turn for each key. A ghost holds back its own rows only. -/
theorem no_phantom_keys (rectangular : Rectangular keymap) {observed : List (Observed board)}
    (readings : ∀ o ∈ observed, Reading keymap o.scan.matrix o.pressed)
    (master : ∀ o ∈ observed, o.scan.shouldProcessKeypress = true) :
    (∀ event ∈ (run (board.ghostStep keymap) {} (observed.map Observed.scan)).executed,
      (∃ time, event = tickEvent time) ∨ Told keymap observed event) ∧
      (∀ (r : Fin board.matrixRows) (c : Fin board.matrixCols), Alternates
        (eventsOf (board.keyAt r c)
          (run (board.ghostStep keymap) {} (observed.map Observed.scan)).executed)) ∧
      ∀ earlier later matrix pressed, observed = earlier ++ later →
        (∀ o ∈ later, o.scan.matrix = matrix) → Reading keymap matrix pressed →
        (matrix.changed (run (board.ghostStep keymap) {}
          (earlier.map Observed.scan)).matrixPrev).card ≤ later.length →
        ∀ (r : Fin board.matrixRows) (c : Fin board.matrixCols),
          (keymap r c).setWidth 8 ≠ 0 → board.hasGhostInRow keymap matrix r (matrix r) = false →
          (lastPressed (eventsOf (board.keyAt r c)
            (run (board.ghostStep keymap) {} (observed.map Observed.scan)).executed) = true ↔
              pressed r c) := by
  have masters : ∀ scan ∈ observed.map Observed.scan, scan.shouldProcessKeypress = true := by
    simpa using master
  refine ⟨?_, fun r c => (run_ghost_balanced keymap masters r c).1, ?_⟩
  · have keeps : ∀ (reported : Reported board) (scan : Scan board),
        (∀ event ∈ reported.executed,
          (∃ time, event = tickEvent time) ∨ Told keymap observed event) →
        (∃ o ∈ observed, o.scan = scan) →
        ∀ event ∈ (board.ghostStep keymap reported scan).executed,
          (∃ time, event = tickEvent time) ∨ Told keymap observed event := by
      rintro reported _ earlier ⟨o, among, rfl⟩ event member
      rcases List.mem_append.mp member with before | now
      · exact earlier event before
      · rcases ghostTask_events reported.matrixPrev (master o among) event now with
          tick | ⟨r, c, key, calm, pressed⟩
        · exact .inl tick
        · refine .inr ⟨o, among, r, c, key, fun real => ?_⟩
          rw [pressed]
          exact (readings o among).pressed_iff rectangular real calm
    exact run_invariant keeps (by simp) (along_of_mem (by simp) _)
  · rintro earlier later matrix pressed rfl constant reading enough r c real calm
    rw [← (run_ghost_balanced keymap masters r c).2, ← reading.pressed_iff rectangular real calm,
      List.map_append, run_append]
    generalize run (board.ghostStep keymap) {} (earlier.map Observed.scan) = reported at enough ⊢
    have fewer := @run_ghost_changes _ keymap _ (later.map Observed.scan) (by simpa using constant)
      reported
    have held : ((Board.heldBack keymap reported.matrixPrev matrix).changed
        reported.matrixPrev).card ≤ (matrix.changed reported.matrixPrev).card := by
      apply Finset.card_le_card
      rintro ⟨r', c'⟩ member
      rw [mem_changed] at member ⊢
      rw [Board.Matrix.isOn, Board.heldBack] at member
      split at member
      · exact absurd rfl member
      · exact member
    rw [List.length_map] at fewer
    have none := Finset.card_eq_zero.mp (Nat.le_zero.mp (fewer.trans (by omega)))
    have agrees : matrix.isOn r c =
        (run (board.ghostStep keymap) reported (later.map Observed.scan)).matrixPrev.isOn r c := by
      by_contra differs
      have member := Finset.notMem_empty (r, c)
      rw [← none, mem_changed] at member
      apply member
      have passed : (Board.heldBack keymap reported.matrixPrev matrix).isOn r c =
          matrix.isOn r c := by
        rw [Board.Matrix.isOn, heldBack_calm calm]
        rfl
      rw [passed]
      exact differs
    rw [agrees]

/-- Two rows of two keys. -/
def square : Board where
  matrixRows := 2
  matrixCols := 2
  keysPerScan := none
  rows_fit := (by decide : 1 + 1 ≤ 255)
  cols_fit := (by decide : 0 + 2 ≤ 32)

/-- Three keys of the square are down, so that the fourth is read as well. -/
def corner : Observed square where
  scan := { matrix := fun _ => 3, shouldProcessKeypress := true, timerRead := fun _ => 7 }
  pressed := fun r c => r.val + c.val ≠ 2

/-- One key of the square is down. -/
def single : Observed square where
  scan := { matrix := fun r => if r.val = 0 then 1 else 0, shouldProcessKeypress := true,
            timerRead := fun _ => 7 }
  pressed := fun r c => r.val = 0 ∧ c.val = 0

theorem single_reads (r : Fin square.matrixRows) (c : Fin square.matrixCols) :
    single.scan.matrix.isOn r c = true ↔ Reaches single.pressed r c := by
  have down : single.scan.matrix.isOn r c = true ↔ r.val = 0 ∧ c.val = 0 := by
    revert r c
    decide
  rw [down]
  refine ⟨fun here => .direct c here, fun reaches => ?_⟩
  clear down
  induction reaches with
  | direct c here => exact here
  | around c c' i reaches back along ih => exact ⟨ih.1, along.2⟩

theorem corner_reads (r : Fin square.matrixRows) (c : Fin square.matrixCols) :
    corner.scan.matrix.isOn r c = true ↔ Reaches corner.pressed r c := by
  have down : corner.scan.matrix.isOn r c = true := by
    revert r c
    decide
  rw [down]
  refine iff_of_true rfl ?_
  by_cases here : r.val + c.val = 2
  · let first : Fin square.matrixRows := ⟨0, by decide⟩
    let zero : Fin square.matrixCols := ⟨0, by decide⟩
    have row : r.val < 2 := r.isLt
    have col : c.val < 2 := c.isLt
    have beside : corner.pressed r zero := show r.val + 0 ≠ 2 by omega
    have above : corner.pressed first zero := show 0 + 0 ≠ 2 by decide
    have along : corner.pressed first c := show 0 + c.val ≠ 2 by omega
    exact .around zero c first (.direct zero beside) above along
  · exact .direct c here

theorem no_phantom_keys_corner :
    let executed := (run (square.ghostStep fun _ _ => 4) {} [single.scan, corner.scan]).executed
    Alternates (eventsOf (square.keyAt ⟨1, by decide⟩ 1) executed) ∧
      ∀ event ∈ executed,
        (∃ time, event = tickEvent time) ∨ Told (fun _ _ => 4) [single, corner] event := by
  have rectangular : @Rectangular square fun _ _ => 4 := fun _ _ _ _ _ _ real => real
  have readings : ∀ o ∈ [single, corner], Reading (fun _ _ => 4) o.scan.matrix o.pressed := by
    simp only [List.mem_cons, List.not_mem_nil, or_false, forall_eq_or_imp, forall_eq]
    exact ⟨⟨single_reads, fun _ _ _ => by decide⟩, corner_reads, fun _ _ _ => by decide⟩
  have told := no_phantom_keys rectangular readings (by simp [single, corner])
  exact ⟨told.2.1 ⟨1, by decide⟩ ⟨1, by decide⟩, told.1⟩

end Runs

end QmkSonix.Keyboard
