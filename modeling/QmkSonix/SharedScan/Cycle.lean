import QmkSonix.Lib.Sweep
import QmkSonix.SharedScan.Model

/-! The two counters of the shared scan stay in phase, and a whole cycle of the interrupt
reaches every row. -/

namespace QmkSonix.SharedScan

open QmkSonix.Lib

variable {board : Board}

section Counters

/-- The counters of a state -/
def State.counters (state : State board) : Byte × Byte := (state.currentRow, state.rowIdx)

/-- The row counter of the keys is where that of the LEDs says. -/
structure InPhase (board : Board) (counters : Byte × Byte) : Prop where
  within : counters.1.toNat < board.rowsHw
  phase : counters.2.toNat = (counters.1.toNat + 1) / 3 % board.rows

theorem inPhase_zero (board : Board) : InPhase board (0, 0) where
  within := Nat.mul_pos (by decide) board.rows_pos
  phase := (Nat.zero_mod _).symm

/-- The LED counter goes round the LED rows. -/
theorem advance_fst (fits : board.rowsHw ≤ 255) {counters : Byte × Byte}
    (within : counters.1.toNat < board.rowsHw) :
    (advance board counters).1.toNat = (counters.1.toNat + 1) % board.rowsHw := by
  have next : (counters.1 + 1).toNat = counters.1.toNat + 1 := by
    rw [BitVec.toNat_add]
    exact Nat.mod_eq_of_lt (by change counters.1.toNat + 1 < 256; omega)
  simp only [advance, next]
  by_cases last : board.rowsHw ≤ counters.1.toNat + 1
  · have whole : counters.1.toNat + 1 = board.rowsHw := by omega
    rw [if_pos last, whole, Nat.mod_self]
    rfl
  · rw [if_neg last, Nat.mod_eq_of_lt (by omega), next]

theorem inPhase_advance (fits : board.rowsHw ≤ 255) {counters : Byte × Byte}
    (inPhase : InPhase board counters) : InPhase board (advance board counters) := by
  obtain ⟨within, phase⟩ := inPhase
  have positive := board.rows_pos
  have led := advance_fst fits within
  have few : board.rows ≤ 85 := by unfold Board.rowsHw at fits; omega
  refine ⟨by rw [led]; exact Nat.mod_lt _ (by omega), ?_⟩
  have small := Nat.mod_lt ((counters.1.toNat + 1) / 3) positive
  have next : (counters.2 + 1).toNat = counters.2.toNat + 1 := by
    rw [BitVec.toNat_add]
    exact Nat.mod_eq_of_lt (by change counters.2.toNat + 1 < 256; omega)
  have keys : (advance board counters).2 =
      if board.rows ≤ (if (advance board counters).1.toNat % 3 = 2 then counters.2 + 1
        else counters.2).toNat then 0
      else if (advance board counters).1.toNat % 3 = 2 then counters.2 + 1 else counters.2 := rfl
  rw [keys, led]
  by_cases last : counters.1.toNat + 1 = board.rowsHw
  · have third : (counters.1.toNat + 1) / 3 = board.rows := by unfold Board.rowsHw at last; omega
    rw [third, Nat.mod_self] at phase
    rw [last, Nat.mod_self, if_neg (show ¬ 0 % 3 = 2 by decide), if_neg (by omega), phase,
      Nat.zero_mod]
  · have below : (counters.1.toNat + 1) / 3 < board.rows := by unfold Board.rowsHw at within last; omega
    rw [Nat.mod_eq_of_lt below] at phase
    rw [Nat.mod_eq_of_lt (show counters.1.toNat + 1 < board.rowsHw by omega)]
    by_cases turn : (counters.1.toNat + 1) % 3 = 2
    · have quotient : (counters.1.toNat + 1 + 1) / 3 = (counters.1.toNat + 1) / 3 + 1 := by omega
      rw [if_pos turn, quotient, next, phase]
      by_cases top : board.rows ≤ (counters.1.toNat + 1) / 3 + 1
      · have whole : (counters.1.toNat + 1) / 3 + 1 = board.rows := by omega
        rw [if_pos top, whole, Nat.mod_self]
        rfl
      · rw [if_neg top, next, phase, Nat.mod_eq_of_lt (by omega)]
    · have quotient : (counters.1.toNat + 1 + 1) / 3 = (counters.1.toNat + 1) / 3 := by omega
      rw [if_neg turn, quotient, if_neg (by omega), phase, Nat.mod_eq_of_lt below]

theorem counters_callback (state : State board) (pressed : ℕ → Bool) :
    (rgbCallback state pressed).1.counters = advance board state.counters := rfl

/-- Only callbacks move the counters. -/
theorem counters_step (state : State board) (event : Event) :
    (step state event).counters =
      match event with
      | .callback _ => advance board state.counters
      | _ => state.counters := by
  cases event <;> rfl

theorem inPhase_step (fits : board.rowsHw ≤ 255) (state : State board) (event : Event)
    (inPhase : InPhase board state.counters) : InPhase board (step state event).counters := by
  rw [counters_step]
  cases event with
  | callback pressed => exact inPhase_advance fits inPhase
  | scan => exact inPhase
  | setColor index color => exact inPhase

theorem inPhase_run (fits : board.rowsHw ≤ 255) (events : List Event) :
    InPhase board (run step ({} : State board) events).counters := by
  have start : InPhase board ({} : State board).counters := inPhase_zero board
  exact run_keeps (fun state : State board => InPhase board state.counters) (inPhase_step fits)
    start events

end Counters

section Outputs

/-- How many of some events are callbacks. -/
def callbacks (events : List Event) : ℕ :=
  events.countP fun event => match event with
    | .callback _ => true
    | _ => false

theorem outputs_append (state : State board) (first second : List Event) :
    outputs state (first ++ second) = outputs state first ++ outputs (run step state first) second := by
  induction first generalizing state with
  | nil => rfl
  | cons event rest ih =>
    cases event with
    | callback pressed => simp [outputs, ih]
    | scan => simp [outputs, ih]
    | setColor index color => simp [outputs, ih]

/-- Once the PWM is enabled it stays so. -/
theorem updatePwmChannels_enabled {state : State board} (enabled : state.enablePwm = true) :
    (updatePwmChannels state).1 = true := by
  unfold updatePwmChannels
  generalize ([] : List (ℕ × Byte)) = duties
  rw [enabled]
  induction List.range board.ledCols generalizing duties with
  | nil => rfl
  | cons col rest ih =>
    rw [List.foldl_cons]
    have stays : updateChannel state (true, duties) col = (true, (updateChannel state (true, duties) col).2) := by
      simp [updateChannel]
    rw [stays]
    exact ih _

theorem enabled_step {state : State board} (enabled : state.enablePwm = true) (event : Event) :
    (step state event).enablePwm = true := by
  cases event with
  | callback pressed => exact updatePwmChannels_enabled enabled
  | scan => exact enabled
  | setColor index color => exact enabled

/-- With the PWM enabled the callbacks set one LED row pin after the other. -/
theorem rowPins_eq (fits : board.rowsHw ≤ 255) {state : State board}
    (within : state.currentRow.toNat < board.rowsHw) (enabled : state.enablePwm = true)
    (events : List Event) :
    (outputs state events).map Output.rowPin =
        (List.range (callbacks events)).map
          (fun i => some ((state.currentRow.toNat + 1 + i) % board.rowsHw)) := by
  induction events generalizing state with
  | nil => rfl
  | cons event rest ih =>
    cases event with
    | callback pressed =>
      have enabled' := enabled_step enabled (.callback pressed)
      have next : (step state (.callback pressed)).currentRow.toNat =
          (state.currentRow.toNat + 1) % board.rowsHw := advance_fst fits within
      have below : (step state (.callback pressed)).currentRow.toNat < board.rowsHw := by
        rw [next]
        exact Nat.mod_lt _ (by omega)
      have pin : (rgbCallback state pressed).2.rowPin =
          some ((state.currentRow.toNat + 1) % board.rowsHw) := by
        rw [← next]
        exact if_pos enabled'
      have count : callbacks (.callback pressed :: rest) = callbacks rest + 1 := by
        simp [callbacks]
      rw [outputs, List.map_cons, ih below enabled', pin, count, List.range_succ_eq_map, List.map_cons,
        List.map_map, next, Nat.add_zero]
      congr 1
      apply List.map_congr_left
      intro i _
      simp only [Function.comp_apply, Option.some.injEq]
      rw [Nat.add_assoc, Nat.mod_add_mod]
      congr 1
      omega
    | scan => exact ih within enabled
    | setColor index color => exact ih within enabled

/-- A counter that goes round takes every value once. -/
theorem count_round (start : ℕ) {size value : ℕ} (below : value < size) :
    ((List.range size).map fun i => (start + i) % size).count value = 1 := by
  have distinct : ((List.range size).map fun i => (start + i) % size).Nodup := by
    refine List.Nodup.map_on ?_ List.nodup_range
    intro i first j second same
    have same : start + i ≡ start + j [MOD size] := same
    exact (Nat.ModEq.add_left_cancel' start same).eq_of_lt_of_lt (List.mem_range.mp first)
      (List.mem_range.mp second)
  refine List.count_eq_one_of_mem distinct (List.mem_map.mpr ?_)
  refine ⟨(value + (size - start % size)) % size, List.mem_range.mpr (Nat.mod_lt _ (by omega)), ?_⟩
  have part := Nat.mod_lt start (show 0 < size by omega)
  rw [Nat.add_mod_mod, ← Nat.mod_add_mod]
  have sum : start % size + (value + (size - start % size)) = value + size := by omega
  rw [sum, Nat.add_mod_right, Nat.mod_eq_of_lt below]

/-- A whole cycle with the PWM enabled sets every LED row pin once. -/
theorem rowPins_count (fits : board.rowsHw ≤ 255) {state : State board}
    (within : state.currentRow.toNat < board.rowsHw) (enabled : state.enablePwm = true)
    {events : List Event} (whole : callbacks events = board.rowsHw) {pin : ℕ}
    (below : pin < board.rowsHw) :
    ((outputs state events).map Output.rowPin).count (some pin) = 1 := by
  have pins : (outputs state events).map Output.rowPin =
      ((List.range board.rowsHw).map
        fun i => (state.currentRow.toNat + 1 + i) % board.rowsHw).map some := by
    rw [rowPins_eq fits within enabled, whole, List.map_map]
    rfl
  rw [pins, List.count_map_of_injective _ _ (Option.some_injective ℕ), count_round _ below]

/-- Every enabled channel takes its duty from the LED of a column in the row of the keys. -/
theorem mem_updatePwmChannels {state : State board} {drive : ℕ × Byte}
    (member : drive ∈ (updatePwmChannels state).2) :
    ∃ col < board.ledCols, drive =
      (board.chanColOrder col,
        component state.currentRow (state.ledState (ledIndex board state.rowIdx col))) := by
  have inside (cols : List ℕ) (update : Bool × List (ℕ × Byte))
      (found : drive ∈ (cols.foldl (updateChannel state) update).2) :
      drive ∈ update.2 ∨ ∃ col ∈ cols, drive = (board.chanColOrder col,
        component state.currentRow (state.ledState (ledIndex board state.rowIdx col))) := by
    induction cols generalizing update with
    | nil => exact .inl found
    | cons col rest ih =>
      rcases ih _ found with earlier | ⟨later, among, same⟩
      · unfold updateChannel at earlier
        dsimp only at earlier
        split at earlier
        · rcases List.mem_append.mp earlier with before | here
          · exact .inl before
          · exact .inr ⟨col, List.mem_cons_self, List.mem_singleton.mp here⟩
        · exact .inl earlier
      · exact .inr ⟨later, List.mem_cons_of_mem col among, same⟩
  rcases inside _ _ member with nothing | ⟨col, among, same⟩
  · cases nothing
  · exact ⟨col, List.mem_range.mp among, same⟩

end Outputs

section Keys

/-- `MATRIX_ROW_SHIFTER << col` is the bit of the column. -/
theorem getLsbD_columnBit {width col : ℕ} (inside : col < width) (other : ℕ) :
    ((1 : BitVec width) <<< col).getLsbD other = decide (other = col) := by
  have bit : (1 : BitVec width) <<< col = BitVec.twoPow width col := (BitVec.twoPow_eq _ _).symm
  rw [bit, BitVec.getLsbD_twoPow]
  simp [inside, eq_comm]

/-- A row that has been scanned has the bits of the pins. -/
theorem getLsbD_matrixScanKeys (pressed : ℕ → Bool) (row : BitVec board.rowWidth) {col : ℕ}
    (below : col < board.cols) : (matrixScanKeys board pressed row).getLsbD col = pressed col := by
  have width := board.cols_le
  have bits (n : ℕ) (within : n ≤ board.cols) : ((List.range n).foldl
      (fun row col =>
        if pressed col then row ||| ((1 : BitVec board.rowWidth) <<< col)
        else row &&& ~~~((1 : BitVec board.rowWidth) <<< col)) row).getLsbD col =
      if col < n then pressed col else row.getLsbD col := by
    induction n with
    | zero => rfl
    | succ n ih =>
      have column := getLsbD_columnBit (show n < board.rowWidth by omega) col
      rw [List.range_succ, List.foldl_append, List.foldl_cons, List.foldl_nil]
      have earlier := ih (by omega)
      generalize (List.range n).foldl _ row = scanned at earlier ⊢
      generalize (1 : BitVec board.rowWidth) <<< n = mask at column ⊢
      by_cases here : col = n
      · subst here
        cases read : pressed col with
        | true => simp [read, column]
        | false => simp [read, column]
      · have apart : (col < n + 1) = (col < n) := propext (by omega)
        cases pressed n with
        | true => simp [column, here, earlier, apart]
        | false =>
          rw [if_neg Bool.false_ne_true, BitVec.getLsbD_and, BitVec.getLsbD_not, column, earlier]
          simp only [here, apart, show col < board.rowWidth by omega, decide_true, decide_false,
            Bool.not_false, Bool.and_true]
  rw [matrixScanKeys, bits board.cols le_rfl, if_pos below]

/-- What a callback among some events has found in a row of keys. -/
def Refreshes (state : State board) (events : List Event) (row : ℕ) : Prop :=
  ∃ before pressed after, events = before ++ .callback pressed :: after ∧
    (run step state (before ++ [.callback pressed])).rowIdx.toNat = row ∧
    ∀ col < board.cols, ((run step state events).rawMatrix row).getLsbD col = pressed col

/-- A row that some callback has sampled shows what one of them has found. -/
theorem refreshes_of_sampled {state : State board} {row : ℕ} {events : List Event}
    (sampled : ∃ before pressed after, events = before ++ .callback pressed :: after ∧
      (run step state (before ++ [.callback pressed])).rowIdx.toNat = row) :
    Refreshes state events row := by
  induction events using List.reverseRecOn with
  | nil =>
    obtain ⟨before, pressed, after, split, -⟩ := sampled
    simp at split
  | append_singleton earlier event ih =>
    -- the last event, unless it samples the row again, leaves what was found before
    have keep (same : (step (run step state earlier) event).rawMatrix row =
        (run step state earlier).rawMatrix row) (found : Refreshes state earlier row) :
        Refreshes state (earlier ++ [event]) row := by
      obtain ⟨before, pressed, after, split, here, bits⟩ := found
      refine ⟨before, pressed, after ++ [event], by simp [split], here, fun col below => ?_⟩
      rw [run_append, run_cons, run_nil, same]
      exact bits col below
    by_cases here : ∃ pressed, event = .callback pressed ∧
        (run step state (earlier ++ [.callback pressed])).rowIdx.toNat = row
    · obtain ⟨pressed, rfl, samples⟩ := here
      refine ⟨earlier, pressed, [], rfl, samples, fun col below => ?_⟩
      rw [run_append, run_cons, run_nil] at samples ⊢
      rw [← samples]
      have scanned : (step (run step state earlier) (.callback pressed)).rawMatrix
          (step (run step state earlier) (.callback pressed)).rowIdx.toNat =
          matrixScanKeys board pressed ((run step state earlier).rawMatrix
            (step (run step state earlier) (.callback pressed)).rowIdx.toNat) :=
        Function.update_self _ _ _
      rw [scanned, getLsbD_matrixScanKeys pressed _ below]
    · have before : Refreshes state earlier row := by
        obtain ⟨before, pressed, after, split, samples⟩ := sampled
        rcases List.eq_nil_or_concat after with nothing | ⟨middle, last, concat⟩
        · subst nothing
          obtain ⟨rfl, same⟩ := List.append_inj' split rfl
          exact absurd ⟨pressed, List.head_eq_of_cons_eq same, samples⟩ here
        · rw [concat, List.concat_eq_append, ← List.cons_append, ← List.append_assoc] at split
          obtain ⟨rfl, -⟩ := List.append_inj' split rfl
          exact ih ⟨before, pressed, middle, rfl, samples⟩
      refine keep ?_ before
      cases event with
      | callback pressed =>
        have apart : row ≠ (step (run step state earlier) (.callback pressed)).rowIdx.toNat := by
          intro same
          refine here ⟨pressed, rfl, ?_⟩
          rw [run_append, run_cons, run_nil, same]
        exact Function.update_of_ne apart _ _
      | scan => rfl
      | setColor index color => rfl

end Keys

section Scans

theorem locally_scanRow (rawMatrix : Rows board) :
    Locally (fun (scan : Bool × Rows board) row => scan.2 row) (scanRow rawMatrix)
      (fun row _ => rawMatrix row) where
  here := fun scan row => by
    unfold scanRow
    split
    · exact Function.update_self _ _ _
    · rename_i same
      exact not_not.mp same
  elsewhere := fun scan row other apart => by
    unfold scanRow
    split
    · exact Function.update_of_ne apart _ _
    · rfl

/-- One pass of `matrix_scan` over the rows tells whether one differs, and remembers them. -/
theorem scanRows_eq (rawMatrix : Rows board) (scan : Bool × Rows board) :
    ((List.range board.rows).foldl (scanRow rawMatrix) scan).1 =
        (scan.1 || (List.range board.rows).any fun row => scan.2 row ≠ rawMatrix row) ∧
      ∀ row < board.rows,
        ((List.range board.rows).foldl (scanRow rawMatrix) scan).2 row = rawMatrix row := by
  constructor
  · refine (locally_scanRow rawMatrix).foldl_flag Prod.fst
      (fun row last => decide (last ≠ rawMatrix row)) (fun scan row => ?_) List.nodup_range scan
    unfold scanRow
    split
    · rename_i differs
      simp [differs]
    · rename_i same
      simp [not_not.mp same]
  · intro row below
    exact (locally_scanRow rawMatrix).foldl_here List.nodup_range (List.mem_range.mpr below) scan

/-- Further passes find nothing. -/
theorem scanPasses_eq (rawMatrix : Rows board) (scan : Bool × Rows board) (passes : ℕ) :
    ((List.range (passes + 1)).foldl
        (fun scan _ => (List.range board.rows).foldl (scanRow rawMatrix) scan) scan).1 =
        (scan.1 || (List.range board.rows).any fun row => scan.2 row ≠ rawMatrix row) ∧
      ∀ row < board.rows, ((List.range (passes + 1)).foldl
        (fun scan _ => (List.range board.rows).foldl (scanRow rawMatrix) scan) scan).2 row =
          rawMatrix row := by
  induction passes with
  | zero => exact scanRows_eq rawMatrix scan
  | succ passes ih =>
    rw [List.range_succ, List.foldl_append, List.foldl_cons, List.foldl_nil]
    generalize (List.range (passes + 1)).foldl _ scan = passed at ih ⊢
    obtain ⟨flag, rows⟩ := scanRows_eq rawMatrix passed
    refine ⟨?_, rows⟩
    rw [flag, ih.1]
    have quiet : ((List.range board.rows).any fun row => decide (passed.2 row ≠ rawMatrix row)) =
        false := by
      rw [List.any_eq_false]
      intro row member
      simp [ih.2 row (List.mem_range.mp member)]
    rw [quiet, Bool.or_false]

/-- The raw matrix at the last scan among some events -/
def watchScan (watched : State board × Rows board) (event : Event) : State board × Rows board :=
  (step watched.1 event,
    match event with
    | .scan => watched.1.rawMatrix
    | _ => watched.2)

def rawAtScan (board : Board) (events : List Event) : Rows board :=
  (run watchScan (({} : State board), fun _ => 0) events).2

theorem matrixScan_eq (state : State board) :
    ((matrixScan state).2 = true ↔ ∃ row < board.rows, state.lastMatrix row ≠ state.rawMatrix row) ∧
      ∀ row < board.rows, (matrixScan state).1.lastMatrix row = state.rawMatrix row := by
  have cols : board.cols = board.cols - 1 + 1 := by
    have positive := board.cols_pos
    omega
  obtain ⟨changed, rows⟩ := scanPasses_eq state.rawMatrix (false, state.lastMatrix) (board.cols - 1)
  rw [← cols] at changed rows
  constructor
  · have result : (matrixScan state).2 = _ := changed
    rw [result, Bool.false_or, List.any_eq_true]
    simp [List.mem_range]
  · exact rows

theorem fst_watchScan (watched : State board × Rows board) (events : List Event) :
    (run watchScan watched events).1 = run step watched.1 events := by
  induction events generalizing watched with
  | nil => rfl
  | cons event rest ih => exact ih _

/-- The last matrix is the raw one at the last scan. -/
theorem lastMatrix_run (events : List Event) {row : ℕ} (below : row < board.rows) :
    (run step ({} : State board) events).lastMatrix row = rawAtScan board events row := by
  induction events using List.reverseRecOn with
  | nil => rfl
  | append_singleton earlier event ih =>
    rw [rawAtScan, run_append, run_append, run_cons, run_nil, run_cons, run_nil]
    cases event with
    | callback pressed => exact ih
    | scan =>
      have seen := (matrixScan_eq (run step ({} : State board) earlier)).2 row below
      have raw : (run watchScan (({} : State board), fun _ => 0) earlier).1.rawMatrix row =
          (run step ({} : State board) earlier).rawMatrix row := by
        rw [fst_watchScan]
      exact seen.trans raw.symm
    | setColor index color => exact ih

end Scans

section Cycles

/-- What holds of the shared scan behind some events, and of the next callback and scan. -/
structure Cycles (board : Board) (events : List Event) : Prop where
  /-- The key row is the one that belongs to the LED row. -/
  phase : (run step ({} : State board) events).rowIdx.toNat =
    ((run step ({} : State board) events).currentRow.toNat + 1) / 3 % board.rows
  /-- A whole cycle that finds the PWM enabled sets every LED row pin once. -/
  pins : ∀ before window, events = before ++ window → callbacks window = board.rowsHw →
    (run step ({} : State board) before).enablePwm = true → ∀ pin < board.rowsHw,
      ((outputs (run step ({} : State board) before) window).map Output.rowPin).count (some pin) = 1
  /-- A whole cycle refreshes every row of the raw matrix. -/
  keys : ∀ before window, events = before ++ window → callbacks window = board.rowsHw →
    ∀ row < board.rows, Refreshes (run step ({} : State board) before) window row
  /-- A channel takes its duty from the LED of its column in the key row. -/
  duties : ∀ pressed,
    ∀ drive ∈ (rgbCallback (run step ({} : State board) events) pressed).2.duties,
      ∃ col < board.ledCols, drive = (board.chanColOrder col,
        component (run step ({} : State board) (events ++ [.callback pressed])).currentRow
          ((run step ({} : State board) (events ++ [.callback pressed])).ledState
            (ledIndex board (run step ({} : State board) (events ++ [.callback pressed])).rowIdx
              col)))
  /-- A scan reports a change if some row is not what it was at the scan before. -/
  change : (matrixScan (run step ({} : State board) events)).2 = true ↔
    ∃ row < board.rows,
      (run step ({} : State board) events).rawMatrix row ≠ rawAtScan board events row

/-- Among the callbacks of a whole cycle there is one for every LED row. -/
theorem callback_of_row (fits : board.rowsHw ≤ 255) {state : State board}
    (within : state.currentRow.toNat < board.rowsHw) {events : List Event} {count : ℕ}
    (many : count < callbacks events) :
    ∃ before pressed after, events = before ++ .callback pressed :: after ∧
      (run step state (before ++ [.callback pressed])).currentRow.toNat =
        (state.currentRow.toNat + 1 + count) % board.rowsHw := by
  induction events generalizing state count with
  | nil => exact absurd many (Nat.not_lt_zero count)
  | cons event rest ih =>
    cases event with
    | callback pressed =>
      have next : (step state (.callback pressed)).currentRow.toNat =
          (state.currentRow.toNat + 1) % board.rowsHw := advance_fst fits within
      cases count with
      | zero => exact ⟨[], pressed, rest, rfl, next⟩
      | succ count =>
        have below : (step state (.callback pressed)).currentRow.toNat < board.rowsHw := by
          rw [next]
          exact Nat.mod_lt _ (by omega)
        have fewer : count < callbacks rest := by
          simpa [callbacks] using many
        obtain ⟨before, found, after, split, row⟩ := ih below fewer
        refine ⟨.callback pressed :: before, found, after, by rw [split]; rfl, ?_⟩
        rw [List.cons_append, run_cons, row, next, Nat.add_assoc, Nat.mod_add_mod]
        congr 1
        omega
    | scan =>
      have below : (step state .scan).currentRow.toNat < board.rowsHw := within
      obtain ⟨before, found, after, split, row⟩ := ih below many
      exact ⟨.scan :: before, found, after, by rw [split]; rfl, row⟩
    | setColor index color =>
      have below : (step state (.setColor index color)).currentRow.toNat < board.rowsHw := within
      obtain ⟨before, found, after, split, row⟩ := ih below many
      exact ⟨.setColor index color :: before, found, after, by rw [split]; rfl, row⟩

/-- A whole cycle samples every row of keys. -/
theorem sampled_of_whole (fits : board.rowsHw ≤ 255) {state : State board}
    (inPhase : InPhase board state.counters) {events : List Event}
    (whole : callbacks events = board.rowsHw) {row : ℕ} (below : row < board.rows) :
    ∃ before pressed after, events = before ++ .callback pressed :: after ∧
      (run step state (before ++ [.callback pressed])).rowIdx.toNat = row := by
  have within : state.currentRow.toNat < board.rowsHw := inPhase.within
  have pin : 3 * row < board.rowsHw := by
    unfold Board.rowsHw
    omega
  have reached : ∃ count < board.rowsHw,
      (state.currentRow.toNat + 1 + count) % board.rowsHw = 3 * row := by
    have once := count_round (state.currentRow.toNat + 1) pin
    obtain ⟨count, among, same⟩ :=
      List.mem_map.mp (List.count_pos_iff.mp (once ▸ Nat.one_pos))
    exact ⟨count, List.mem_range.mp among, same⟩
  obtain ⟨count, many, arrives⟩ := reached
  obtain ⟨before, pressed, after, split, led⟩ :=
    callback_of_row fits within (show count < callbacks events by omega)
  refine ⟨before, pressed, after, split, ?_⟩
  have phase := (run_keeps (fun state : State board => InPhase board state.counters)
    (inPhase_step fits) inPhase (before ++ [.callback pressed])).phase
  have key : (run step state (before ++ [.callback pressed])).rowIdx.toNat =
      ((run step state (before ++ [.callback pressed])).currentRow.toNat + 1) / 3 % board.rows :=
    phase
  rw [key, led, arrives, show (3 * row + 1) / 3 = row by omega, Nat.mod_eq_of_lt below]

end Cycles

/-- A keyboard of some rows and one column, whose keys have the LED of their row -/
def column (rows : ℕ) (positive : 0 < rows) : Board where
  rows := rows
  cols := 1
  ledColPins := [.a 8]
  rowWidth := 8
  matrixCo := fun row _ => BitVec.ofNat 8 row
  rows_pos := positive
  cols_pos := Nat.one_pos
  cols_le := by decide

/-- Callbacks alone take the counters forward one by one. -/
theorem counters_replicate (state : State board) (pressed : ℕ → Bool) (n : ℕ) :
    (run step state (List.replicate n (.callback pressed))).counters =
      (advance board)^[n] state.counters := by
  induction n generalizing state with
  | zero => rfl
  | succ n ih =>
    rw [List.replicate_succ, run_cons, ih, counters_step, Function.iterate_succ_apply]

end QmkSonix.SharedScan
