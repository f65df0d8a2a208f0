import QmkSonix.Lib.Sweep
import QmkSonix.RgbMatrix.Drawing

/-! Which LEDs are reached: the effects by slices of the LEDs or through `matrix_co`, the
interrupt through `matrix_co` on its own. -/

namespace QmkSonix.RgbMatrix

open QmkSonix.Lib

variable {cfg : Config} {Memory : Type*} (layout : Layout cfg) (painter : Painter Memory)

/-- Every call of `rgb_matrix_set_color` has been for an LED of the driver. -/
def Drawing.Within (cfg : Config) (drawing : Drawing Memory) : Prop :=
  ∀ call ∈ drawing.calls, call.1 < cfg.ledTotal

instance (drawing : Drawing Memory) : Decidable (drawing.Within cfg) :=
  inferInstanceAs (Decidable (∀ call ∈ drawing.calls, call.1 < cfg.ledTotal))

section Effects

variable (call : Call) (canvas : Canvas cfg Memory)

theorem within_paint (visit : Visit) (index : ℕ) :
    (paint painter call visit canvas index).1.Within cfg ↔
      canvas.1.Within cfg ∧ index < cfg.ledTotal := by
  simp only [paint, rgbMatrixSetColor, Drawing.Within, List.forall_mem_append,
    List.forall_mem_singleton]

@[simp] theorem within_change (change : Memory → Memory) :
    (canvas.change change).1.Within cfg ↔ canvas.1.Within cfg := Iff.rfl

/-- An LED is painted behind the test of its flags. -/
theorem within_flagged (flags : Byte) (visit : Visit) (index : ℕ) {changed : Canvas cfg Memory}
    (same : changed.1.Within cfg ↔ canvas.1.Within cfg) :
    (if flags = 0 then canvas else paint painter call visit changed index).1.Within cfg ↔
      canvas.1.Within cfg ∧ (flags ≠ 0 → index < cfg.ledTotal) := by
  split
  · rename_i untouched
    simp [untouched]
  · rename_i touched
    rw [within_paint, same]
    exact and_congr_right fun _ => ⟨fun below _ => below, fun below => below touched⟩

theorem within_drawLed (i : ℕ) :
    (drawLed layout painter call canvas i).1.Within cfg ↔
      canvas.1.Within cfg ∧ (layout.flags i &&& call.params.flags ≠ 0 → i < cfg.ledTotal) :=
  within_flagged painter call canvas _ _ i Iff.rfl

/-- A slice ends with the LEDs. -/
theorem useLimits_le (iter : Byte) : (layout.useLimits iter).2 ≤ cfg.ledTotal := by
  unfold Layout.useLimits
  have whole : (if 0 < layout.limit ∧ layout.limit < cfg.ledTotal then
      let min := layout.limit * iter.toNat % 256
      let max := (min + layout.limit) % 256
      (min, if cfg.ledTotal < max then cfg.ledTotal else max)
    else (0, cfg.ledTotal)).2 ≤ cfg.ledTotal := by
    split
    · dsimp only
      split <;> omega
    · exact le_rfl
  generalize (if 0 < layout.limit ∧ layout.limit < cfg.ledTotal then _ else _) = bounds at whole ⊢
  obtain ⟨min, max⟩ := bounds
  dsimp only at whole ⊢
  split
  · dsimp only
    split
    · rename_i clipped
      rw [Bool.and_eq_true, decide_eq_true_eq] at clipped
      omega
    · exact whole
  · exact whole

/-- A canvas on which nothing lies outside the LEDs -/
def WithinLeds (canvas : Canvas cfg Memory) : Prop := canvas.1.Within cfg

theorem within_drawLeds :
    (drawLeds layout painter call canvas).1.1.Within cfg ↔ canvas.1.Within cfg := by
  have limit := useLimits_le layout call.params.iter
  unfold drawLeds
  generalize layout.useLimits call.params.iter = bounds at limit
  obtain ⟨min, max⟩ := bounds
  refine foldl_holds_iff_of_same WithinLeds (fun i member canvas => ?_) canvas
  rw [WithinLeds, within_drawLed, WithinLeds, and_iff_left_iff_imp]
  intro _ _
  dsimp only at limit
  rw [List.mem_range'_1] at member
  omega

theorem within_drawRaindrops (every : ℕ) :
    (drawRaindrops layout painter call every canvas).1.1.Within cfg ↔ canvas.1.Within cfg := by
  unfold drawRaindrops
  split
  · split
    · dsimp only
      rw [within_drawLed, within_change, and_iff_left_iff_imp]
      exact fun _ _ => Nat.mod_lt _ layout.total_pos
    · exact Iff.rfl
  · exact within_drawLeds layout painter call canvas

/-- The filtered look-up only gives LEDs of the driver. -/
theorem mapped_lt {row col : ℕ} (rows : row < layout.board.rows)
    (cols : col < layout.board.cols) :
    ∀ led ∈ mapRowColumnToLed cfg row col, led.toNat < cfg.ledTotal := by
  have extra := layout.mapKb_lt row col
  unfold mapRowColumnToLed
  dsimp only
  split
  · rename_i some
    rw [List.forall_mem_append, List.forall_mem_singleton]
    exact ⟨extra, (layout.entries row rows col cols).resolve_right some⟩
  · exact extra

theorem within_drawDrop {cell : ℕ × ℕ} (rows : cell.1 < layout.board.rows)
    (cols : cell.2 < layout.board.cols) :
    (drawDrop painter call canvas cell).1.Within cfg ↔ canvas.1.Within cfg := by
  have mapped := mapped_lt layout rows cols
  unfold drawDrop
  dsimp only
  split
  · exact Iff.rfl
  · rename_i led rest leds
    rw [within_paint, within_change, and_iff_left_iff_imp]
    rw [leds, List.forall_mem_cons] at mapped
    exact fun _ => mapped.1

theorem within_drawHeat {i : ℕ} (below : i < layout.board.rows * layout.board.cols) :
    (drawHeat layout painter call canvas i).1.Within cfg ↔ canvas.1.Within cfg := by
  have mapped := mapped_lt layout (Nat.mod_lt i layout.board.rows_pos)
    ((Nat.div_lt_iff_lt_mul layout.board.rows_pos).mpr (Nat.mul_comm _ _ ▸ below))
  simp only [drawHeat, within_change]
  generalize mapRowColumnToLed cfg (i % layout.board.rows) (i / layout.board.rows) = leds at mapped
  refine foldl_holds_iff_of_same WithinLeds (fun led member canvas => ?_) canvas
  have flagged := within_flagged painter call canvas (layout.flags led.toNat &&& call.params.flags)
    (.cell (i % layout.board.rows) (i / layout.board.rows)) led.toNat Iff.rfl
  exact flagged.trans (and_iff_left fun _ => mapped led member)

theorem within_drawDigitalRain :
    (drawDigitalRain layout painter call canvas).1.1.Within cfg ↔ canvas.1.Within cfg := by
  simp only [drawDigitalRain, within_change]
  refine (foldl_holds_iff_of_same WithinLeds (fun cell member canvas => ?_) _).trans ?_
  · obtain ⟨col, cols, row⟩ := List.mem_flatMap.mp member
    obtain ⟨row, rows, rfl⟩ := List.mem_map.mp row
    exact within_drawDrop layout painter call canvas (List.mem_range.mp rows) (List.mem_range.mp cols)
  · rw [WithinLeds, within_change]
    split <;> exact Iff.rfl

theorem within_drawHeatmap :
    (drawHeatmap layout painter call canvas).1.1.Within cfg ↔ canvas.1.Within cfg := by
  simp only [drawHeatmap]
  refine (foldl_holds_iff_of_same WithinLeds (fun i member canvas => ?_) _).trans ?_
  · refine within_drawHeat layout painter call canvas ?_
    rw [List.mem_range'_1] at member
    split at member <;> omega
  · rw [WithinLeds, within_change]
    split <;> exact Iff.rfl

theorem within_drawFractalRow (row : ℕ) :
    (drawFractalRow layout painter call canvas row).1.Within cfg ↔
      canvas.1.Within cfg ∧ ∀ led ∈ layout.fractalLeds row, led.toNat < cfg.ledTotal := by
  rw [drawFractalRow, within_change]
  refine (foldl_holds_iff WithinLeds (fun led : Byte × ℕ => led.1.toNat < cfg.ledTotal)
    (fun led _ canvas => within_paint painter call canvas _ led.1.toNat) canvas).trans ?_
  refine and_congr_right fun _ => ?_
  have names := List.forall_mem_map (l := (layout.fractalLeds row).zipIdx) (f := Prod.fst)
    (P := fun led : Byte => led.toNat < cfg.ledTotal)
  rw [List.zipIdx_map_fst] at names
  exact names.symm

/-- Every key has an LED. The one in front of the table matters where there is one column. -/
structure Layout.Full (layout : Layout cfg) : Prop where
  keys : ∀ row < layout.board.rows, ∀ col < layout.board.cols, cfg.matrixCo row col ≠ 255
  before : layout.board.cols = 1 → layout.before.toNat < cfg.ledTotal

theorem forall_mem_fractalLeds (row : ℕ) (Fits : Byte → Prop) :
    (∀ led ∈ layout.fractalLeds row, Fits led) ↔
      (∀ col < layout.midCol - 1, Fits (cfg.matrixCo row col)) ∧
        (∀ col, layout.midCol < col → col < layout.board.cols → Fits (cfg.matrixCo row col)) ∧
        Fits (cfg.matrixCo row layout.midCol) ∧ Fits (layout.beforeMid row) := by
  have right (col : ℕ) : (layout.midCol + 1 ≤ col ∧
      col < layout.midCol + 1 + (layout.board.cols - 1 - layout.midCol)) ↔
      layout.midCol < col ∧ col < layout.board.cols := by
    have middle := Nat.div_lt_self layout.board.cols_pos (le_refl 2)
    unfold Layout.midCol
    omega
  simp only [Layout.fractalLeds, List.forall_mem_append, List.forall_mem_cons, List.forall_mem_map,
    List.mem_range, List.mem_reverse, List.mem_range'_1, right, and_imp, and_assoc, List.not_mem_nil,
    false_implies, implies_true, and_true]

/-- `PIXEL_FRACTAL` looks at every key. -/
theorem fractalLeds_lt_iff :
    (∀ row < layout.board.rows, ∀ led ∈ layout.fractalLeds row, led.toNat < cfg.ledTotal) ↔
      layout.Full := by
  have total := layout.total_lt
  have middle : layout.midCol < layout.board.cols :=
    Nat.div_lt_self layout.board.cols_pos (le_refl 2)
  have some {row col : ℕ} (below : (cfg.matrixCo row col).toNat < cfg.ledTotal) :
      cfg.matrixCo row col ≠ 255 := by
    intro none
    rw [none] at below
    exact absurd below (by change ¬ 255 < cfg.ledTotal; omega)
  simp only [forall_mem_fractalLeds]
  constructor
  · intro fits
    refine ⟨fun row rows col cols => ?_, fun one => ?_⟩
    · obtain ⟨left, right, here, before⟩ := fits row rows
      rcases Nat.lt_trichotomy col layout.midCol with less | same | more
      · by_cases far : col < layout.midCol - 1
        · exact some (left col far)
        · rw [Layout.beforeMid, if_pos (by omega)] at before
          rw [show col = layout.midCol - 1 by omega]
          exact some before
      · rw [same]
        exact some here
      · exact some (right col more cols)
    · obtain ⟨-, -, -, before⟩ := fits 0 layout.board.rows_pos
      have first : layout.midCol = 0 := by unfold Layout.midCol; omega
      rwa [Layout.beforeMid, if_neg (by omega), if_neg (by omega)] at before
  · rintro ⟨keys, front⟩ row rows
    have here {row : ℕ} (rows : row < layout.board.rows) {col : ℕ} (cols : col < layout.board.cols) :
        (cfg.matrixCo row col).toNat < cfg.ledTotal :=
      (layout.entries row rows col cols).resolve_right (keys row rows col cols)
    refine ⟨fun col less => here rows (by omega), fun col _ cols => here rows cols,
      here rows middle, ?_⟩
    unfold Layout.beforeMid
    split
    · exact here rows (by omega)
    · rename_i first
      split
      · exact here (by omega) (by omega)
      · refine front ?_
        unfold Layout.midCol at first
        omega

theorem within_drawPixelFractal :
    (drawPixelFractal layout painter call canvas).1.1.Within cfg ↔
      canvas.1.Within cfg ∧ (¬ call.rgbTimer < canvas.1.waitTimer → layout.Full) := by
  unfold drawPixelFractal
  split
  · rename_i waits
    simp [waits]
  · rename_i due
    have fold := foldl_holds_iff WithinLeds
      (fun row => ∀ led ∈ layout.fractalLeds row, led.toNat < cfg.ledTotal)
      (fun row (_ : row ∈ List.range layout.board.rows) canvas =>
        within_drawFractalRow layout painter call canvas row) canvas
    simp only [List.mem_range, fractalLeds_lt_iff] at fold
    exact fold.trans (and_congr_right fun _ => ⟨fun full _ => full, fun full => full due⟩)

/-- Only `PIXEL_FRACTAL` may leave the LEDs, where it does not wait. -/
theorem within_drawEffect :
    (drawEffect layout painter call canvas).1.1.Within cfg ↔
      canvas.1.Within cfg ∧
        (call.animation = .pixelFractal → ¬ call.rgbTimer < canvas.1.waitTimer → layout.Full) := by
  unfold drawEffect
  split
  case h_1 other | h_2 other =>
    rw [within_drawRaindrops]
    simp [other]
  case h_3 other =>
    rw [within_drawDigitalRain]
    simp [other]
  case h_4 other =>
    rw [within_drawHeatmap]
    simp [other]
  case h_5 fractal =>
    rw [within_drawPixelFractal]
    simp [fractal]
  all_goals
    rename_i other
    rw [within_drawLeds]
    simp [other]

/-- Where the preprocessor admits the limit, the slices are those of the effect runners. -/
theorem useLimits_eq (lim : Limits cfg) (limit : layout.limit = lim.limit)
    (leftLeds : layout.leftLeds.toNat = lim.leftLeds) (iter : Byte) :
    layout.useLimits iter = useLimits lim layout.left iter := by
  unfold Layout.useLimits useLimits
  rw [if_pos (by rw [limit]; exact ⟨lim.limit_pos, lim.limit_lt⟩), limit, leftLeds]

end Effects

section Machine

/-- The interrupt sees `led_state` at the indexes that a machine notes, and nowhere else. -/
theorem callback_congr {board : SharedScan.Board} (scan : SharedScan.State board)
    (pressed : ℕ → Bool) {other : ℕ → SharedScan.RGB}
    (same : ∀ index ∈ (List.range board.ledCols).map (SharedScan.ledIndex board
      (SharedScan.rgbCallback scan pressed).1.rowIdx), other index = scan.ledState index) :
    (SharedScan.rgbCallback { scan with ledState := other } pressed).2 =
      (SharedScan.rgbCallback scan pressed).2 := by
  have channels : SharedScan.updatePwmChannels
      (SharedScan.sampleRow { scan with ledState := other } pressed) =
      SharedScan.updatePwmChannels (SharedScan.sampleRow scan pressed) := by
    refine List.foldl_ext _ _ _ fun update col member => ?_
    have read := same _ (List.mem_map_of_mem member)
    simp only [SharedScan.rgbCallback, SharedScan.sampleRow] at read
    simp only [SharedScan.updateChannel, SharedScan.sampleRow, read]
    rfl
  simp only [SharedScan.rgbCallback, channels]
  rfl

/-- No LED outside of the driver has been written or read. -/
def Machine.InRange (machine : Machine layout Memory) : Prop :=
  machine.matrix.scratch.Within cfg ∧ ∀ index ∈ machine.ledReads, index < cfg.ledTotal

instance (machine : Machine layout Memory) : Decidable machine.InRange :=
  inferInstanceAs (Decidable (_ ∧ _))

/-- The next task calls `PIXEL_FRACTAL`, and that does not wait. -/
def DrawsFractal (state : State cfg (Drawing Memory)) (reads : Reads) : Prop :=
  state.taskState = .rendering ∧
    (rgbTaskTimers state reads).effect ≠ 0 ∧
    (rgbTaskTimers state reads).effect.toNat < cfg.effectMax ∧
    layout.animation (rgbTaskTimers state reads).effect = .pixelFractal ∧
    ¬ state.rgbTimer < state.scratch.waitTimer

/-- `PIXEL_FRACTAL` only runs where every key has an LED, and the interrupt only comes to rows
whose keys all have one. -/
def HasLeds (machine : Machine layout Memory) : Deed → Prop
  | .matrix (.task reads) => DrawsFractal layout machine.matrix reads → layout.Full
  | .matrix _ => True
  | .callback _ =>
    ∀ col < layout.board.ledCols,
      cfg.matrixCo
        (SharedScan.advance layout.board (machine.scan.currentRow, machine.scan.rowIdx)).2.toNat
        col ≠ 255

/-- What a task draws, it draws in its effect. -/
theorem scratch_runPhase {state : State cfg (Drawing Memory)} (rendering : state.taskState = .rendering)
    (reads : Reads) :
    (runPhase (layoutEffects layout painter) state reads).scratch =
      (runEffect (layoutEffects layout painter) (state.prepared state.effect) state.effect).1.1 := by
  simp only [runPhase, rendering, rgbTaskRender, if_neg (effect_ne_test state)]
  split <;> rfl

theorem within_runEffect (state : State cfg (Drawing Memory)) (effect : Byte) :
    (runEffect (layoutEffects layout painter) state effect).1.1.Within cfg ↔
      state.scratch.Within cfg ∧
        (effect ≠ 0 → effect.toNat < cfg.effectMax → layout.animation effect = .pixelFractal →
          ¬ state.rgbTimer < state.scratch.waitTimer → layout.Full) := by
  unfold runEffect
  split
  · rename_i none
    have same : (rgbMatrixNone state.effectParams (state.scratch, state.colors)).1.1 =
        state.scratch := by
      unfold rgbMatrixNone
      split <;> rfl
    rw [same]
    simp [none]
  · rename_i lit
    split
    · rename_i known
      rw [show (layoutEffects layout painter).effect effect state.effectParams state.rgbTimer
        state.lastHitTracker (state.scratch, state.colors) =
        drawEffect layout painter ⟨layout.animation effect, state.effectParams, state.rgbTimer,
          state.lastHitTracker⟩ (state.scratch, state.colors) from rfl, within_drawEffect]
      exact and_congr_right fun _ => ⟨fun full _ _ => full, fun full => full lit known⟩
    · rename_i unknown
      simp [unknown]

theorem within_rgbMatrixTask (state : State cfg (Drawing Memory)) (reads : Reads) :
    (rgbMatrixTask (layoutEffects layout painter) state reads).scratch.Within cfg ↔
      state.scratch.Within cfg ∧ (DrawsFractal layout state reads → layout.Full) := by
  by_cases rendering : state.taskState = .rendering
  · have phase : (rgbTaskTimers state reads).taskState = .rendering := rendering
    rw [rgbMatrixTask, scratch_runPhase layout painter phase, within_runEffect]
    refine and_congr_right fun _ => ?_
    unfold DrawsFractal
    simp only [and_imp]
    exact ⟨fun full _ => full, fun full => full rendering⟩
  · have same : (rgbMatrixTask (layoutEffects layout painter) state reads).scratch =
        state.scratch := by
      have phase : (rgbTaskTimers state reads).taskState = state.taskState := rfl
      unfold rgbMatrixTask runPhase
      rw [phase]
      split
      · rfl
      · rename_i here
        exact absurd here rendering
      · rfl
      · unfold rgbTaskSync
        split <;> rfl
    rw [same]
    exact (and_iff_left fun fractal => absurd fractal.1 rendering).symm

/-- Only tasks draw. -/
theorem calls_step {event : Event} (other : ∀ reads, event ≠ .task reads)
    (state : State cfg (Drawing Memory)) :
    (step (layoutEffects layout painter) state event).scratch.calls = state.scratch.calls := by
  cases event with
  | task reads => exact absurd rfl (other reads)
  | key row column pressed master =>
    simp only [step, processRgbMatrix, layoutEffects]
    split
    · rfl
    · dsimp only
      split <;> rfl
  | toggle => rfl
  | enable => rfl
  | disable => rfl
  | mode mode =>
    simp only [step, setMode]
    split <;> rfl
  | step =>
    simp only [step, stepMode, setMode]
    split <;> rfl
  | stepReverse =>
    simp only [step, stepModeReverse, setMode]
    split <;> rfl
  | flags flags => rfl

/-- The row that the interrupt comes to is one of the keyboard. -/
theorem advance_lt (board : SharedScan.Board) (counters : Byte × Byte) :
    (SharedScan.advance board counters).2.toNat < board.rows := by
  have positive := board.rows_pos
  unfold SharedScan.advance
  dsimp only
  generalize (if _ % SharedScan.ledMatrixRowChannels = 2 then counters.2 + 1 else counters.2) = next
  split
  · exact positive
  · omega

theorem inRange_step (machine : Machine layout Memory) (deed : Deed) :
    (machineStep layout painter machine deed).InRange ↔
      machine.InRange ∧ HasLeds layout machine deed := by
  cases deed with
  | matrix event =>
    by_cases task : ∃ reads, event = .task reads
    · obtain ⟨reads, rfl⟩ := task
      have drawn := within_rgbMatrixTask layout painter machine.matrix reads
      exact (and_congr_left' drawn).trans (and_right_comm ..)
    · push Not at task
      have same := calls_step layout painter task machine.matrix
      have free : HasLeds layout machine (.matrix event) := by
        cases event with
        | task reads => exact absurd rfl (task reads)
        | _ => trivial
      simp only [Machine.InRange, machineStep, Drawing.Within, same, free, and_true]
  | callback pressed =>
    have row := advance_lt layout.board (machine.scan.currentRow, machine.scan.rowIdx)
    have total := layout.total_lt
    have read : (∀ index ∈ (List.range layout.board.ledCols).map (SharedScan.ledIndex layout.board
        (SharedScan.advance layout.board (machine.scan.currentRow, machine.scan.rowIdx)).2),
        index < cfg.ledTotal) ↔ HasLeds layout machine (.callback pressed) := by
      simp only [List.forall_mem_map, List.mem_range, SharedScan.ledIndex, layout.sameTable, HasLeds]
      refine forall₂_congr fun col cols => ?_
      have entry := layout.entries _ row col (cols.trans_le layout.ledCols_le)
      constructor
      · intro below none
        rw [none] at below
        exact absurd below (by change ¬ 255 < cfg.ledTotal; omega)
      · exact entry.resolve_right
    rw [← read, Machine.InRange, Machine.InRange, and_assoc, ← List.forall_mem_append]
    rfl

/-- Where every key has an LED, no run leaves the LEDs of the driver. -/
theorem inRange_of_full (full : layout.Full) (stored : Option Settings) (memory : Memory)
    (deeds : List Deed) :
    (run (machineStep layout painter) (machineInit layout stored memory) deeds).InRange := by
  refine run_keeps (Machine.InRange layout) (fun machine deed inRange => ?_)
    ⟨fun _ none => absurd none List.not_mem_nil, fun _ none => absurd none List.not_mem_nil⟩ deeds
  refine (inRange_step layout painter machine deed).mpr ⟨inRange, ?_⟩
  cases deed with
  | matrix event =>
    cases event with
    | task reads => exact fun _ => full
    | _ => trivial
  | callback pressed =>
    exact fun col cols => full.keys _ (advance_lt layout.board _) col (cols.trans_le layout.ledCols_le)

end Machine

/-- In every run of a keyboard, all LEDs are reached within the driver exactly if
`PIXEL_FRACTAL` only runs where every key has an LED and the interrupt only comes to rows whose
keys all have one. -/
theorem inRange_iff_hasLeds (stored : Option Settings) (memory : Memory) (deeds : List Deed) :
    (∀ cut, (run (machineStep layout painter) (machineInit layout stored memory)
      (deeds.take cut)).InRange) ↔
      Along (machineStep layout painter) (HasLeds layout) (machineInit layout stored memory)
        deeds :=
  invariant_iff_along
    (fun machine deed inRange => (inRange_step layout painter machine deed).trans
      (and_iff_right inRange))
    ⟨fun _ none => absurd none List.not_mem_nil, fun _ none => absurd none List.not_mem_nil⟩ deeds

/-- A keyboard of two keys, the second of which has no LED -/
def gapBoard : Config where
  ledTotal := 1
  disableTimeout := 0
  effectMax := 2
  startupMode := 1
  reactive := none
  matrixCo := fun _ col => if col = 1 then 255 else 0
  point := fun _ => (0, 0)

theorem gapBoard_entries (row col : ℕ) :
    (gapBoard.matrixCo row col).toNat < gapBoard.ledTotal ∨ gapBoard.matrixCo row col = 255 := by
  simp only [gapBoard]
  split
  · exact .inr rfl
  · exact .inl Nat.one_pos

/-- It shows `PIXEL_FRACTAL`. -/
def gapLayout : Layout gapBoard where
  board :=
    { rows := 1
      cols := 2
      ledColPins := [.a 0, .a 1]
      rowWidth := 8
      matrixCo := gapBoard.matrixCo
      rows_pos := Nat.one_pos
      cols_pos := Nat.two_pos
      cols_le := Nat.le_add_left 2 6 }
  flags := fun _ => 4
  before := 0
  limit := 1
  leftLeds := 0
  left := true
  speed := 127
  animation := fun _ => .pixelFractal
  total_pos := Nat.one_pos
  total_lt := Nat.lt_add_left 253 Nat.one_lt_two
  sameTable := rfl
  entries := fun row _ col _ => gapBoard_entries row col
  mapKb_lt := fun _ _ _ member => absurd member List.not_mem_nil
  ledCols_le := le_rfl
  rows_le := Nat.le_add_left 1 254
  cols_le := Nat.le_add_left 2 30

/-- Its colours do not matter. -/
def gapPainter : Painter Unit where
  rand := fun memory => (memory, 0)
  start := fun _ _ _ memory => memory
  round := fun _ _ _ _ memory => memory
  finish := fun _ _ _ memory => memory
  color := fun _ _ _ _ _ _ => .off
  typing := fun _ _ memory => memory

/-- The first frame sets the colour of an LED 255, and so does the interrupt look at it. -/
theorem key_without_led_breaks :
    ¬ (run (machineStep gapLayout gapPainter) (machineInit gapLayout none ())
        [.matrix (.task ⟨20, 20, 20⟩), .matrix (.task ⟨21, 21, 21⟩),
          .matrix (.task ⟨22, 22, 22⟩)]).InRange ∧
      ¬ (run (machineStep gapLayout gapPainter) (machineInit gapLayout none ())
        [.callback fun _ => false]).InRange := by
  constructor <;> decide

end QmkSonix.RgbMatrix
