import QmkSonix.Lib.Slices
import QmkSonix.RgbMatrix.Model

/-! `RGB_MATRIX_USE_LIMITS`: an effect renders its frame in slices of LEDs, and the typing
heatmap in slices of keys. -/

namespace QmkSonix.RgbMatrix

open QmkSonix.Lib

/-- The macros that slices depend on, as far as the preprocessor admits them. -/
structure Limits (cfg : Config) where
  /-- `RGB_MATRIX_LED_PROCESS_LIMIT` -/
  limit : ℕ
  /-- The LEDs of the left half, the first number of `RGB_MATRIX_SPLIT` -/
  leftLeds : ℕ
  /-- `MATRIX_ROWS` -/
  rows : ℕ
  /-- `MATRIX_COLS` -/
  cols : ℕ
  total_le : cfg.ledTotal ≤ 255
  limit_pos : 0 < limit
  limit_lt : limit < cfg.ledTotal
  leftLeds_le : leftLeds ≤ cfg.ledTotal
  rows_pos : 0 < rows
  keys_le : rows * cols ≤ 255

/-- The effects that render slices: those with `RGB_MATRIX_USE_LIMITS` and
`rgb_matrix_check_finished_leds`, `OPENRGB_DIRECT` and `TYPING_HEATMAP` -/
inductive Runner where
  | leds
  | openRgbDirect
  | heatmap
  deriving DecidableEq, Repr

/-- A round of the loop of an effect: for an LED, or for a cell of the heatmap. -/
inductive Visit where
  | led (i : ℕ)
  | cell (row col : ℕ)
  deriving DecidableEq, Repr

variable {cfg : Config} (lim : Limits cfg)

section Effect

/-- `RGB_MATRIX_USE_LIMITS`: `min` and `max` -/
def useLimits (left : Bool) (iter : Byte) : ℕ × ℕ :=
  let min := lim.limit * iter.toNat % 256
  let max := (min + lim.limit) % 256
  let max := if cfg.ledTotal < max then cfg.ledTotal else max
  if cfg.split then
    (if !left && min < lim.leftLeds then lim.leftLeds else min,
      if left && lim.leftLeds < max then lim.leftLeds else max)
  else (min, max)

/-- `rgb_matrix_check_finished_leds` -/
def checkFinishedLeds (left : Bool) (ledIdx : ℕ) : Bool :=
  if cfg.split then if left then ledIdx < lim.leftLeds else ledIdx < cfg.ledTotal
  else ledIdx < cfg.ledTotal

/-- The bounds of `TYPING_HEATMAP`, over the size of the frame buffer -/
def heatmapLimits (iter : Byte) : ℕ × ℕ :=
  let min := lim.limit * iter.toNat % 256
  let max := (min + lim.limit) % 256
  (min, if lim.rows * lim.cols < max then lim.rows * lim.cols else max)

/-- The bounds of a call, what a round of its loop visits, and what it returns -/
def Runner.bounds (runner : Runner) (left : Bool) (iter : Byte) : ℕ × ℕ :=
  match runner with
  | .leds | .openRgbDirect => useLimits lim left iter
  | .heatmap => heatmapLimits lim iter

def Runner.visit (runner : Runner) (i : ℕ) : Visit :=
  match runner with
  | .leds | .openRgbDirect => .led i
  | .heatmap => .cell (i % lim.rows) (i / lim.rows)

def Runner.unfinished (runner : Runner) (left : Bool) (max : ℕ) : Bool :=
  match runner with
  | .leds => checkFinishedLeds lim left max
  | .openRgbDirect => max < cfg.ledTotal
  | .heatmap => max < lim.rows * lim.cols

/-- What the call with some `params->iter` visits. -/
def Runner.call (runner : Runner) (left : Bool) (iter : Byte) : List Visit :=
  let (min, max) := runner.bounds lim left iter
  (List.range' min (max - min)).map (runner.visit lim)

/-- A keyboard whose effects all use one runner. They paint what they visit in some way, and
note it. -/
def runnerEffects (runner : Runner) (left : Bool)
    (paint : EffectParams → Visit → Colors cfg → Colors cfg)
    (indicators : EffectParams → Colors cfg → Colors cfg) : Effects cfg (List Visit) where
  effect := fun _ params _ _ picture =>
    let visits := runner.call lim left params.iter
    ((picture.1 ++ visits, visits.foldl (fun colors visit => paint params visit colors) picture.2),
      runner.unfinished lim left (runner.bounds lim left params.iter).2)
  indicators := fun params picture => (picture.1, indicators params picture.2)
  typing := fun _ _ _ visits => visits

end Effect

section Range

/-- The indexes that belong to the half: its LEDs, or all cells. -/
def Runner.first (runner : Runner) (left : Bool) : ℕ :=
  match runner with
  | .leds | .openRgbDirect => if cfg.split && !left then lim.leftLeds else 0
  | .heatmap => 0

def Runner.last (runner : Runner) (left : Bool) : ℕ :=
  match runner with
  | .leds | .openRgbDirect => if cfg.split && left then lim.leftLeds else cfg.ledTotal
  | .heatmap => lim.rows * lim.cols

/-- A visit of what a frame is to visit -/
def Runner.Belongs (runner : Runner) (left : Bool) : Visit → Prop
  | .led i => runner ≠ .heatmap ∧ runner.first lim left ≤ i ∧ i < runner.last lim left
  | .cell row col => runner = .heatmap ∧ row < lim.rows ∧ col < lim.cols

instance (runner : Runner) (left : Bool) (visit : Visit) :
    Decidable (runner.Belongs lim left visit) :=
  match visit with
  | .led _ => inferInstanceAs (Decidable (_ ∧ _ ∧ _))
  | .cell _ _ => inferInstanceAs (Decidable (_ ∧ _ ∧ _))

variable {lim}

theorem limit_le (lim : Limits cfg) : lim.limit < 256 := by
  have total := lim.total_le
  have below := lim.limit_lt
  omega

/-- The start of a call is that of its slice. -/
theorem start_eq (lim : Limits cfg) (k : ℕ) :
    lim.limit * (BitVec.ofNat 8 k).toNat % 256 = sliceStart 256 lim.limit k := by
  rw [BitVec.toNat_ofNat, sliceStart, Nat.mul_mod, Nat.mod_mod, ← Nat.mul_mod]

/-- The bounds of a call are those of its slice, or empty where the end passes 8 bits. -/
structure BoundsOf (start limit first last : ℕ) (bounds : ℕ × ℕ) : Prop where
  fits : start + limit < 256 → bounds = (max first start, min last (start + limit))
  passes : 256 ≤ start + limit → bounds.2 ≤ bounds.1 ∧ bounds.2 < limit

theorem boundsOf_useLimits (left : Bool) (k : ℕ) :
    BoundsOf (sliceStart 256 lim.limit k) lim.limit (Runner.leds.first lim left)
      (Runner.leds.last lim left) (useLimits lim left (BitVec.ofNat 8 k)) := by
  have small := limit_le lim
  have leftLeds := lim.leftLeds_le
  have below : sliceStart 256 lim.limit k < 256 := Nat.mod_lt _ (by decide)
  simp only [useLimits, start_eq, Runner.first, Runner.last]
  generalize sliceStart 256 lim.limit k = start at below
  have wraps : (start + lim.limit) % 256 =
      if start + lim.limit < 256 then start + lim.limit else start + lim.limit - 256 := by
    split <;> omega
  rw [wraps]
  cases cfg.split with
  | false =>
    simp only [Bool.false_eq_true, Bool.false_and, if_false]
    refine ⟨fun fits => ?_, fun passes => ?_⟩
    · rw [if_pos fits, Prod.mk.injEq]
      split <;> omega
    · have gone : ¬ start + lim.limit < 256 := by omega
      simp only [if_neg gone]
      split <;> omega
  | true =>
    cases left with
    | true =>
      simp only [Bool.not_true, Bool.and_false, Bool.false_and, Bool.false_eq_true, Bool.true_and,
        decide_eq_true_eq, if_true, if_false]
      refine ⟨fun fits => ?_, fun passes => ?_⟩
      · rw [if_pos fits, Prod.mk.injEq]
        split_ifs <;> omega
      · have gone : ¬ start + lim.limit < 256 := by omega
        simp only [if_neg gone]
        split_ifs <;> omega
    | false =>
      simp only [Bool.not_false, Bool.and_true, Bool.false_and, Bool.false_eq_true, Bool.true_and,
        Bool.and_false, decide_eq_true_eq, if_true, if_false]
      refine ⟨fun fits => ?_, fun passes => ?_⟩
      · rw [if_pos fits, Prod.mk.injEq]
        split_ifs <;> omega
      · have gone : ¬ start + lim.limit < 256 := by omega
        simp only [if_neg gone]
        split_ifs <;> omega

theorem boundsOf_heatmapLimits (left : Bool) (k : ℕ) :
    BoundsOf (sliceStart 256 lim.limit k) lim.limit (Runner.heatmap.first lim left)
      (Runner.heatmap.last lim left) (heatmapLimits lim (BitVec.ofNat 8 k)) := by
  have small := limit_le lim
  have below : sliceStart 256 lim.limit k < 256 := Nat.mod_lt _ (by decide)
  simp only [heatmapLimits, start_eq, Runner.first, Runner.last]
  generalize sliceStart 256 lim.limit k = start at below
  have wraps : (start + lim.limit) % 256 =
      if start + lim.limit < 256 then start + lim.limit else start + lim.limit - 256 := by
    split <;> omega
  rw [wraps]
  refine ⟨fun fits => ?_, fun passes => ?_⟩
  · rw [if_pos fits, Prod.mk.injEq]
    split <;> omega
  · have gone : ¬ start + lim.limit < 256 := by omega
    simp only [if_neg gone]
    split <;> omega

theorem boundsOf (lim : Limits cfg) (runner : Runner) (left : Bool) (k : ℕ) :
    BoundsOf (sliceStart 256 lim.limit k) lim.limit (runner.first lim left)
      (runner.last lim left) (runner.bounds lim left (BitVec.ofNat 8 k)) := by
  cases runner with
  | leds => exact boundsOf_useLimits left k
  | openRgbDirect => exact boundsOf_useLimits left k
  | heatmap => exact boundsOf_heatmapLimits left k

/-- A call visits its slice of the half. -/
theorem call_eq (runner : Runner) (left : Bool) (k : ℕ) :
    runner.call lim left (BitVec.ofNat 8 k) =
      (slice 256 lim.limit (runner.first lim left) (runner.last lim left) k).map
        (runner.visit lim) := by
  obtain ⟨fits, passes⟩ := boundsOf lim runner left k
  unfold Runner.call slice
  by_cases room : sliceStart 256 lim.limit k + lim.limit < 256
  · rw [fits room, if_pos room]
  · obtain ⟨empty, -⟩ := passes (by omega)
    rw [if_neg room]
    dsimp only
    rw [Nat.sub_eq_zero_of_le empty]
    rfl

/-- The effect stops at the end of what it visits. Only `OPENRGB_DIRECT` does not look at the
half that it is on. -/
def Runner.Stops (lim : Limits cfg) (runner : Runner) (left : Bool) : Prop :=
  runner = .openRgbDirect → runner.last lim left = cfg.ledTotal

/-- The call with some `params->iter` is not the last one. -/
def Runner.goesOn (lim : Limits cfg) (runner : Runner) (left : Bool) (k : ℕ) : Bool :=
  runner.unfinished lim left (runner.bounds lim left (BitVec.ofNat 8 k)).2

theorem unfinished_iff {runner : Runner} {left : Bool} (stops : runner.Stops lim left) (max : ℕ) :
    runner.unfinished lim left max = true ↔ max < runner.last lim left := by
  cases runner with
  | leds =>
    simp only [Runner.unfinished, checkFinishedLeds, Runner.last]
    cases cfg.split <;> cases left <;> simp
  | openRgbDirect =>
    rw [stops rfl]
    exact decide_eq_true_iff
  | heatmap => exact decide_eq_true_iff

/-- An effect that stops goes on exactly until the end is reached. -/
theorem goesOn_iff {runner : Runner} {left : Bool} (stops : runner.Stops lim left) {k : ℕ}
    (long : lim.limit ≤ runner.last lim left ∨ sliceStart 256 lim.limit k + lim.limit < 256) :
    runner.goesOn lim left k = true ↔ ¬ SliceEnds 256 lim.limit (runner.last lim left) k := by
  obtain ⟨fits, passes⟩ := boundsOf lim runner left k
  rw [Runner.goesOn, unfinished_iff stops, SliceEnds]
  by_cases room : sliceStart 256 lim.limit k + lim.limit < 256
  · rw [fits room]
    dsimp only
    omega
  · obtain ⟨-, short⟩ := passes (by omega)
    omega

/-- An effect that does not stop goes on for ever. -/
theorem goesOn_of_not_stops {runner : Runner} {left : Bool} (endless : ¬ runner.Stops lim left)
    (k : ℕ) : runner.goesOn lim left k = true := by
  obtain ⟨direct, differs⟩ := Classical.not_imp.mp endless
  subst direct
  obtain ⟨fits, passes⟩ := boundsOf lim .openRgbDirect left k
  have leftLeds := lim.leftLeds_le
  have limit := lim.limit_lt
  have short : Runner.openRgbDirect.last lim left < cfg.ledTotal := by
    simp only [Runner.last] at differs ⊢
    split at differs
    · rename_i half
      rw [if_pos half]
      omega
    · exact absurd rfl differs
  refine decide_eq_true ?_
  by_cases room : sliceStart 256 lim.limit k + lim.limit < 256
  · rw [fits room]
    dsimp only
    omega
  · obtain ⟨-, below⟩ := passes (by omega)
    omega

/-- The last call is that of the slice that reaches the end. -/
theorem last_call_iff {runner : Runner} {left : Bool} (stops : runner.Stops lim left) (k : ℕ) :
    (runner.goesOn lim left k = false ∧ ∀ j < k, runner.goesOn lim left j = true) ↔
      SliceEnds 256 lim.limit (runner.last lim left) k ∧
        ∀ j < k, ¬ SliceEnds 256 lim.limit (runner.last lim left) j := by
  by_cases long : lim.limit ≤ runner.last lim left
  · have same (j : ℕ) := goesOn_iff stops (k := j) (.inl long)
    simp only [same, Bool.eq_false_iff, Ne, not_not]
  · -- the first slice reaches the end
    have small := limit_le lim
    have first := goesOn_iff stops (k := 0) (.inr (by rw [sliceStart_zero]; omega))
    have ends : SliceEnds 256 lim.limit (runner.last lim left) 0 := by
      rw [SliceEnds, sliceStart_zero]
      omega
    have done : runner.goesOn lim left 0 = false := by
      rw [Bool.eq_false_iff]
      exact fun goesOn => first.mp goesOn ends
    constructor
    · rintro ⟨-, earlier⟩
      cases k with
      | zero => exact ⟨ends, fun j below => absurd below (Nat.not_lt_zero j)⟩
      | succ k =>
        have goesOn := earlier 0 (Nat.succ_pos k)
        rw [done] at goesOn
        cases goesOn
    · rintro ⟨-, earlier⟩
      cases k with
      | zero => exact ⟨done, fun j below => absurd below (Nat.not_lt_zero j)⟩
      | succ k => exact absurd ends (earlier 0 (Nat.succ_pos k))

end Range

section Counting

variable {lim}

theorem visit_injective (runner : Runner) : Function.Injective (runner.visit lim) := by
  have rows := lim.rows_pos
  intro i j same
  cases runner with
  | leds => exact Visit.led.inj same
  | openRgbDirect => exact Visit.led.inj same
  | heatmap =>
    obtain ⟨row, col⟩ := Visit.cell.inj same
    rw [← Nat.div_add_mod i lim.rows, ← Nat.div_add_mod j lim.rows, row, col]

/-- The visits of the indexes of the half are those that belong to it. -/
theorem belongs_visit (runner : Runner) (left : Bool) (i : ℕ) :
    runner.Belongs lim left (runner.visit lim i) ↔
      runner.first lim left ≤ i ∧ i < runner.last lim left := by
  have rows := lim.rows_pos
  cases runner with
  | leds => simp [Runner.Belongs, Runner.visit]
  | openRgbDirect => simp [Runner.Belongs, Runner.visit]
  | heatmap =>
    have row := Nat.mod_lt i rows
    simp only [Runner.Belongs, Runner.visit, Runner.first, Runner.last, true_and, zero_le, row,
      Nat.div_lt_iff_lt_mul rows, Nat.mul_comm]

/-- What belongs to the half is the visit of some index. -/
theorem visit_of_belongs {runner : Runner} {left : Bool} {visit : Visit}
    (belongs : runner.Belongs lim left visit) : ∃ i, runner.visit lim i = visit := by
  cases visit with
  | led i =>
    cases runner with
    | leds => exact ⟨i, rfl⟩
    | openRgbDirect => exact ⟨i, rfl⟩
    | heatmap => exact absurd rfl belongs.1
  | cell row col =>
    obtain ⟨rfl, below, -⟩ := belongs
    refine ⟨row + lim.rows * col, ?_⟩
    simp only [Runner.visit, Nat.add_mul_mod_self_left, Nat.mod_eq_of_lt below,
      Nat.add_mul_div_left _ _ lim.rows_pos, Nat.div_eq_of_lt below, Nat.zero_add]

/-- What the first calls visit. -/
def Runner.calls (lim : Limits cfg) (runner : Runner) (left : Bool) (n : ℕ) : List Visit :=
  (List.range n).flatMap fun k => runner.call lim left (BitVec.ofNat 8 k)

theorem calls_eq (runner : Runner) (left : Bool) (n : ℕ) :
    runner.calls lim left n =
      (slices 256 lim.limit (runner.first lim left) (runner.last lim left) n).map
        (runner.visit lim) := by
  simp only [Runner.calls, slices, call_eq, List.map_flatMap]

/-- Everything that belongs to the half is visited once exactly if every index of it is. -/
theorem count_calls_iff (runner : Runner) (left : Bool) (n : ℕ) :
    (∀ visit, (runner.calls lim left n).count visit =
      if runner.Belongs lim left visit then 1 else 0) ↔
    ∀ i, (slices 256 lim.limit (runner.first lim left) (runner.last lim left) n).count i =
      if runner.first lim left ≤ i ∧ i < runner.last lim left then 1 else 0 := by
  rw [calls_eq]
  constructor
  · intro once i
    have here := once (runner.visit lim i)
    rw [List.count_map_of_injective _ _ (visit_injective runner)] at here
    simpa only [belongs_visit] using here
  · intro once visit
    by_cases some : ∃ i, runner.visit lim i = visit
    · obtain ⟨i, rfl⟩ := some
      rw [List.count_map_of_injective _ _ (visit_injective runner), once i]
      simp only [belongs_visit]
    · rw [if_neg fun belongs => some (visit_of_belongs belongs), List.count_eq_zero]
      intro member
      obtain ⟨i, -, same⟩ := List.mem_map.mp member
      exact some ⟨i, same⟩

end Counting

section Frame

variable {lim} {runner : Runner} {left : Bool}
  {paint : EffectParams → Visit → Colors cfg → Colors cfg}
  {indicators : EffectParams → Colors cfg → Colors cfg}

/-- Some calls of `rgb_matrix_task` -/
def tasks (reads : ℕ → Reads) (n : ℕ) : List Event :=
  (List.range n).map fun i => .task (reads i)

/-- The state behind some calls of `rgb_matrix_task` -/
def afterTasks {Scratch : Type*} (fx : Effects cfg Scratch) (state : State cfg Scratch)
    (reads : ℕ → Reads) (n : ℕ) : State cfg Scratch :=
  run (step fx) state (tasks reads n)

theorem afterTasks_succ {Scratch : Type*} (fx : Effects cfg Scratch) (state : State cfg Scratch)
    (reads : ℕ → Reads) (n : ℕ) :
    afterTasks fx state reads (n + 1) =
      rgbMatrixTask fx (afterTasks fx state reads n) (reads n) := by
  simp [afterTasks, tasks, List.range_succ, run_append, step]

/-- A frame is about to start, and its effect stays on. -/
structure FrameStarts {Scratch : Type*} (fx : Effects cfg Scratch) (state : State cfg Scratch)
    (reads : ℕ → Reads) : Prop where
  starting : state.taskState = .starting
  lit : ∀ n, (rgbTaskTimers (afterTasks fx state reads n) (reads n)).effect ≠ 0
  known : ∀ n, (rgbTaskTimers (afterTasks fx state reads n) (reads n)).effect.toNat < cfg.effectMax

/-- After some calls of `rgb_matrix_task` the frame comes to `FLUSHING` for the first time, and
everything that belongs to the half has been visited once, and nothing else. -/
def FrameCompletes (lim : Limits cfg) (runner : Runner) (left : Bool)
    (fx : Effects cfg (List Visit)) (state : State cfg (List Visit)) (reads : ℕ → Reads) : Prop :=
  ∃ n, (afterTasks fx state reads n).taskState = .flushing ∧
    (∀ m < n, (afterTasks fx state reads m).taskState ≠ .flushing) ∧
    ∀ visit, (afterTasks fx state reads n).scratch.count visit =
      if runner.Belongs lim left visit then 1 else 0

theorem effect_ne_test {Scratch : Type*} (state : State cfg Scratch) : state.effect ≠ 255 := by
  have mode := state.mode.isLt
  intro test
  have value := congrArg BitVec.toNat test
  unfold State.effect at value
  split at value
  · cases value
  · rw [BitVec.toNat_setWidth_of_le (by decide)] at value
    have number : (255 : Byte).toNat = 255 := rfl
    omega

/-- What a call of `rgb_matrix_task` does in the middle of a frame. -/
theorem render_call {state : State cfg (List Visit)} {reads : Reads} {k : ℕ}
    (rendering : state.taskState = .rendering)
    (iter : state.effectParams.iter = BitVec.ofNat 8 k)
    (lit : (rgbTaskTimers state reads).effect ≠ 0)
    (known : (rgbTaskTimers state reads).effect.toNat < cfg.effectMax) :
    (rgbMatrixTask (runnerEffects lim runner left paint indicators) state reads).taskState =
        (if runner.goesOn lim left k then .rendering else .flushing) ∧
      (rgbMatrixTask (runnerEffects lim runner left paint indicators) state reads).effectParams.iter =
        BitVec.ofNat 8 (k + 1) ∧
      (rgbMatrixTask (runnerEffects lim runner left paint indicators) state reads).scratch =
        state.scratch ++ runner.call lim left (BitVec.ofNat 8 k) := by
  have phase : (rgbTaskTimers state reads).taskState = .rendering := rendering
  have test := effect_ne_test (rgbTaskTimers state reads)
  have counter : (rgbTaskTimers state reads).effectParams.iter = BitVec.ofNat 8 k := iter
  have scratch : (rgbTaskTimers state reads).scratch = state.scratch := rfl
  unfold rgbMatrixTask
  generalize rgbTaskTimers state reads = timed at phase test counter lit known scratch
  have next : BitVec.ofNat 8 k + 1 = BitVec.ofNat 8 (k + 1) := (BitVec.ofNat_add k 1).symm
  simp only [runPhase, phase, if_neg lit, indicate, rgbTaskRender, if_neg test, runEffect,
    if_pos known, runnerEffects, State.prepared, counter, scratch, next, lit, decide_false,
    Bool.and_false, Bool.false_eq_true, if_false, Runner.goesOn, and_self, and_true]
  rfl

variable {state : State cfg (List Visit)} {reads : ℕ → Reads}

/-- As long as the effect goes on, it is called once by each task behind the first. -/
theorem frame_run (starts : FrameStarts (runnerEffects lim runner left paint indicators) state reads)
    (fresh : state.scratch = []) {k : ℕ} (goesOn : ∀ j < k, runner.goesOn lim left j = true) :
    (afterTasks (runnerEffects lim runner left paint indicators) state reads (k + 1)).taskState =
        .rendering ∧
      (afterTasks (runnerEffects lim runner left paint indicators) state reads
        (k + 1)).effectParams.iter = BitVec.ofNat 8 k ∧
      (afterTasks (runnerEffects lim runner left paint indicators) state reads (k + 1)).scratch =
        runner.calls lim left k := by
  induction k with
  | zero =>
    have phase : (rgbTaskTimers state (reads 0)).taskState = .starting := starts.starting
    have first : afterTasks (runnerEffects lim runner left paint indicators) state reads 1 =
        rgbTaskStart (rgbTaskTimers state (reads 0)) := by
      rw [afterTasks_succ]
      simp only [rgbMatrixTask, afterTasks, tasks, List.range_zero, List.map_nil, run_nil, runPhase,
        phase]
    rw [first]
    exact ⟨rfl, rfl, fresh⟩
  | succ k ih =>
    obtain ⟨rendering, iter, visits⟩ := ih fun j below => goesOn j (by omega)
    obtain ⟨phase, next, more⟩ :=
      render_call rendering iter (starts.lit (k + 1)) (starts.known (k + 1))
    rw [afterTasks_succ]
    refine ⟨?_, next, ?_⟩
    · rw [phase, if_pos (goesOn k (by omega))]
    · rw [more, visits]
      simp [Runner.calls, List.range_succ]

/-- A frame completes with the last call of its effect. -/
theorem frameCompletes_iff_calls
    (starts : FrameStarts (runnerEffects lim runner left paint indicators) state reads)
    (fresh : state.scratch = []) :
    FrameCompletes lim runner left (runnerEffects lim runner left paint indicators) state reads ↔
      ∃ k, (runner.goesOn lim left k = false ∧ ∀ j < k, runner.goesOn lim left j = true) ∧
        ∀ visit, (runner.calls lim left (k + 1)).count visit =
          if runner.Belongs lim left visit then 1 else 0 := by
  have waits {k : ℕ} (goesOn : ∀ j < k, runner.goesOn lim left j = true) (m : ℕ) (below : m < k + 2) :
      (afterTasks (runnerEffects lim runner left paint indicators) state reads m).taskState ≠
        .flushing := by
    cases m with
    | zero =>
      rw [show (afterTasks (runnerEffects lim runner left paint indicators) state reads 0).taskState =
        .starting from starts.starting]
      decide
    | succ m =>
      rw [(frame_run starts fresh fun j earlier => goesOn j (by omega)).1]
      decide
  have ends {k : ℕ} (last : runner.goesOn lim left k = false)
      (goesOn : ∀ j < k, runner.goesOn lim left j = true) :
      (afterTasks (runnerEffects lim runner left paint indicators) state reads (k + 2)).taskState =
          .flushing ∧
        (afterTasks (runnerEffects lim runner left paint indicators) state reads (k + 2)).scratch =
          runner.calls lim left (k + 1) := by
    obtain ⟨rendering, iter, visits⟩ := frame_run starts fresh goesOn
    obtain ⟨phase, -, more⟩ :=
      render_call rendering iter (starts.lit (k + 1)) (starts.known (k + 1))
    rw [afterTasks_succ]
    refine ⟨?_, ?_⟩
    · rw [phase, last]
      rfl
    · rw [more, visits]
      simp [Runner.calls, List.range_succ]
  constructor
  · rintro ⟨n, flushing, earlier, once⟩
    have stops : ∃ k, runner.goesOn lim left k = false := by
      by_contra endless
      push Not at endless
      exact waits (fun j (_ : j < n) => eq_true_of_ne_false (endless j)) n (by omega) flushing
    obtain ⟨k, last, goesOn⟩ : ∃ k, runner.goesOn lim left k = false ∧
        ∀ j < k, runner.goesOn lim left j = true :=
      ⟨Nat.find stops, Nat.find_spec stops,
        fun j below => eq_true_of_ne_false (Nat.find_min stops below)⟩
    obtain ⟨arrives, visits⟩ := ends last goesOn
    have exactly : n = k + 2 := by
      by_contra other
      rcases Nat.lt_or_gt_of_ne other with before | behind
      · exact waits goesOn n before flushing
      · exact earlier (k + 2) behind arrives
    subst exactly
    exact ⟨k, ⟨last, goesOn⟩, by rwa [visits] at once⟩
  · rintro ⟨k, ⟨last, goesOn⟩, once⟩
    obtain ⟨flushing, visits⟩ := ends last goesOn
    exact ⟨k + 2, flushing, waits goesOn, by rwa [visits]⟩

/-- The tasks leave the settings alone. -/
theorem settings_afterTasks {Scratch : Type*} (fx : Effects cfg Scratch) (state : State cfg Scratch)
    (reads : ℕ → Reads) (n : ℕ) :
    (afterTasks fx state reads n).toSettings = state.toSettings := by
  induction n with
  | zero => rfl
  | succ n ih =>
    rw [afterTasks_succ, ← ih]
    exact (sameInput_runPhase fx (rgbTaskTimers (afterTasks fx state reads n) (reads n))
      (reads n)).settings

/-- Without a timeout the effect of the settings stays on. -/
theorem frameStarts_of_settings {Scratch : Type*} (fx : Effects cfg Scratch)
    {state : State cfg Scratch} (reads : ℕ → Reads) (starting : state.taskState = .starting)
    (untimed : cfg.disableTimeout = 0) (enabled : state.enable ≠ 0) (mode : state.mode ≠ 0)
    (known : state.mode.toNat < cfg.effectMax) : FrameStarts fx state reads := by
  have effect (n : ℕ) : (rgbTaskTimers (afterTasks fx state reads n) (reads n)).effect =
      state.mode.setWidth 8 := by
    have same : (rgbTaskTimers (afterTasks fx state reads n) (reads n)).toSettings =
        state.toSettings := settings_afterTasks fx state reads n
    have noTimeout : ¬ 0 < cfg.disableTimeout := by
      rw [untimed]
      decide
    unfold State.effect
    rw [same, if_neg (by tauto)]
  have value : (state.mode.setWidth 8).toNat = state.mode.toNat :=
    BitVec.toNat_setWidth_of_le (by decide)
  refine ⟨starting, fun n => ?_, fun n => ?_⟩
  · rw [effect]
    intro none
    refine mode (BitVec.eq_of_toNat_eq ?_)
    rw [← value, none]
    rfl
  · rw [effect, value]
    exact known

end Frame

/-- A frame completes exactly where its effect looks at the half that it is on and its slices
fit what it visits. -/
theorem frameCompletes_iff {lim : Limits cfg} {runner : Runner} {left : Bool}
    {paint : EffectParams → Visit → Colors cfg → Colors cfg}
    {indicators : EffectParams → Colors cfg → Colors cfg} {state : State cfg (List Visit)}
    {reads : ℕ → Reads}
    (starts : FrameStarts (runnerEffects lim runner left paint indicators) state reads)
    (fresh : state.scratch = []) :
    FrameCompletes lim runner left (runnerEffects lim runner left paint indicators) state reads ↔
      runner.Stops lim left ∧
        SlicesFit 256 lim.limit (runner.first lim left) (runner.last lim left) := by
  rw [frameCompletes_iff_calls starts fresh, ← visitsOnce_iff (limit_le lim)]
  constructor
  · rintro ⟨k, last, once⟩
    have stops : runner.Stops lim left := by
      by_contra endless
      have goesOn := goesOn_of_not_stops endless k
      rw [last.1] at goesOn
      cases goesOn
    obtain ⟨ends, goesOn⟩ := (last_call_iff stops k).mp last
    exact ⟨stops, k, ends, goesOn, (count_calls_iff runner left (k + 1)).mp once⟩
  · rintro ⟨stops, k, ends, goesOn, once⟩
    exact ⟨k, (last_call_iff stops k).mpr ⟨ends, goesOn⟩,
      (count_calls_iff runner left (k + 1)).mpr once⟩

/-- Where a frame starts with the first index, its slices fit exactly if the last of them ends
below 256. -/
theorem slicesFit_whole_iff {limit last : ℕ} (positive : 0 < limit) (small : limit < 256)
    (some : 0 < last) :
    SlicesFit 256 limit 0 last ↔ limit * ((last + limit - 1) / limit) < 256 := by
  have whole := Nat.div_add_mod (last + limit - 1) limit
  have rest := Nat.mod_lt (last + limit - 1) positive
  generalize (last + limit - 1) / limit = calls at whole
  constructor
  · rintro ⟨k, ⟨reaches, fits⟩, harmless⟩
    have start {j : ℕ} (within : j ≤ k) : sliceStart 256 limit j = limit * j := by
      induction j with
      | zero => exact sliceStart_zero
      | succ j ih =>
        have before := ih (by omega)
        have passes := harmless j (by omega)
        rw [sliceStart_succ small, if_pos (by omega), before, Nat.mul_succ]
    rw [start le_rfl] at reaches fits
    by_contra long
    have few : calls ≤ k + 1 := by
      by_contra more
      have longer : limit * (k + 2) ≤ limit * calls := Nat.mul_le_mul_left limit (by omega)
      rw [Nat.mul_add] at longer
      omega
    have shorter := Nat.mul_le_mul_left limit few
    rw [Nat.mul_succ] at shorter
    omega
  · intro below
    have one : 0 < calls := by
      by_contra none
      rw [Nat.eq_zero_of_not_pos none, Nat.mul_zero] at whole
      omega
    have start {j : ℕ} (within : j < calls) :
        sliceStart 256 limit j = limit * j ∧ limit * j + limit < 256 := by
      have grows : limit * (j + 1) ≤ limit * calls := Nat.mul_le_mul_left limit within
      rw [Nat.mul_succ] at grows
      exact ⟨Nat.mod_eq_of_lt (by omega), by omega⟩
    obtain ⟨begins, ends⟩ := start (show calls - 1 < calls by omega)
    have last_call : limit * (calls - 1) + limit = limit * calls := by
      rw [← Nat.mul_succ, Nat.succ_eq_add_one, Nat.sub_add_cancel one]
    refine ⟨calls - 1, ⟨by omega, by omega⟩, fun j earlier passes => ?_⟩
    have fits := start (show j < calls by omega)
    omega

/-- A keyboard with 200 LEDs -/
def strip : Config where
  ledTotal := 200
  disableTimeout := 0
  effectMax := 2
  startupMode := 1
  reactive := none
  matrixCo := fun _ column => BitVec.ofNat 8 column
  point := fun led => (led, 0)

/-- Its LEDs in slices of some length -/
def stripLimits (limit : ℕ) (positive : 0 < limit) (below : limit < 200) : Limits strip where
  limit := limit
  leftLeds := 100
  rows := 10
  cols := 20
  total_le := by decide
  limit_pos := positive
  limit_lt := below
  leftLeds_le := by decide
  rows_pos := by decide
  keys_le := by decide

/-- The state of the keyboard when a frame is due -/
def stripStart : State strip (List Visit) :=
  { rgbMatrixInit strip none [] (fun _ => .off) (fun _ => .off) with taskState := .starting }

/-- Its effects, which leave what they visit as it is -/
def stripEffects (lim : Limits strip) : Effects strip (List Visit) :=
  runnerEffects lim .leds true (fun _ _ colors => colors) fun _ colors => colors

theorem strip_starts (lim : Limits strip) (reads : ℕ → Reads) :
    FrameStarts (stripEffects lim) stripStart reads :=
  frameStarts_of_settings _ reads rfl rfl (by decide) (by decide) (by decide)

/-- Slices of 50 LEDs fit the keyboard. -/
theorem fifty_complete :
    FrameCompletes (stripLimits 50 (by decide) (by decide)) .leds true
      (stripEffects (stripLimits 50 (by decide) (by decide))) stripStart fun _ => ⟨0, 0, 0⟩ := by
  have fits : SlicesFit 256 50 0 200 := ⟨3, by decide, by decide⟩
  exact (frameCompletes_iff (strip_starts _ _) rfl).mpr ⟨fun direct => (nomatch direct), fits⟩

/-- Slices of 128 LEDs do not: the second one would end at 256, and the frame starts over
without an end. -/
theorem slice_wrap_breaks :
    ¬ FrameCompletes (stripLimits 128 (by decide) (by decide)) .leds true
      (stripEffects (stripLimits 128 (by decide) (by decide))) stripStart fun _ => ⟨0, 0, 0⟩ := by
  intro completes
  have starts := strip_starts (stripLimits 128 (by decide) (by decide)) fun _ => ⟨0, 0, 0⟩
  obtain ⟨k, last, -⟩ := (frameCompletes_iff_calls starts rfl).mp completes
  have stops : Runner.leds.Stops (stripLimits 128 (by decide) (by decide)) true :=
    fun direct => nomatch direct
  obtain ⟨⟨reaches, fits⟩, -⟩ := (last_call_iff stops k).mp last
  have start : sliceStart 256 128 k = 128 * k % 256 := rfl
  have total : 200 ≤ sliceStart 256 128 k + 128 := reaches
  have room : sliceStart 256 128 k + 128 < 256 := fits
  omega

end QmkSonix.RgbMatrix
