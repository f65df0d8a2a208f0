import Mathlib
import QmkSonix.Lib.Run

/-! The estimate of the typing speed of `wpm.c`: a ring of sample periods that counts key
presses, and a filter that moves from one sampled value to the next. -/

namespace QmkSonix.Wpm

abbrev Byte := BitVec 8

/-- The keycode that `wpm_keycode_user` and `wpm_regress_count` look at. -/
def basicKeycode (keycode : BitVec 16) : BitVec 16 :=
  if (0x6000 ≤ keycode ∧ keycode ≤ 0x7FFF) ∨ (0x4000 ≤ keycode ∧ keycode ≤ 0x4FFF) ∨
      (0x0100 ≤ keycode ∧ keycode ≤ 0x1FFF) then
    keycode &&& 0xFF
  else if 0xFF < keycode then 0 else keycode

/-- `wpm_keycode_user` -/
def wpmKeycodeUser (keycode : BitVec 16) : Bool :=
  (0x04 ≤ basicKeycode keycode ∧ basicKeycode keycode ≤ 0x27) ∨
    (0x2B ≤ basicKeycode keycode ∧ basicKeycode keycode ≤ 0x38)

/-- `wpm_regress_count`, with `get_mods() | get_oneshot_mods()` -/
def wpmRegressCount (wordSize : ℕ) (keycode : BitVec 16) (mods : Byte) : Byte :=
  let weakModded : Bool :=
    (0x0100 ≤ keycode ∧ keycode < 0x0200) ∨ (0x1100 ≤ keycode ∧ keycode < 0x1200)
  if basicKeycode keycode = 0x4C ∨ basicKeycode keycode = 0x2A then
    if mods &&& 0x11 ≠ 0 ∨ weakModded then BitVec.ofNat 8 wordSize else 1
  else 0

/-- The build options of `wpm.h`, and the weak functions a keymap may replace. -/
structure Config where
  /-- `WPM_UNFILTERED` is not defined. -/
  filtered : Bool := true
  launchControl : Bool := false
  allowCountRegression : Bool := false
  estimatedWordSize : ℕ := 5
  sampleSeconds : ℕ := 5
  samplePeriods : ℕ+ := 50
  wpmKeycode : BitVec 16 → Bool := wpmKeycodeUser
  wpmRegressCount : BitVec 16 → Byte → Byte := Wpm.wpmRegressCount estimatedWordSize

/-- `PERIOD_DURATION` -/
def Config.periodDuration (cfg : Config) : ℕ := 1000 * cfg.sampleSeconds / cfg.samplePeriods

/-- `LATENCY` -/
def latencyLimit : Int := 100

/-- The statics of `wpm.c`. -/
structure State (cfg : Config) where
  currentWpm : Byte := 0
  wpmTimer : BitVec 32 := 0
  smoothingTimer : BitVec 32 := 0
  periodPresses : Vector Byte cfg.samplePeriods := Vector.replicate cfg.samplePeriods 0
  currentPeriod : Byte := 0
  periods : Byte := 1
  prevWpm : Byte := 0
  nextWpm : Byte := 0
  deriving DecidableEq

/-- What a call must not do. -/
inductive Fault where
  | indexOutOfBounds
  | divisionByZero
  deriving DecidableEq, Repr

/-- The timer as a call of `decay_wpm` reads it: for the period and for a new period, for
the filter and for its restart. -/
structure Clock where
  period : BitVec 32
  nextPeriod : BitVec 32
  smoothing : BitVec 32
  restart : BitVec 32
  deriving DecidableEq

section Functions

variable {cfg : Config} (s : State cfg)

/-- `period_presses[i]` -/
def pressesIn (i : ℕ) : Except Fault Int :=
  match s.periodPresses[i]? with
  | some presses => .ok presses.toInt
  | none => .error .indexOutOfBounds

/-- `period_presses[current_period]` changes by one. -/
def addPresses (change : Byte) : Except Fault (State cfg) :=
  if inside : s.currentPeriod.toNat < cfg.samplePeriods then
    let presses := s.periodPresses[s.currentPeriod.toNat]
    .ok { s with periodPresses := s.periodPresses.set s.currentPeriod.toNat (presses + change) }
  else .error .indexOutOfBounds

/-- `update_wpm` -/
def updateWpm (keycode : BitVec 16) (mods : Byte) : Except Fault (State cfg) := do
  let s ← if cfg.wpmKeycode keycode then addPresses s 1 else pure s
  if cfg.allowCountRegression && cfg.wpmRegressCount keycode mods != 0 then addPresses s (-1)
  else pure s

/-- The first loop of `decay_wpm`. -/
def countPresses : Except Fault Int := do
  let first ← pressesIn s 0
  (List.range' 1 s.periods.toNat).foldlM
    (fun presses i => do return presses + (← pressesIn s i)) first

/-- `duration * WPM_ESTIMATED_WORD_SIZE` -/
def divisor (clock : Clock) : BitVec 32 :=
  let elapsed := (clock.period - s.wpmTimer).toInt
  let duration := BitVec.ofInt 32 (s.periods.toNat * cfg.periodDuration + elapsed)
  duration * BitVec.ofNat 32 cfg.estimatedWordSize

/-- `wpm_now`, with the guess from a single press left out -/
def wpmNow (presses : Int) (divisor : BitVec 32) : BitVec 32 :=
  let wpmNow := BitVec.ofInt 32 (60000 * presses) / divisor
  let wpmNow := if 240 < wpmNow then 240 else wpmNow
  if presses < 2 then 0 else wpmNow

/-- A period that is over is followed by an empty one. -/
def endPeriod (clock : Clock) : State cfg :=
  if (cfg.periodDuration : Int) < (clock.period - s.wpmTimer).toInt then
    let next := (s.currentPeriod.toNat + 1) % cfg.samplePeriods
    { s with
      currentPeriod := BitVec.ofNat 8 next
      periodPresses := s.periodPresses.set (next % 256) 0
        (Nat.lt_of_le_of_lt (Nat.mod_le _ _) (Nat.mod_lt _ cfg.samplePeriods.pos))
      periods :=
        if s.periods.toNat < (cfg.samplePeriods : ℕ) - 1 then s.periods + 1
        else BitVec.ofNat 8 ((cfg.samplePeriods : ℕ) - 1)
      wpmTimer := clock.nextPeriod }
  else s

/-- `WPM_LAUNCH_CONTROL` -/
def launch (presses : Int) : State cfg :=
  if cfg.launchControl ∧ presses = 0 then { s with currentPeriod := 0, periods := 0 } else s

/-- The value between two samples after some milliseconds. -/
def interpolate (prev next : Byte) (latency : Int) : Byte :=
  let product := BitVec.ofInt 32 (latency * ((next.toNat : Int) - prev.toNat))
  BitVec.ofInt 8 (prev.toNat + product.toInt.tdiv latencyLimit)

/-- The new samples of the filter, once it has moved for long enough. -/
def resample (wpmNow : BitVec 32) (clock : Clock) : State cfg :=
  if latencyLimit < (clock.smoothing - s.smoothingTimer).toInt then
    { s with
      smoothingTimer := clock.restart
      prevWpm := s.currentWpm
      nextWpm := wpmNow.setWidth 8 }
  else s

/-- The last part of `decay_wpm`. -/
def smooth (wpmNow : BitVec 32) (clock : Clock) : State cfg :=
  if cfg.filtered then
    let latency := (clock.smoothing - s.smoothingTimer).toInt
    let s := resample s wpmNow clock
    { s with currentWpm := interpolate s.prevWpm s.nextWpm latency }
  else { s with currentWpm := wpmNow.setWidth 8 }

/-- `decay_wpm` -/
def decayWpm (clock : Clock) : Except Fault (State cfg) := do
  let presses := max (← countPresses s) 0
  if divisor s clock = 0 then throw .divisionByZero
  let ended := launch (endPeriod s clock) presses
  return smooth ended (wpmNow presses (divisor s clock)) clock

end Functions

/-- A call of `update_wpm`, with the modifiers at the time, or of `decay_wpm`. -/
inductive Event where
  | update (keycode : BitVec 16) (mods : Byte)
  | decay (clock : Clock)
  deriving DecidableEq

/-- The state behind a call, where no call has failed before. -/
def step {cfg : Config} (result : Except Fault (State cfg)) (event : Event) :
    Except Fault (State cfg) := do
  let s ← result
  match event with
  | .update keycode mods => updateWpm s keycode mods
  | .decay clock => decayWpm s clock

/-- The readings of the timer of a call, in order. -/
def Event.times : Event → List (BitVec 32)
  | .update _ _ => []
  | .decay clock => [clock.period, clock.nextPeriod, clock.smoothing, clock.restart]

end QmkSonix.Wpm
