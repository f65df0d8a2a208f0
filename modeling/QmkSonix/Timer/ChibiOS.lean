import QmkSonix.Lib.Run
import QmkSonix.Lib.Wrap

/-! The millisecond clock of `platforms/chibios/timer.c`, over a system tick
counter of 16 or 32 bits. -/

namespace QmkSonix.Timer

open QmkSonix.Lib

/-- What the clock takes from ChibiOS and its configuration. -/
structure ChibiOS where
  /-- `CH_CFG_ST_FREQUENCY` -/
  frequency : ℕ
  /-- `CH_CFG_ST_RESOLUTION` -/
  resolution : ℕ
  /-- `TIME_I2MS` -/
  timeI2ms : BitVec 32 → ℕ
  fast : 1000 ≤ frequency
  resolutions : resolution = 16 ∨ resolution = 32
  roundsUp : ∀ interval, timeI2ms interval = 1000 * interval.toNat ⌈/⌉ frequency

/-- The statics of `timer.c`. With 32 bits only the first exists. -/
structure Timer where
  resetPoint : BitVec 32 := 0
  lastSystime : BitVec 32 := 0
  overflow : BitVec 32 := 0
  deriving DecidableEq

/-- `TIMER_DIFF_32` -/
def timerDiff32 (a b : BitVec 32) : BitVec 32 := a - b

namespace ChibiOS

variable (os : ChibiOS)

/-- `(uint32_t)chVTGetSystemTime()`, once the system has counted `counter` ticks. -/
def systemTime (counter : ℕ) : BitVec 32 := BitVec.ofNat 32 (counter % 2 ^ os.resolution)

/-- `timer_clear` -/
def timerClear (timer : Timer) (systime : BitVec 32) : Timer :=
  if os.resolution < 32 then { resetPoint := systime, lastSystime := systime, overflow := 0 }
  else { timer with resetPoint := systime }

/-- `timer_read32` -/
def timerRead32 (timer : Timer) (systime : BitVec 32) : BitVec 32 × Timer :=
  if os.resolution < 32 then
    let overflow :=
      if systime < timer.lastSystime then timer.overflow + 1#32 <<< os.resolution
      else timer.overflow
    (BitVec.ofNat 32 (os.timeI2ms (systime - timer.resetPoint + overflow)),
      { timer with lastSystime := systime, overflow := overflow })
  else (BitVec.ofNat 32 (os.timeI2ms (systime - timer.resetPoint)), timer)

/-- `timer_elapsed32` -/
def timerElapsed32 (timer : Timer) (systime last : BitVec 32) : BitVec 32 × Timer :=
  let now := os.timerRead32 timer systime
  (timerDiff32 now.1 last, now.2)

/-- The milliseconds in a number of ticks, rounded up. -/
def millis (ticks : ℕ) : ℕ := 1000 * ticks ⌈/⌉ os.frequency

end ChibiOS

/-- A moment at which the clock is read: the ticks since `timer_clear`, the
statics it meets and the counter it sees. -/
structure Moment where
  ticks : ℕ
  timer : Timer
  systime : BitVec 32
  deriving DecidableEq

namespace Moment

variable (os : ChibiOS) (moment : Moment)

/-- What `timer_read32` returns there. -/
def read32 : BitVec 32 := (os.timerRead32 moment.timer moment.systime).1

/-- What `timer_elapsed32` returns there. -/
def elapsed32 (last : BitVec 32) : BitVec 32 :=
  (os.timerElapsed32 moment.timer moment.systime last).1

end Moment

/-- A clock since its last `timer_clear`: the true ticks, the statics, and the
moments at which it was read. -/
structure Clock where
  ticks : ℕ
  timer : Timer
  moments : List Moment

namespace ChibiOS

variable (os : ChibiOS)

/-- `timer_clear` when the system has counted `start` ticks. -/
def cleared (timer : Timer) (start : ℕ) : Clock :=
  { ticks := 0, timer := os.timerClear timer (os.systemTime start), moments := [] }

/-- A call of `timer_read32` or `timer_elapsed32`, some ticks after the last. -/
def readAfter (start : ℕ) (clock : Clock) (gap : ℕ) : Clock :=
  let ticks := clock.ticks + gap
  let systime := os.systemTime (start + ticks)
  { ticks := ticks
    timer := (os.timerRead32 clock.timer systime).2
    moments := clock.moments ++ [{ ticks := ticks, timer := clock.timer, systime := systime }] }

/-- Every reading is the true milliseconds modulo 2^32, and the time elapsed
between two readings less than 2^32 ms apart is right up to rounding. -/
def Right (moments : List Moment) : Prop :=
  (∀ moment ∈ moments, moment.read32 os = BitVec.ofNat 32 (os.millis moment.ticks)) ∧
    moments.Pairwise fun earlier later =>
      os.millis later.ticks - os.millis earlier.ticks < 2 ^ 32 →
        let elapsed := (later.elapsed32 os (earlier.read32 os)).toNat
        elapsed = os.millis later.ticks - os.millis earlier.ticks ∧
          1000 * (later.ticks - earlier.ticks) < os.frequency * (elapsed + 1) ∧
          os.frequency * elapsed < 1000 * (later.ticks - earlier.ticks) + os.frequency

/-- The ticks lost when 32 bits overflow last a whole number of seconds. -/
def LosesSeconds (ticks : ℕ) : Prop := os.frequency ∣ 1000 * (ticks / 2 ^ 32)

end ChibiOS

section Readings

variable {os : ChibiOS} {start : ℕ} {clock : Clock}

theorem ChibiOS.positive (os : ChibiOS) : 0 < os.frequency :=
  Nat.lt_of_lt_of_le (by decide) os.fast

/-- The statics agree with the true counter. -/
structure Synced (os : ChibiOS) (start : ℕ) (clock : Clock) : Prop where
  resetPoint : clock.timer.resetPoint = os.systemTime start
  lastSystime : os.resolution < 32 →
    clock.timer.lastSystime = os.systemTime (start + clock.ticks)
  overflow : os.resolution < 32 → clock.timer.overflow =
    BitVec.ofNat 32 (2 ^ 16 * ((start + clock.ticks) / 2 ^ 16 - start / 2 ^ 16))

theorem cleared_synced (os : ChibiOS) (timer : Timer) (start : ℕ) :
    Synced os start (os.cleared timer start) := by
  rcases os.resolutions with narrow | wide
  · have small : os.resolution < 32 := by omega
    constructor <;> simp [ChibiOS.cleared, ChibiOS.timerClear, small]
  · have large : ¬os.resolution < 32 := by omega
    constructor <;> simp [ChibiOS.cleared, ChibiOS.timerClear, large]

theorem systemTime_narrow (narrow : os.resolution = 16) (counter : ℕ) :
    os.systemTime counter = BitVec.ofNat 32 (counter % 2 ^ 16) := by
  rw [ChibiOS.systemTime, narrow]

/-- The sum that is scaled has lost nothing but multiples of 2^32 ticks. -/
theorem narrow_sum (start ticks : ℕ) :
    BitVec.ofNat 32 ((start + ticks) % 2 ^ 16) - BitVec.ofNat 32 (start % 2 ^ 16) +
      BitVec.ofNat 32 (2 ^ 16 * ((start + ticks) / 2 ^ 16 - start / 2 ^ 16)) =
    BitVec.ofNat 32 ticks := by
  have parts := Nat.div_add_mod (start + ticks) (2 ^ 16)
  have first := Nat.div_add_mod start (2 ^ 16)
  have monotone : start / 2 ^ 16 ≤ (start + ticks) / 2 ^ 16 :=
    Nat.div_le_div_right (Nat.le_add_right _ _)
  have true_count : (start + ticks) % 2 ^ 16 +
      2 ^ 16 * ((start + ticks) / 2 ^ 16 - start / 2 ^ 16) = ticks + start % 2 ^ 16 := by
    omega
  have sum := congrArg (BitVec.ofNat 32) true_count
  rw [BitVec.ofNat_add, BitVec.ofNat_add] at sum
  generalize BitVec.ofNat 32 ((start + ticks) % 2 ^ 16) = systime at sum ⊢
  generalize BitVec.ofNat 32 (start % 2 ^ 16) = reset at sum ⊢
  generalize BitVec.ofNat 32 (2 ^ 16 * ((start + ticks) / 2 ^ 16 - start / 2 ^ 16)) = wraps at sum ⊢
  generalize BitVec.ofNat 32 ticks = counted at sum ⊢
  bv_omega

theorem wide_sum (start ticks : ℕ) :
    BitVec.ofNat 32 ((start + ticks) % 2 ^ 32) - BitVec.ofNat 32 (start % 2 ^ 32) =
      BitVec.ofNat 32 ticks := by
  apply BitVec.eq_of_toNat_eq
  simp only [BitVec.toNat_sub, BitVec.toNat_ofNat]
  omega

theorem overflow_after (narrow : os.resolution = 16) (synced : Synced os start clock) {gap : ℕ}
    (close : gap < 2 ^ 16) :
    (if os.systemTime (start + (clock.ticks + gap)) < clock.timer.lastSystime then
        clock.timer.overflow + 1#32 <<< os.resolution else clock.timer.overflow) =
      BitVec.ofNat 32 (2 ^ 16 * ((start + (clock.ticks + gap)) / 2 ^ 16 - start / 2 ^ 16)) := by
  have small : os.resolution < 32 := by omega
  have wraps := div_of_close (by decide) (start + clock.ticks) close
  rw [Nat.add_assoc] at wraps
  have monotone : start / 2 ^ 16 ≤ (start + clock.ticks) / 2 ^ 16 :=
    Nat.div_le_div_right (Nat.le_add_right _ _)
  have back : os.systemTime (start + (clock.ticks + gap)) < clock.timer.lastSystime ↔
      (start + (clock.ticks + gap)) % 2 ^ 16 < (start + clock.ticks) % 2 ^ 16 := by
    rw [synced.lastSystime small, systemTime_narrow narrow, systemTime_narrow narrow,
      BitVec.lt_def, BitVec.toNat_ofNat, BitVec.toNat_ofNat]
    omega
  have one : 1#32 <<< os.resolution = BitVec.ofNat 32 (2 ^ 16) := by rw [narrow]; rfl
  rw [synced.overflow small, one]
  by_cases wrapped : (start + (clock.ticks + gap)) % 2 ^ 16 < (start + clock.ticks) % 2 ^ 16
  · rw [if_pos wrapped] at wraps
    rw [if_pos (back.mpr wrapped), ← BitVec.ofNat_add]
    congr 1
    omega
  · rw [if_neg wrapped] at wraps
    rw [if_neg (mt back.mp wrapped)]
    congr 1
    omega

/-- Behind a reading the statics agree with the counter again. -/
theorem readAfter_synced (synced : Synced os start clock) {gap : ℕ}
    (close : gap < 2 ^ os.resolution) : Synced os start (os.readAfter start clock gap) := by
  rcases os.resolutions with narrow | wide
  · have small : os.resolution < 32 := by omega
    rw [narrow] at close
    constructor
    · rw [ChibiOS.readAfter, ChibiOS.timerRead32, if_pos small]
      exact synced.resetPoint
    · intro _
      rw [ChibiOS.readAfter, ChibiOS.timerRead32, if_pos small]
    · intro _
      rw [ChibiOS.readAfter, ChibiOS.timerRead32, if_pos small]
      exact overflow_after narrow synced close
  · have large : ¬os.resolution < 32 := by omega
    constructor
    · rw [ChibiOS.readAfter, ChibiOS.timerRead32, if_neg large]
      exact synced.resetPoint
    · exact fun small => absurd small large
    · exact fun small => absurd small large

/-- A reading scales the true ticks modulo 2^32. -/
def Scales (os : ChibiOS) (moment : Moment) : Prop :=
  moment.read32 os = BitVec.ofNat 32 (1000 * (moment.ticks % 2 ^ 32) ⌈/⌉ os.frequency)

theorem readAfter_scales (synced : Synced os start clock) {gap : ℕ}
    (close : gap < 2 ^ os.resolution) :
    Scales os { ticks := clock.ticks + gap
                timer := clock.timer
                systime := os.systemTime (start + (clock.ticks + gap)) } := by
  have scaled : ∀ interval, interval = BitVec.ofNat 32 (clock.ticks + gap) →
      BitVec.ofNat 32 (os.timeI2ms interval) =
        BitVec.ofNat 32 (1000 * ((clock.ticks + gap) % 2 ^ 32) ⌈/⌉ os.frequency) := by
    intro interval same
    rw [os.roundsUp, same, BitVec.toNat_ofNat]
  rw [Scales, Moment.read32, ChibiOS.timerRead32]
  rcases os.resolutions with narrow | wide
  · have small : os.resolution < 32 := by omega
    rw [narrow] at close
    rw [if_pos small]
    apply scaled
    rw [overflow_after narrow synced close, synced.resetPoint, systemTime_narrow narrow,
      systemTime_narrow narrow]
    exact narrow_sum start (clock.ticks + gap)
  · have large : ¬os.resolution < 32 := by omega
    rw [if_neg large]
    apply scaled
    rw [synced.resetPoint, ChibiOS.systemTime, ChibiOS.systemTime, wide]
    exact wide_sum start (clock.ticks + gap)

/-- What a run of readings keeps. -/
structure Keeps (os : ChibiOS) (start : ℕ) (clock : Clock) : Prop where
  synced : Synced os start clock
  scales : ∀ moment ∈ clock.moments, Scales os moment
  past : ∀ moment ∈ clock.moments, moment.ticks ≤ clock.ticks
  ordered : clock.moments.Pairwise fun earlier later => earlier.ticks ≤ later.ticks

theorem readAfter_keeps (keeps : Keeps os start clock) {gap : ℕ}
    (close : gap < 2 ^ os.resolution) : Keeps os start (os.readAfter start clock gap) where
  synced := readAfter_synced keeps.synced close
  scales := by
    intro moment member
    rcases List.mem_append.mp member with old | new
    · exact keeps.scales moment old
    · rw [List.mem_singleton.mp new]
      exact readAfter_scales keeps.synced close
  past := by
    intro moment member
    rcases List.mem_append.mp member with old | new
    · exact (keeps.past moment old).trans (Nat.le_add_right _ _)
    · rw [List.mem_singleton.mp new]
      exact Nat.le_refl _
  ordered := by
    apply List.pairwise_append.mpr
    refine ⟨keeps.ordered, List.pairwise_singleton _ _, ?_⟩
    intro earlier old later new
    rw [List.mem_singleton.mp new]
    exact (keeps.past earlier old).trans (Nat.le_add_right _ _)

theorem run_keeps (os : ChibiOS) (timer : Timer) (start : ℕ) {gaps : List ℕ}
    (often : ∀ gap ∈ gaps, gap < 2 ^ os.resolution) :
    Keeps os start (run (os.readAfter start) (os.cleared timer start) gaps) := by
  have kept : ∀ clock gap, Keeps os start clock → gap < 2 ^ os.resolution →
      Keeps os start (os.readAfter start clock gap) :=
    fun clock gap keeps close => readAfter_keeps keeps close
  have initial : Keeps os start (os.cleared timer start) :=
    ⟨cleared_synced os timer start, by simp [ChibiOS.cleared], by simp [ChibiOS.cleared],
      by simp [ChibiOS.cleared]⟩
  exact run_invariant kept initial (along_of_mem often _)

theorem Scales.right {moment : Moment} (scales : Scales os moment)
    (loses : os.LosesSeconds moment.ticks) :
    moment.read32 os = BitVec.ofNat 32 (os.millis moment.ticks) := by
  apply BitVec.eq_of_toNat_eq
  rw [scales, BitVec.toNat_ofNat, BitVec.toNat_ofNat]
  exact (ceilDiv_modEq_of_dvd os.positive loses).symm

theorem Scales.loses {moment : Moment} (scales : Scales os moment)
    (small : os.frequency ≤ 2 ^ 32)
    (right : moment.read32 os = BitVec.ofNat 32 (os.millis moment.ticks)) :
    os.LosesSeconds moment.ticks := by
  apply dvd_of_ceilDiv_modEq os.positive small
  rw [scales] at right
  have same := congrArg BitVec.toNat right
  rw [BitVec.toNat_ofNat, BitVec.toNat_ofNat] at same
  exact same.symm

/-- Two right readings less than 2^32 ms apart give the elapsed time. -/
theorem elapsed32_right {earlier later : Moment} (ordered : earlier.ticks ≤ later.ticks)
    (first : earlier.read32 os = BitVec.ofNat 32 (os.millis earlier.ticks))
    (second : later.read32 os = BitVec.ofNat 32 (os.millis later.ticks))
    (close : os.millis later.ticks - os.millis earlier.ticks < 2 ^ 32) :
    (later.elapsed32 os (earlier.read32 os)).toNat =
      os.millis later.ticks - os.millis earlier.ticks := by
  have monotone : os.millis earlier.ticks ≤ os.millis later.ticks :=
    ceilDiv_le_ceilDiv os.positive (Nat.mul_le_mul_left _ ordered)
  have difference : later.elapsed32 os (earlier.read32 os) =
      later.read32 os - earlier.read32 os := rfl
  rw [difference, first, second, BitVec.toNat_sub, BitVec.toNat_ofNat, BitVec.toNat_ofNat]
  omega

/-- Readings at least once per counter wrap are all right where the ticks lost to
32 bits last whole seconds, as always at 1000 Hz or in the first 2^32 ticks, and
at frequencies of at most 2^32 Hz nowhere else. -/
theorem readings_right_iff (os : ChibiOS) (timer : Timer) (start : ℕ) (gaps : List ℕ)
    (often : ∀ gap ∈ gaps, gap < 2 ^ os.resolution) :
    let moments := (run (os.readAfter start) (os.cleared timer start) gaps).moments
    ((∀ moment ∈ moments, os.LosesSeconds moment.ticks) → os.Right moments) ∧
      (os.frequency ≤ 2 ^ 32 → os.Right moments →
        ∀ moment ∈ moments, os.LosesSeconds moment.ticks) := by
  intro moments
  have keeps := run_keeps os timer start often
  constructor
  · intro loses
    have right := fun moment member => (keeps.scales moment member).right (loses moment member)
    refine ⟨right, keeps.ordered.imp_of_mem ?_⟩
    intro earlier later former latter ordered close
    have elapsed := elapsed32_right ordered (right earlier former) (right later latter) close
    have bounds := ceilDiv_sub_bounds 1000 os.positive ordered
    refine ⟨elapsed, ?_⟩
    rw [elapsed]
    exact bounds
  · intro small right moment member
    exact (keeps.scales moment member).loses small (right.1 moment member)

/-- A 16-bit counter at 10 kHz. -/
def narrowAt10kHz : ChibiOS where
  frequency := 10000
  resolution := 16
  timeI2ms interval := (1000 * interval.toNat + 10000 - 1) / 10000
  fast := by decide
  resolutions := by decide
  roundsUp _ := rfl

/-- A 32-bit counter at 100 kHz. -/
def wideAt100kHz : ChibiOS where
  frequency := 100000
  resolution := 32
  timeI2ms interval := (1000 * interval.toNat + 100000 - 1) / 100000
  fast := by decide
  resolutions := (by decide : 32 = 16 ∨ 16 + 16 = 32)
  roundsUp _ := rfl

theorem narrow_readings_right :
    narrowAt10kHz.Right (run (narrowAt10kHz.readAfter 60000) (narrowAt10kHz.cleared {} 60000)
      [40000, 65535]).moments :=
  (readings_right_iff narrowAt10kHz {} 60000 [40000, 65535] (by decide)).1
    (by unfold ChibiOS.LosesSeconds; decide)

/-- Twelve hours after `timer_clear` the clock is back at 0. -/
theorem twelve_hours_lost :
    (∀ gap ∈ [2 ^ 32 - 1, 1], gap < 2 ^ wideAt100kHz.resolution) ∧
      ¬wideAt100kHz.Right (run (wideAt100kHz.readAfter 0) (wideAt100kHz.cleared {} 0)
        [2 ^ 32 - 1, 1]).moments := by
  refine ⟨by decide, ?_⟩
  rintro ⟨right, -⟩
  have last := right { ticks := 2 ^ 32, timer := {}, systime := 0 } (by decide)
  have lost : Moment.read32 wideAt100kHz { ticks := 2 ^ 32, timer := {}, systime := 0 } = 0 := by
    decide
  rw [lost] at last
  exact absurd last (by decide)

end Readings

end QmkSonix.Timer
