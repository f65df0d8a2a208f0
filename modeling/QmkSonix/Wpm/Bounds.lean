import QmkSonix.Wpm.Model

/-! The estimate is well defined and stays between its samples, along runs in which no
call meets a zero duration and no restart of the filter carries it past its new sample. -/

namespace QmkSonix.Wpm

open QmkSonix.Lib

variable {cfg : Config}

namespace State

variable (s : State cfg)

/-- The estimate lies between the last two samples. -/
def between : Prop :=
  min s.prevWpm.toNat s.nextWpm.toNat ≤ s.currentWpm.toNat ∧
    s.currentWpm.toNat ≤ max s.prevWpm.toNat s.nextWpm.toNat

/-- The presses of the periods that count. -/
def presses : Int :=
  max ((List.range (s.periods.toNat + 1)).map fun i =>
    (s.periodPresses[i]?.getD 0).toInt).sum 0

/-- A call finds every period that it counts, and has some time to divide by. -/
def lasting (clock : Clock) : Prop :=
  1 < (cfg.samplePeriods : ℕ) ∧
    ¬ 2 ^ 32 ∣ (s.periods.toNat * cfg.periodDuration + (clock.period - s.wpmTimer).toNat) *
      cfg.estimatedWordSize

/-- The distance between the samples of the filter behind a call. -/
def jump (clock : Clock) : Int :=
  let sampled := resample s (wpmNow s.presses (divisor s clock)) clock
  |(sampled.nextWpm.toNat : Int) - sampled.prevWpm.toNat|

/-- The milliseconds that the filter has moved for do not carry it past its sample. -/
def steady (clock : Clock) : Prop :=
  let latency := (clock.smoothing - s.smoothingTimer).toInt
  cfg.filtered = true →
    -latencyLimit < latency * s.jump clock ∧
      latency * s.jump clock < latencyLimit * (s.jump clock + 1)

end State

/-- What the estimate is to satisfy behind every call. -/
def WellDefined : Except Fault (State cfg) → Prop
  | .ok s => cfg.filtered = true → s.between ∧ s.currentWpm.toNat ≤ 240
  | .error _ => False

/-- The calls that keep the estimate well defined. -/
def allowed : Except Fault (State cfg) → Event → Prop
  | .ok s, .decay clock => s.lasting clock ∧ s.steady clock
  | _, _ => True

instance (s : State cfg) : Decidable s.between := inferInstanceAs (Decidable (_ ∧ _))

instance (s : State cfg) (clock : Clock) : Decidable (s.lasting clock) :=
  inferInstanceAs (Decidable (_ ∧ ¬ _))

instance (s : State cfg) (clock : Clock) : Decidable (s.steady clock) :=
  inferInstanceAs (Decidable (_ → _ ∧ _))

instance : (result : Except Fault (State cfg)) → Decidable (WellDefined result)
  | .ok _ => inferInstanceAs (Decidable (_ → _ ∧ _))
  | .error _ => isFalse id

instance : (result : Except Fault (State cfg)) → (event : Event) →
    Decidable (allowed result event)
  | .ok s, .decay clock => inferInstanceAs (Decidable (s.lasting clock ∧ s.steady clock))
  | .ok _, .update _ _ | .error _, .update _ _ | .error _, .decay _ => isTrue trivial

section Interpolation

theorem tdiv_between {product jump : Int} (jumps : 0 ≤ jump)
    (above : -latencyLimit < product) (below : product < latencyLimit * (jump + 1)) :
    0 ≤ product.tdiv latencyLimit ∧ product.tdiv latencyLimit ≤ jump := by
  unfold latencyLimit at *
  rcases le_or_gt 0 product with positive | negative
  · rw [Int.tdiv_eq_ediv_of_nonneg positive]
    omega
  · have none : product.tdiv 100 = 0 := by
      rw [← neg_neg product, Int.neg_tdiv, Int.tdiv_eq_ediv_of_nonneg (by omega)]
      omega
    omega

theorem toNat_ofInt_byte {value : Int} (positive : 0 ≤ value) (small : value < 256) :
    ((BitVec.ofInt 8 value).toNat : Int) = value := by
  rw [BitVec.toNat_ofInt]
  omega

theorem toInt_ofInt_word {value : Int} (above : -2 ^ 31 ≤ value) (below : value < 2 ^ 31) :
    (BitVec.ofInt 32 value).toInt = value := by
  rw [BitVec.toInt_ofInt, Int.bmod_eq_of_le] <;> omega

/-- The filter stays between its samples while its milliseconds do not carry it past. -/
theorem interpolate_between {prev next : Byte} {latency : Int}
    (above : -latencyLimit < latency * |(next.toNat : Int) - prev.toNat|)
    (below : latency * |(next.toNat : Int) - prev.toNat| <
      latencyLimit * (|(next.toNat : Int) - prev.toNat| + 1)) :
    min prev.toNat next.toNat ≤ (interpolate prev next latency).toNat ∧
      (interpolate prev next latency).toNat ≤ max prev.toNat next.toNat := by
  have prevSmall := prev.isLt
  have nextSmall := next.isLt
  obtain ⟨forwards, within⟩ := tdiv_between (abs_nonneg _) above below
  have limit : latencyLimit = 100 := rfl
  rw [limit] at above below
  rcases le_total (prev.toNat : Int) next.toNat with rises | falls
  · rw [abs_of_nonneg (by omega)] at above below forwards within
    have value : ((interpolate prev next latency).toNat : Int) =
        prev.toNat + (latency * ((next.toNat : Int) - prev.toNat)).tdiv latencyLimit := by
      simp only [interpolate]
      rw [toInt_ofInt_word (by omega) (by omega), toNat_ofInt_byte (by omega) (by omega)]
    omega
  · rw [abs_of_nonpos (by omega), Int.mul_neg] at above below forwards within
    rw [Int.neg_tdiv] at forwards within
    have value : ((interpolate prev next latency).toNat : Int) =
        prev.toNat + (latency * ((next.toNat : Int) - prev.toNat)).tdiv latencyLimit := by
      simp only [interpolate]
      rw [toInt_ofInt_word (by omega) (by omega), toNat_ofInt_byte (by omega) (by omega)]
    omega

end Interpolation

section Steps

variable {s : State cfg}

/-- Both counters stay inside the ring, and the samples are bounded. -/
structure State.Sound (s : State cfg) : Prop where
  current : s.currentPeriod.toNat < cfg.samplePeriods
  counted : s.periods.toNat < cfg.samplePeriods ∨ s.periods = 1
  prev : s.prevWpm.toNat ≤ 240
  next : s.nextWpm.toNat ≤ 240
  between : cfg.filtered = true → s.between

@[simp] theorem pressesIn_eq {i : ℕ} (inside : i < cfg.samplePeriods) :
    pressesIn s i = .ok (s.periodPresses[i]?.getD 0).toInt := by
  simp [pressesIn, inside]

theorem foldlM_presses {periods : List ℕ} (inside : ∀ i ∈ periods, i < cfg.samplePeriods)
    (presses : Int) :
    periods.foldlM (fun presses i => do return presses + (← pressesIn s i)) presses =
      (.ok (presses + (periods.map fun i => (s.periodPresses[i]?.getD 0).toInt).sum) :
        Except Fault Int) := by
  induction periods generalizing presses with
  | nil => simp; rfl
  | cons i rest ih =>
    rw [List.foldlM_cons, pressesIn_eq (inside i List.mem_cons_self)]
    have later := ih (fun j member => inside j (List.mem_cons_of_mem i member))
      (presses + (s.periodPresses[i]?.getD 0).toInt)
    rw [List.map_cons, List.sum_cons, ← add_assoc, ← later]
    rfl

/-- The loop over the periods that count stays inside the ring. -/
theorem countPresses_eq (inside : s.periods.toNat < cfg.samplePeriods) :
    countPresses s = .ok ((List.range (s.periods.toNat + 1)).map fun i =>
      (s.periodPresses[i]?.getD 0).toInt).sum := by
  have tail : ∀ i ∈ List.range' 1 s.periods.toNat, i < (cfg.samplePeriods : ℕ) := by
    intro i member
    have bound := List.mem_range'_1.mp member
    omega
  rw [List.range_eq_range', List.range'_succ, List.map_cons, List.sum_cons, zero_add,
    ← foldlM_presses tail, countPresses, pressesIn_eq (by omega)]
  rfl

/-- The divisor vanishes exactly when the milliseconds of the periods are a multiple of
`2 ^ 32` words long. -/
theorem divisor_eq_zero_iff (clock : Clock) :
    divisor s clock = 0 ↔
      2 ^ 32 ∣ (s.periods.toNat * cfg.periodDuration + (clock.period - s.wpmTimer).toNat) *
        cfg.estimatedWordSize := by
  have duration : BitVec.ofInt 32 ((s.periods.toNat : Int) * cfg.periodDuration +
      (clock.period - s.wpmTimer).toInt) =
      BitVec.ofNat 32 (s.periods.toNat * cfg.periodDuration +
        (clock.period - s.wpmTimer).toNat) := by
    rw [BitVec.ofInt_add, BitVec.ofInt_toInt, BitVec.ofNat_add, BitVec.ofNat_toNat,
      BitVec.setWidth_eq, ← BitVec.ofInt_natCast, Nat.cast_mul]
  simp only [divisor]
  rw [duration, ← BitVec.ofNat_mul, ← BitVec.toNat_inj, BitVec.toNat_ofNat]
  exact (Nat.dvd_iff_mod_eq_zero ..).symm

theorem wpmNow_le (presses : Int) (divisor : BitVec 32) :
    (wpmNow presses divisor).toNat ≤ 240 := by
  simp only [wpmNow]
  split
  · decide
  · split
    · decide
    · rename_i within
      exact not_lt.mp within

theorem countPresses_ok (inside : s.periods.toNat < cfg.samplePeriods) :
    ∃ presses, countPresses s = .ok presses ∧ max presses 0 = s.presses :=
  ⟨_, countPresses_eq inside, rfl⟩

theorem decayWpm_eq (sound : s.Sound) {clock : Clock} (lasting : s.lasting clock) :
    decayWpm s clock = .ok (smooth (launch (endPeriod s clock) s.presses)
      (wpmNow s.presses (divisor s clock)) clock) := by
  obtain ⟨several, divides⟩ := lasting
  have inside : s.periods.toNat < cfg.samplePeriods := by
    rcases sound.counted with inside | single
    · exact inside
    · rw [single]
      exact several
  obtain ⟨presses, counted, total⟩ := countPresses_ok inside
  have nonzero : divisor s clock ≠ 0 := mt (divisor_eq_zero_iff clock).mp divides
  simp only [decayWpm, counted, ← total, bind, Except.bind, if_neg nonzero]
  rfl

/-- A new period stays inside the ring and leaves the filter alone. -/
theorem endPeriod_cases (s : State cfg) (clock : Clock) :
    endPeriod s clock = s ∨
      (endPeriod s clock).currentPeriod.toNat < cfg.samplePeriods ∧
        (endPeriod s clock).periods.toNat < cfg.samplePeriods ∧
        (endPeriod s clock).currentWpm = s.currentWpm ∧
        (endPeriod s clock).smoothingTimer = s.smoothingTimer ∧
        (endPeriod s clock).prevWpm = s.prevWpm ∧ (endPeriod s clock).nextWpm = s.nextWpm := by
  have some := cfg.samplePeriods.pos
  unfold endPeriod
  split
  · right
    refine ⟨?_, ?_, rfl, rfl, rfl, rfl⟩
    · have next := Nat.mod_lt (s.currentPeriod.toNat + 1) some
      exact (Nat.mod_le _ _).trans_lt next
    · dsimp only
      split
      · have sum := BitVec.toNat_add s.periods 1
        have one : (1 : Byte).toNat = 1 := rfl
        omega
      · rw [BitVec.toNat_ofNat]
        have last := Nat.mod_le ((cfg.samplePeriods : ℕ) - 1) (2 ^ 8)
        omega
  · exact .inl rfl

theorem State.Sound.endPeriod (sound : s.Sound) (clock : Clock) : (endPeriod s clock).Sound := by
  rcases endPeriod_cases s clock with same | ⟨current, counted, now, -, prev, next⟩
  · rw [same]
    exact sound
  · refine ⟨current, .inl counted, prev ▸ sound.prev, next ▸ sound.next, fun filtered => ?_⟩
    unfold State.between
    rw [now, prev, next]
    exact sound.between filtered

theorem State.Sound.launch (sound : s.Sound) (presses : Int) : (launch s presses).Sound := by
  unfold Wpm.launch
  split
  · exact ⟨cfg.samplePeriods.pos, .inl cfg.samplePeriods.pos, sound.prev, sound.next,
      sound.between⟩
  · exact sound

/-- The filter moves between its samples, which stay bounded. -/
theorem State.Sound.smooth (sound : s.Sound) {wpmNow : BitVec 32} (bounded : wpmNow.toNat ≤ 240)
    {clock : Clock}
    {jump : Int}
    (jumps : jump = |((resample s wpmNow clock).nextWpm.toNat : Int) -
      (resample s wpmNow clock).prevWpm.toNat|)
    (steady : cfg.filtered = true →
      -latencyLimit < (clock.smoothing - s.smoothingTimer).toInt * jump ∧
        (clock.smoothing - s.smoothingTimer).toInt * jump < latencyLimit * (jump + 1)) :
    (smooth s wpmNow clock).Sound := by
  unfold Wpm.smooth
  split
  · rename_i filtered
    obtain ⟨above, below⟩ := steady filtered
    subst jumps
    have moved := interpolate_between above below
    unfold resample at moved ⊢
    split at moved
    · rename_i restarts
      rw [if_pos restarts]
      have current := (sound.between filtered).2.trans (max_le sound.prev sound.next)
      refine ⟨sound.current, sound.counted, current, ?_, fun _ => moved⟩
      simp only [BitVec.toNat_setWidth]
      omega
    · rename_i waits
      rw [if_neg waits]
      exact ⟨sound.current, sound.counted, sound.prev, sound.next, fun _ => moved⟩
  · rename_i raw
    exact ⟨sound.current, sound.counted, sound.prev, sound.next, fun filtered =>
      absurd filtered raw⟩

/-- What the filter reads is left alone by the periods. -/
theorem resample_periods (s : State cfg) (clock : Clock) (presses : Int) (wpmNow : BitVec 32) :
    (launch (endPeriod s clock) presses).smoothingTimer = s.smoothingTimer ∧
      (resample (launch (endPeriod s clock) presses) wpmNow clock).prevWpm =
        (resample s wpmNow clock).prevWpm ∧
      (resample (launch (endPeriod s clock) presses) wpmNow clock).nextWpm =
        (resample s wpmNow clock).nextWpm := by
  have kept : (endPeriod s clock).smoothingTimer = s.smoothingTimer ∧
      (endPeriod s clock).currentWpm = s.currentWpm ∧
      (endPeriod s clock).prevWpm = s.prevWpm ∧ (endPeriod s clock).nextWpm = s.nextWpm := by
    rcases endPeriod_cases s clock with same | ⟨-, -, now, timer, prev, next⟩
    · rw [same]
      exact ⟨rfl, rfl, rfl, rfl⟩
    · exact ⟨timer, now, prev, next⟩
  obtain ⟨timer, now, prev, next⟩ := kept
  have launched : (launch (endPeriod s clock) presses).smoothingTimer = s.smoothingTimer ∧
      (launch (endPeriod s clock) presses).currentWpm = s.currentWpm ∧
      (launch (endPeriod s clock) presses).prevWpm = s.prevWpm ∧
      (launch (endPeriod s clock) presses).nextWpm = s.nextWpm := by
    unfold launch
    split
    · exact ⟨timer, now, prev, next⟩
    · exact ⟨timer, now, prev, next⟩
  obtain ⟨timer, now, prev, next⟩ := launched
  refine ⟨timer, ?_, ?_⟩
  · unfold resample
    rw [timer]
    split
    · exact now
    · exact prev
  · unfold resample
    rw [timer]
    split
    · rfl
    · exact next

theorem State.Sound.decay (sound : s.Sound) {clock : Clock} (lasting : s.lasting clock)
    (steady : s.steady clock) : ∃ ended : State cfg, decayWpm s clock = .ok ended ∧ ended.Sound := by
  refine ⟨_, decayWpm_eq sound lasting, ?_⟩
  obtain ⟨timer, prev, next⟩ := resample_periods s clock s.presses
    (wpmNow s.presses (divisor s clock))
  have jumps : s.jump clock =
      |((resample (Wpm.launch (Wpm.endPeriod s clock) s.presses)
          (wpmNow s.presses (divisor s clock)) clock).nextWpm.toNat : Int) -
        (resample (Wpm.launch (Wpm.endPeriod s clock) s.presses)
          (wpmNow s.presses (divisor s clock)) clock).prevWpm.toNat| := by
    rw [prev, next]
    rfl
  refine ((sound.endPeriod clock).launch s.presses).smooth (wpmNow_le _ _) jumps ?_
  rw [timer]
  exact steady

theorem State.Sound.addPresses (sound : s.Sound) (change : Byte) :
    ∃ counted : State cfg, addPresses s change = .ok counted ∧ counted.Sound := by
  unfold Wpm.addPresses
  rw [dif_pos sound.current]
  exact ⟨_, rfl, sound.current, sound.counted, sound.prev, sound.next, sound.between⟩

theorem State.Sound.update (sound : s.Sound) (keycode : BitVec 16) (mods : Byte) :
    ∃ counted : State cfg, updateWpm s keycode mods = .ok counted ∧ counted.Sound := by
  have regressed (pressed : State cfg) (kept : pressed.Sound) :
      ∃ counted : State cfg,
        (if cfg.allowCountRegression && cfg.wpmRegressCount keycode mods != 0 then
          Wpm.addPresses pressed (-1) else pure pressed) = .ok counted ∧ counted.Sound := by
    split
    · exact kept.addPresses (-1)
    · exact ⟨pressed, rfl, kept⟩
  unfold updateWpm
  by_cases types : cfg.wpmKeycode keycode = true
  · obtain ⟨pressed, first, kept⟩ := sound.addPresses 1
    rw [if_pos types, first]
    exact regressed pressed kept
  · rw [if_neg types]
    exact regressed s sound

end Steps

section Runs

/-- No call has failed, and the state is sound. -/
def Sound : Except Fault (State cfg) → Prop
  | .ok s => s.Sound
  | .error _ => False

theorem step_sound (result : Except Fault (State cfg)) (event : Event) (sound : Sound result)
    (allows : allowed result event) : Sound (step result event) := by
  cases result with
  | error fault => exact sound
  | ok s =>
    cases event with
    | update keycode mods =>
      obtain ⟨counted, ends, kept⟩ := State.Sound.update sound keycode mods
      simp only [step, bind, Except.bind, ends]
      exact kept
    | decay clock =>
      obtain ⟨ended, ends, kept⟩ := State.Sound.decay sound allows.1 allows.2
      simp only [step, bind, Except.bind, ends]
      exact kept

theorem Sound.wellDefined {result : Except Fault (State cfg)} (sound : Sound result) :
    WellDefined result := by
  cases result with
  | error fault => exact sound
  | ok s =>
    intro filtered
    have bounds := State.Sound.between sound filtered
    exact ⟨bounds, bounds.2.trans (max_le (State.Sound.prev sound) (State.Sound.next sound))⟩

theorem sound_start (cfg : Config) : Sound (.ok ({} : State cfg)) :=
  ⟨cfg.samplePeriods.pos, .inr rfl, Nat.zero_le _, Nat.zero_le _, fun _ => ⟨le_rfl, le_rfl⟩⟩

end Runs

end QmkSonix.Wpm
