import QmkSonix.RgbMatrix.Model

/-! The idle time that `rgb_task_timers` adds up in 32 bits, and the effect that depends on
it. -/

namespace QmkSonix.RgbMatrix

open QmkSonix.Lib

variable {cfg : Config} {Scratch : Type*} (fx : Effects cfg Scratch)

section Time

/-- A key event that `process_rgb_matrix` does not turn away. -/
def Event.processed (cfg : Config) : Event → Bool
  | .key _ _ _ master => cfg.split || master
  | _ => false

/-- The time of the last reading, and the time that the tasks have seen pass since the last
key event, without any bound. -/
structure Idle where
  buffer : BitVec 32 := 0
  time : ℕ := 0

/-- The idle time behind an event; it is kept only with a timeout. -/
def Idle.step (cfg : Config) (idle : Idle) : Event → Idle
  | .task reads =>
    { buffer := reads.buffer
      time :=
        if 0 < cfg.disableTimeout then idle.time + (reads.elapsed - idle.buffer).toNat
        else idle.time }
  | event =>
    if event.processed cfg ∧ 0 < cfg.disableTimeout then { idle with time := 0 } else idle

/-- The idle time behind some events -/
def idleTime (cfg : Config) (events : List Event) : ℕ := (run (Idle.step cfg) {} events).time

/-- The counter is the idle time as far as 32 bits hold it. -/
structure Counts (state : State cfg Scratch) (idle : Idle) : Prop where
  buffer : state.timerBuffer = idle.buffer
  time : state.anykeyTimer.toNat = idle.time % 2 ^ 32

/-- The guard of the counter is no guard in 32 bits. -/
theorem anykeyTimer_rgbTaskTimers (state : State cfg Scratch) (reads : Reads) :
    (rgbTaskTimers state reads).anykeyTimer =
      if 0 < cfg.disableTimeout then state.anykeyTimer + (reads.elapsed - state.timerBuffer)
      else state.anykeyTimer := by
  have always (sum : BitVec 32) : sum ≤ BitVec.allOnes 32 := by
    rw [BitVec.le_def, BitVec.toNat_allOnes]
    have bound := sum.isLt
    omega
  simp only [rgbTaskTimers, always, and_true]

theorem counts_task {state : State cfg Scratch} {idle : Idle} (counts : Counts state idle)
    (reads : Reads) : Counts (rgbTaskTimers state reads) (idle.step cfg (.task reads)) := by
  refine ⟨rfl, ?_⟩
  rw [anykeyTimer_rgbTaskTimers, Idle.step]
  dsimp only
  split
  · rw [BitVec.toNat_add, counts.time, counts.buffer, Nat.mod_add_mod]
  · exact counts.time

theorem counts_of_sameTimers {state other : State cfg Scratch} {idle : Idle}
    (counts : Counts state idle) (same : SameTimers state other) : Counts other idle :=
  ⟨by rw [same.timerBuffer, counts.buffer], by rw [same.anykeyTimer, counts.time]⟩

/-- Every event keeps the counter at the idle time. -/
theorem counts_step (state : State cfg Scratch) (idle : Idle) (event : Event)
    (counts : Counts state idle) : Counts (step fx state event) (idle.step cfg event) := by
  cases event with
  | key row column pressed master =>
    simp only [step, processRgbMatrix, Idle.step, Event.processed]
    by_cases aside : (!cfg.split && !master) = true
    · have away : (cfg.split || master) = false := by
        simpa [Bool.or_eq_false_iff] using aside
      simp only [aside, away, if_true, Bool.false_eq_true, false_and, if_false]
      exact counts
    · have taken : (cfg.split || master) = true := by
        simpa [Bool.or_eq_true, or_iff_not_imp_left] using aside
      simp only [aside, taken, if_false, true_and]
      by_cases timed : 0 < cfg.disableTimeout
      · simp only [timed, if_true]
        exact ⟨counts.buffer, rfl⟩
      · simp only [timed, if_false]
        exact ⟨counts.buffer, counts.time⟩
  | task reads =>
    have same := sameInput_runPhase fx (rgbTaskTimers state reads) reads
    have timed := counts_task counts reads
    exact ⟨by rw [← timed.buffer]; exact same.timerBuffer,
      by rw [← timed.time]; exact congrArg BitVec.toNat same.anykeyTimer⟩
  | toggle => exact counts_of_sameTimers counts ⟨rfl, rfl, rfl⟩
  | enable => exact counts_of_sameTimers counts ⟨rfl, rfl, rfl⟩
  | disable => exact counts_of_sameTimers counts ⟨rfl, rfl, rfl⟩
  | mode mode => exact counts_of_sameTimers counts (sameTimers_setMode state mode)
  | step => exact counts_of_sameTimers counts (sameTimers_setMode state _)
  | stepReverse => exact counts_of_sameTimers counts (sameTimers_setMode state _)
  | flags flags => exact counts_of_sameTimers counts ⟨rfl, rfl, rfl⟩

theorem counts_run (stored : Option Settings) (scratch : Scratch) (colors flushed : Colors cfg)
    (events : List Event) :
    Counts (run (step fx) (rgbMatrixInit cfg stored scratch colors flushed) events)
      (run (Idle.step cfg) {} events) := by
  have always : Along (step fx) (fun _ _ => True)
      (rgbMatrixInit cfg stored scratch colors flushed) events :=
    along_of_forall (fun _ _ => trivial) _ events
  refine run_simulates ?_ ⟨rfl, rfl⟩ always
  intro state idle event counts _
  exact counts_step fx state idle event counts

end Time

section Final

/-- Some effect is switched on. -/
def State.Lit (state : State cfg Scratch) : Prop := state.enable ≠ 0 ∧ state.mode ≠ 0

/-- Once a task of the run has found the counter past the timeout, every task before the next
key event computes the effect `RGB_MATRIX_NONE`. -/
def TimeoutIsFinal (start : State cfg Scratch) (events : List Event) : Prop :=
  ∀ before past between later,
    before ++ .task past :: (between ++ [.task later]) <+: events →
    (∀ event ∈ between, event.processed cfg = false) →
    cfg.disableTimeout < (rgbTaskTimers (run (step fx) start before) past).anykeyTimer →
    (rgbTaskTimers (run (step fx) start (before ++ .task past :: between)) later).effect = 0

/-- Once the idle time has passed the timeout, at each task before the next key event where
some effect is switched on it is past the timeout by more than whole turns of 32 bits. -/
def StaysPast (start : State cfg Scratch) (events : List Event) : Prop :=
  ∀ before past between later,
    before ++ .task past :: (between ++ [.task later]) <+: events →
    (∀ event ∈ between, event.processed cfg = false) →
    cfg.disableTimeout.toNat < idleTime cfg (before ++ [.task past]) % 2 ^ 32 →
    (run (step fx) start (before ++ .task past :: between)).Lit →
    cfg.disableTimeout.toNat <
      idleTime cfg (before ++ .task past :: (between ++ [.task later])) % 2 ^ 32

/-- Without a timeout no idle time is kept. -/
theorem timed_of_idleTime {events : List Event} (some : 0 < idleTime cfg events) :
    0 < cfg.disableTimeout := by
  by_contra untimed
  have nothing : idleTime cfg events = 0 := by
    refine run_keeps (fun idle : Idle => idle.time = 0) (fun idle event zero => ?_) rfl events
    have keeps : (if event.processed cfg ∧ 0 < cfg.disableTimeout then { idle with time := 0 }
        else idle : Idle).time = 0 := by
      rw [if_neg (fun resets => untimed resets.2), zero]
    cases event with
    | task reads => simp only [Idle.step, if_neg untimed, zero]
    | _ => exact keeps
  omega

/-- What a task computes where the counter is the idle time. -/
theorem effect_eq_zero_iff {state : State cfg Scratch} {idle : Idle} (counts : Counts state idle)
    (timed : 0 < cfg.disableTimeout) :
    state.effect = 0 ↔ (state.Lit → cfg.disableTimeout.toNat < idle.time % 2 ^ 32) := by
  have narrow : state.mode.setWidth 8 = 0 ↔ state.mode = 0 := by
    have bound := state.mode.isLt
    rw [← BitVec.toNat_inj, ← BitVec.toNat_inj, BitVec.toNat_setWidth_of_le (by decide)]
    rfl
  have past : cfg.disableTimeout < state.anykeyTimer ↔
      cfg.disableTimeout.toNat < idle.time % 2 ^ 32 := by
    rw [BitVec.lt_def, counts.time]
  unfold State.effect State.Lit
  by_cases off : state.enable = 0
  · rw [if_pos (Or.inr off)]
    exact ⟨fun _ lit => absurd off lit.1, fun _ => rfl⟩
  · by_cases idles : cfg.disableTimeout < state.anykeyTimer
    · rw [if_pos (Or.inl ⟨timed, idles⟩)]
      exact ⟨fun _ _ => past.mp idles, fun _ => rfl⟩
    · rw [if_neg (by tauto), narrow]
      exact ⟨fun dark lit => absurd dark lit.2, fun stays => by
        by_contra shows
        exact idles (past.mpr (stays ⟨off, shows⟩))⟩

theorem idleTime_append (earlier later : List Event) :
    idleTime cfg (earlier ++ later) =
      (run (Idle.step cfg) (run (Idle.step cfg) {} earlier) later).time := by
  rw [idleTime, run_append]

/-- The timeout is final exactly in the runs whose idle time, once past it, comes to lie past
it modulo 2^32 at every task that finds some effect switched on. -/
theorem timeoutIsFinal_iff (stored : Option Settings) (scratch : Scratch)
    (colors flushed : Colors cfg) (events : List Event) :
    TimeoutIsFinal fx (rgbMatrixInit cfg stored scratch colors flushed) events ↔
      StaysPast fx (rgbMatrixInit cfg stored scratch colors flushed) events := by
  have start := counts_run fx stored scratch colors flushed
  unfold TimeoutIsFinal StaysPast
  refine forall₄_congr fun before past between later => forall₂_congr fun _ _ => ?_
  have first := counts_task (start before) past
  have last := counts_task (start (before ++ .task past :: between)) later
  have passes : cfg.disableTimeout <
      (rgbTaskTimers (run (step fx) (rgbMatrixInit cfg stored scratch colors flushed) before)
        past).anykeyTimer ↔
      cfg.disableTimeout.toNat < idleTime cfg (before ++ [.task past]) % 2 ^ 32 := by
    rw [BitVec.lt_def, first.time, idleTime_append, run_cons, run_nil]
  rw [passes]
  refine imp_congr_right fun passed => ?_
  have some : 0 < idleTime cfg (before ++ [.task past]) := by
    by_contra none
    rw [Nat.eq_zero_of_not_pos none, Nat.zero_mod] at passed
    omega
  have timed := timed_of_idleTime some
  rw [effect_eq_zero_iff last timed, ← List.cons_append, ← List.append_assoc, idleTime_append _ [_],
    run_cons, run_nil]
  rfl

/-- The idle time does not go back before the next key event. -/
theorem idleTime_le_of_no_key (earlier : List Event) {between : List Event}
    (quiet : ∀ event ∈ between, event.processed cfg = false) :
    idleTime cfg earlier ≤ idleTime cfg (earlier ++ between) := by
  induction between using List.reverseRecOn with
  | nil => rw [List.append_nil]
  | append_singleton between event ih =>
    have before := ih fun event member => quiet event (List.mem_append_left _ member)
    refine before.trans ?_
    rw [← List.append_assoc, idleTime_append _ [event], run_cons, run_nil, idleTime]
    have aside := quiet event (by simp)
    cases event with
    | task reads =>
      simp only [Idle.step]
      split <;> omega
    | key row column pressed master =>
      simp only [Idle.step, aside, Bool.false_eq_true, false_and, if_false, le_refl]
    | _ => exact le_rfl

/-- Where no 2^32 milliseconds pass between two key events the idle time stays past the
timeout. -/
theorem staysPast_of_short (start : State cfg Scratch) {events : List Event}
    (short : ∀ earlier, earlier <+: events → idleTime cfg earlier < 2 ^ 32) :
    StaysPast fx start events := by
  intro before past between later within quiet passed _
  have split : before ++ .task past :: (between ++ [.task later]) =
      before ++ [.task past] ++ (between ++ [.task later]) := by simp
  rw [split] at within ⊢
  have still : ∀ event ∈ between ++ [.task later], event.processed cfg = false := by
    intro event member
    rcases List.mem_append.mp member with inside | last
    · exact quiet event inside
    · rw [List.mem_singleton.mp last]
      rfl
  have grows := idleTime_le_of_no_key (before ++ [.task past]) still
  have whole := short _ within
  have part := short _ ((List.prefix_append _ _).trans within)
  rw [Nat.mod_eq_of_lt part] at passed
  rw [Nat.mod_eq_of_lt whole]
  omega

end Final

/-- A keyboard whose matrix goes dark after a second -/
def board : Config where
  ledTotal := 1
  disableTimeout := 1000
  effectMax := 3
  startupMode := 1
  reactive := none
  matrixCo := fun _ _ => 0
  point := fun _ => (0, 0)

/-- An effect that lights every LED and is done. -/
def boardEffects : Effects board Unit where
  effect := fun _ _ _ _ picture => ((picture.1, fun _ => ⟨255, 255, 255⟩), false)
  indicators := fun _ picture => picture
  typing := fun _ _ _ scratch => scratch

/-- After 1001 milliseconds and another 2^32 - 991 the counter is at 10. -/
theorem counter_wrap_breaks :
    ¬ TimeoutIsFinal boardEffects
      (rgbMatrixInit board none () (fun _ => .off) (fun _ => .off))
      [.task ⟨1001, 1001, 1001⟩, .task ⟨10, 10, 10⟩] := by
  intro final
  have dark := final [] ⟨1001, 1001, 1001⟩ [] ⟨10, 10, 10⟩ (by simp) (by simp) (by decide)
  revert dark
  decide

end QmkSonix.RgbMatrix
