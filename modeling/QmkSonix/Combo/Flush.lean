import QmkSonix.Lib.Run
import QmkSonix.Combo.Stale

/-! When `combo_task` flushes the keys that wait for a combo. One variable holds both
the time of a press and, as 0, that no timer runs. -/

namespace QmkSonix.Combo

open Lib

variable {cfg : Config} {World : Type*} (host : Host World)

/-- `process_combo` behind its loop; with `COMBO_STRICT_TIMER` the timer is set on the
first key only. -/
def settleKeyTimed (strict : Bool) (now : BitVec 16) (s : State cfg World) (keycode : BitVec 16)
    (record : Record) (isComboKey : Bool) : State cfg World :=
  if record.pressed && isComboKey then
    { s with
      timer := if strict && s.timer ≠ 0 then s.timer else now
      keyBuffer :=
        if s.keyBuffer.length < cfg.comboKeyBufferLength then
          s.keyBuffer ++ [{ record := record, keycode := keycode }]
        else s.keyBuffer }
  else if s.comboBufferRead ≠ s.comboBufferWrite then applyCombos host s
  else clearCombos { dumpKeyBuffer host s with timer := 0 }

/-- `process_combo` of either build, with its return value. -/
def processComboTimed (strict : Bool) (now : BitVec 16) (s : State cfg World) (keycode : BitVec 16)
    (record : Record) : State cfg World × Bool :=
  if keycode = cmbOn ∧ record.pressed then (comboEnable s, true)
  else if keycode = cmbOff ∧ record.pressed then (comboDisable host s, true)
  else if keycode = cmbTog ∧ record.pressed then (comboToggle host s, true)
  else
    let looped := processCombosFrom host now keycode record (List.range cfg.keyCombos.length) s
    (settleKeyTimed host strict now looped.1 keycode record looped.2, !looped.2)

/-- Calls of `combo_task`, by the times at which they are made. -/
def tick (s : State cfg World) (call : Nat) : State cfg World :=
  comboTask host (BitVec.ofNat 16 call) s

section Flushing

variable {host} {s : State cfg World}

theorem processComboTimed_false (now : BitVec 16) (s : State cfg World) (keycode : BitVec 16)
    (record : Record) :
    processComboTimed host false now s keycode record = processCombo host now s keycode record := by
  simp [processComboTimed, processCombo, settleKeyTimed, settleKey]

/-! ### The loop over the combos -/

/-- What the loop over the combos leaves alone. -/
structure Untimed (s after : State cfg World) : Prop where
  timer : after.timer = s.timer
  comboEnabled : after.comboEnabled = s.comboEnabled
  keyBuffer : after.keyBuffer = s.keyBuffer

theorem Untimed.refl (s : State cfg World) : Untimed s s := ⟨rfl, rfl, rfl⟩

theorem Untimed.trans {after later : State cfg World} (first : Untimed s after)
    (second : Untimed after later) : Untimed s later where
  timer := second.timer.trans first.timer
  comboEnabled := second.comboEnabled.trans first.comboEnabled
  keyBuffer := second.keyBuffer.trans first.keyBuffer

theorem untimed_dropFrom (comboIndex steps i : Nat) (s : State cfg World) :
    Untimed s (dropFrom comboIndex steps i s) := by
  induction steps generalizing i with
  | zero => exact Untimed.refl s
  | succ steps ih =>
    rw [dropFrom]
    split
    · exact Untimed.refl s
    · split
      · split
        · exact ⟨rfl, rfl, rfl⟩
        · exact ⟨rfl, rfl, rfl⟩
      · exact ih _

theorem untimed_dropOverlaps (comboIndex steps i : Nat) (s : State cfg World) :
    Untimed s (dropOverlaps comboIndex steps i s).1 := by
  induction steps generalizing i s with
  | zero => exact Untimed.refl s
  | succ steps ih =>
    have disables (drop : Nat) : Untimed s (disableCombo s drop) := ⟨rfl, rfl, rfl⟩
    unfold dropOverlaps
    split
    · exact Untimed.refl s
    dsimp only
    split
    · exact ih _ s
    · next drop _ =>
      split
      · exact disables drop
      · split
        · refine Untimed.trans ?_ (ih _ _)
          exact ⟨rfl, rfl, rfl⟩
        · exact (disables drop).trans (ih _ _)

theorem untimed_readyCombo (now : BitVec 16) (s : State cfg World) (comboIndex : Nat) :
    Untimed s (readyCombo now s comboIndex) := by
  have dropped := untimed_dropOverlaps comboIndex cfg.comboBufferLength s.comboBufferRead s
  unfold readyCombo
  split
  · exact ⟨rfl, rfl, rfl⟩
  · dsimp only
    split
    · exact dropped
    · exact dropped.trans ⟨rfl, rfl, rfl⟩

theorem untimed_pressComboKey (now : BitVec 16) (s : State cfg World)
    (comboIndex keyIndex keyCount : Nat) :
    Untimed s (pressComboKey now s comboIndex keyIndex keyCount) := by
  have pressed : Untimed s (keyPressed s comboIndex keyIndex) := by
    unfold keyPressed
    split
    · exact Untimed.refl s
    · exact ⟨rfl, rfl, rfl⟩
  rw [pressComboKey_eq]
  split
  · exact pressed.trans (untimed_readyCombo now _ comboIndex)
  · exact pressed

theorem untimed_releaseComboKey (now : BitVec 16) (s : State cfg World)
    (comboIndex keyIndex keyCount : Nat) :
    Untimed s (releaseComboKey host now s comboIndex keyIndex keyCount).1 := by
  unfold releaseComboKey
  dsimp only
  split
  · split
    · exact (untimed_dropFrom comboIndex cfg.comboBufferLength s.comboBufferRead s).trans
        ⟨rfl, rfl, rfl⟩
    · exact ⟨rfl, rfl, rfl⟩
  · split
    · exact ⟨rfl, rfl, rfl⟩
    · split
      · exact ⟨rfl, rfl, rfl⟩
      · exact ⟨rfl, rfl, rfl⟩

theorem untimed_processSingleCombo (now : BitVec 16) (s : State cfg World) (keycode : BitVec 16)
    (record : Record) (comboIndex : Nat) :
    Untimed s (processSingleCombo host now s keycode record comboIndex).1 := by
  rcases processSingleCombo_cases host now s keycode record comboIndex with
    same | ⟨keyIndex, -, ⟨-, same⟩ | ⟨-, same⟩⟩ <;> rw [same]
  · exact Untimed.refl s
  · exact untimed_pressComboKey now s comboIndex keyIndex _
  · exact untimed_releaseComboKey now s comboIndex keyIndex _

theorem untimed_processCombosFrom (host : Host World) (now keycode : BitVec 16) (record : Record) (indices : List Nat)
    (s : State cfg World) :
    Untimed s (processCombosFrom host now keycode record indices s).1 := by
  induction indices generalizing s with
  | nil => exact Untimed.refl s
  | cons index rest ih =>
    exact (untimed_processSingleCombo now s keycode record index).trans (ih _)

/-! ### A press that is buffered -/

/-- What a press leaves for `combo_task` when a combo takes its key. -/
theorem processComboTimed_buffers {strict : Bool} {now keycode : BitVec 16} {record : Record}
    (pressed : record.pressed)
    (taken : (processComboTimed host strict now s keycode record).2 = false)
    (room : s.keyBuffer.length < cfg.comboKeyBufferLength) :
    (processComboTimed host strict now s keycode record).1.timer =
        (if strict && s.timer ≠ 0 then s.timer else now) ∧
      (processComboTimed host strict now s keycode record).1.comboEnabled = s.comboEnabled ∧
      (processComboTimed host strict now s keycode record).1.keyBuffer ≠ [] := by
  have looped := untimed_processCombosFrom host now keycode record
    (List.range cfg.keyCombos.length) s
  unfold processComboTimed at taken ⊢
  split at taken
  · cases taken
  · split at taken
    · cases taken
    · split at taken
      · cases taken
      · next notOn notOff notTog =>
        rw [if_neg notOn, if_neg notOff, if_neg notTog]
        have isComboKey : (processCombosFrom host now keycode record
            (List.range cfg.keyCombos.length) s).2 = true := by
          simpa using taken
        simp [settleKeyTimed, pressed, isComboKey, looped.timer, looped.comboEnabled,
          looped.keyBuffer, room]

/-! ### Calls of `combo_task` -/

theorem comboTask_waits {now : BitVec 16}
    (waits : s.timer = 0 ∨ ¬s.longestTerm < now - s.timer) : comboTask host now s = s := by
  refine if_neg ?_
  rintro ⟨-, running, expired⟩
  exact waits.elim running (· expired)

/-- A call that finds the term over leaves no key and no timer. -/
theorem comboTask_flushes (host : Host World) {now : BitVec 16} (enabled : s.comboEnabled) (running : s.timer ≠ 0)
    (expired : s.longestTerm < now - s.timer) :
    (comboTask host now s).keyBuffer = [] ∧ (comboTask host now s).timer = 0 := by
  rw [comboTask, if_pos ⟨enabled, running, expired⟩]
  split
  · exact ⟨rfl, rfl⟩
  · exact ⟨rfl, rfl⟩

theorem run_tick_of_stopped (stopped : s.timer = 0) (calls : List Nat) :
    run (tick host) s calls = s := by
  induction calls with
  | nil => rfl
  | cons call rest ih => rw [run_cons, tick, comboTask_waits (.inl stopped), ih]

/-- The keys are flushed by the first call that finds the term over, if a timer runs. -/
theorem run_tick_flushes_iff (enabled : s.comboEnabled) (waiting : s.keyBuffer ≠ [])
    (calls : List Nat) :
    (run (tick host) s calls).keyBuffer = [] ↔
      s.timer ≠ 0 ∧ ∃ call ∈ calls, s.longestTerm < BitVec.ofNat 16 call - s.timer := by
  by_cases stopped : s.timer = 0
  · rw [run_tick_of_stopped stopped]
    exact ⟨fun empty => absurd empty waiting, fun flushed => absurd stopped flushed.1⟩
  induction calls with
  | nil => simpa using waiting
  | cons call rest ih =>
    rw [run_cons, tick]
    by_cases expired : s.longestTerm < BitVec.ofNat 16 call - s.timer
    · obtain ⟨empty, idle⟩ := comboTask_flushes host enabled stopped expired
      rw [run_tick_of_stopped idle]
      exact ⟨fun _ => ⟨stopped, call, List.mem_cons_self, expired⟩, fun _ => empty⟩
    · rw [comboTask_waits (.inr expired), ih]
      simp [expired]

/-- Time since a press, on a timer that has not wrapped since. -/
theorem elapsed_of_unwrapped {pressedAt call : Nat} (later : pressedAt ≤ call)
    (unwrapped : call < pressedAt + 65536) :
    (BitVec.ofNat 16 call - BitVec.ofNat 16 pressedAt).toNat = call - pressedAt := by
  rw [BitVec.toNat_sub, BitVec.toNat_ofNat, BitVec.toNat_ofNat]
  omega

/-- Behind the term of the last press the keys are flushed exactly when the timer does
not read 0, for "no timer", at that press; with the strict timer, and an older press
timed, exactly when a call finds the term over on the older timer. -/
theorem buffer_flushed_iff (host : Host World) (strict : Bool) (s : State cfg World)
    (keycode : BitVec 16) (record : Record) (pressedAt late : Nat) (calls : List Nat)
    (enabled : s.comboEnabled) (pressed : record.pressed)
    (taken : (processComboTimed host strict (BitVec.ofNat 16 pressedAt) s keycode record).2 = false)
    (room : s.keyBuffer.length < cfg.comboKeyBufferLength) {term : Nat}
    (longest : (processComboTimed host strict (BitVec.ofNat 16 pressedAt) s keycode
      record).1.longestTerm.toNat = term)
    (waiting : ∀ call ∈ calls, pressedAt ≤ call ∧ call ≤ pressedAt + term)
    (expired : pressedAt + term < late) (unwrapped : late < pressedAt + 65536) :
    (run (tick host) (processComboTimed host strict (BitVec.ofNat 16 pressedAt) s keycode record).1
        (calls ++ [late])).keyBuffer = [] ↔
      if strict && s.timer ≠ 0 then
        ∃ call ∈ calls ++ [late], term < (BitVec.ofNat 16 call - s.timer).toNat
      else pressedAt % 65536 ≠ 0 := by
  obtain ⟨timed, kept, buffered⟩ := processComboTimed_buffers pressed taken room
  rw [run_tick_flushes_iff (kept.trans enabled) buffered, timed]
  simp only [BitVec.lt_def, longest]
  split
  · next older =>
    rw [Bool.and_eq_true, decide_eq_true_eq] at older
    exact and_iff_right older.2
  · have zero : BitVec.ofNat 16 pressedAt = 0 ↔ pressedAt % 65536 = 0 := by
      rw [← BitVec.toNat_inj]
      simp
    rw [ne_eq, zero]
    refine and_iff_left ⟨late, by simp, ?_⟩
    rw [elapsed_of_unwrapped (by omega) unwrapped]
    omega

end Flushing

/-- A combo of two keys, behind the press of the first of them. -/
def pairOfKeys : Config where
  keyCombos := [{ keys := [4, 5], keycode := 30 }]
  ringed := (by decide : 0 < 2 + 1 + 1)

/-- A key event at its place in the matrix. -/
def firstKey : Record where
  event := { key := { row := 0, col := 4 }, pressed := true, time := 1 }

theorem pair_flushed :
    7 % 65536 ≠ 0 ∧
      (run (tick deaf)
        (processComboTimed deaf true (BitVec.ofNat 16 7) (boot pairOfKeys ()) 4 firstKey).1
        ([20, 57] ++ [58])).keyBuffer = [] := by
  have longest : (processComboTimed deaf true (BitVec.ofNat 16 7) (boot pairOfKeys ()) 4
      firstKey).1.longestTerm.toNat = 50 := by decide +kernel
  refine ⟨by decide, ?_⟩
  rw [buffer_flushed_iff deaf true (boot pairOfKeys ()) 4 firstKey 7 58 [20, 57] rfl rfl
    (by decide +kernel) (by decide) longest (by decide) (by decide) (by decide)]
  decide

/-- A key pressed when the timer reads 0 stays in the buffer of either build. -/
theorem pair_never_flushed :
    (processComboTimed deaf false (BitVec.ofNat 16 65536) (boot pairOfKeys ()) 4
        firstKey).1.longestTerm = 50 ∧
      (run (tick deaf)
        (processComboTimed deaf false (BitVec.ofNat 16 65536) (boot pairOfKeys ()) 4 firstKey).1
        [65546, 65586, 65587, 131071]).keyBuffer ≠ [] ∧
      (run (tick deaf)
        (processComboTimed deaf true (BitVec.ofNat 16 65536) (boot pairOfKeys ()) 4 firstKey).1
        [65546, 65586, 65587, 131071]).keyBuffer ≠ [] := by
  decide +kernel

end QmkSonix.Combo
