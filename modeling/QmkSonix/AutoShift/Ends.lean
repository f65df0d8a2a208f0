import QmkSonix.AutoShift.Model

/-! What the functions of Auto Shift do to the pending key, to the shifts they have removed
and to the real modifiers. -/

namespace QmkSonix.AutoShift

variable {World : Type*} {cfg : Config} {host : Host World} {s after : State World}
  {keycode now : BitVec 16}

/-! ### Shifts -/

theorem leftShift_bit : ∀ mods : BitVec 8, mods &&& leftShift ≠ 0 ↔ mods.getLsbD 1 = true := by
  decide +kernel

theorem rightShift_bit : ∀ mods : BitVec 8,
    (if mods &&& leftShift ≠ 0 then mods &&& ~~~leftShift else mods) &&& rightShift ≠ 0 ↔
      mods.getLsbD 5 = true := by
  decide +kernel

/-- Both shifts are removed and marked. -/
theorem cancelShifts_eq (s : State World) :
    cancelShifts s = { s with
      cancellingLshift := s.cancellingLshift || s.mods.getLsbD 1
      cancellingRshift := s.cancellingRshift || s.mods.getLsbD 5
      mods := s.mods &&& ~~~(leftShift ||| rightShift) } := by
  have mods : ∀ mods : BitVec 8,
      (if mods.getLsbD 5 then (if mods.getLsbD 1 then mods &&& ~~~leftShift else mods) &&& ~~~rightShift
        else if mods.getLsbD 1 then mods &&& ~~~leftShift else mods) =
        mods &&& ~~~(leftShift ||| rightShift) := by
    decide +kernel
  have left := leftShift_bit s.mods
  have right := rightShift_bit s.mods
  rw [← mods s.mods]
  unfold cancelShifts
  by_cases isLeft : s.mods &&& leftShift ≠ 0
  · rw [if_pos isLeft] at right
    rw [if_pos isLeft, left.mp isLeft]
    by_cases isRight : s.mods &&& ~~~leftShift &&& rightShift ≠ 0
    · rw [right.mp isRight]
      dsimp only
      rw [if_pos isRight]
      simp
    · rw [Bool.eq_false_iff.mpr (mt right.mpr isRight)]
      dsimp only
      rw [if_neg isRight]
      simp
  · rw [if_neg isLeft] at right
    rw [if_neg isLeft, Bool.eq_false_iff.mpr (mt left.mpr isLeft)]
    by_cases isRight : s.mods &&& rightShift ≠ 0
    · rw [right.mp isRight]
      dsimp only
      rw [if_pos isRight]
      simp
    · rw [Bool.eq_false_iff.mpr (mt right.mpr isRight)]
      dsimp only
      rw [if_neg isRight]
      simp

/-- The bits that a flush gives back. -/
def State.cancelled (s : State World) : BitVec 8 :=
  (if s.cancellingLshift then leftShift else 0) ||| (if s.cancellingRshift then rightShift else 0)

/-- A flush gives the removed shifts back, and keeps the rest. -/
theorem flushShift_eq (host : Host World) (s : State World) :
    ∃ world, flushShift host s = { s with
      holdingShift := false
      cancellingLshift := false
      cancellingRshift := false
      mods := s.mods ||| s.cancelled
      world := world } := by
  unfold flushShift State.cancelled
  cases left : s.cancellingLshift <;> cases right : s.cancellingRshift <;>
    exact ⟨_, by simp [BitVec.or_assoc]; rfl⟩

/-- The modifiers behind the removal and the return of the shifts. -/
theorem restored_mods : ∀ mods : BitVec 8, ∀ left right : Bool,
    (mods &&& ~~~(leftShift ||| rightShift)) |||
        ((if left || mods.getLsbD 1 then leftShift else 0) |||
          (if right || mods.getLsbD 5 then rightShift else 0)) =
      mods ||| ((if left then leftShift else 0) ||| (if right then rightShift else 0)) := by
  decide +kernel

/-! ### The end of the pending key -/

/-- The pending key is decided, typed and released, and the shifts are back. -/
structure Decides (s after : State World) (now : BitVec 16) : Prop where
  calls : after.calls =
    s.calls ++ [(s.lastkey, s.lastshifted || decide (s.timeout ≤ now - s.time))]
  rests : after.inProgress = false
  lastkey : after.lastkey = s.lastkey
  enabled : after.enabled = s.enabled
  timeout : after.timeout = s.timeout
  oneshotMods : after.oneshotMods = s.oneshotMods
  mods : after.mods = s.mods ||| s.cancelled
  left : after.cancellingLshift = false
  right : after.cancellingRshift = false

theorem autoshiftEnd_decides (host : Host World) {matrixTrigger : Bool} (pending : s.inProgress = true)
    (same : keycode = s.lastkey ∨ keycode = kcNo)
    (releases : ¬(cfg.autoShiftRepeat = true ∧ ¬cfg.autoShiftNoAutoRepeat = true ∧
      matrixTrigger = true)) :
    Decides s (autoshiftEnd cfg host s keycode now matrixTrigger) now := by
  unfold autoshiftEnd
  rw [if_pos ⟨pending, same⟩]
  dsimp only
  rw [if_neg releases]
  generalize flushed : releaseUser host (pressUser host (cancelShifts
    (({ s with inProgress := false, lastshifted := s.lastshifted || decide (s.timeout ≤ now - s.time) } :
      State World).setShiftState s.lastkey (s.lastshifted || decide (s.timeout ≤ now - s.time))))
    s.lastkey (s.lastshifted || decide (s.timeout ≤ now - s.time))) s.lastkey
    (s.lastshifted || decide (s.timeout ≤ now - s.time)) = typed
  obtain ⟨world, flush⟩ := flushShift_eq host typed
  rw [flush, ← flushed, cancelShifts_eq]
  refine ⟨rfl, rfl, rfl, rfl, rfl, rfl, ?_, rfl, rfl⟩
  exact restored_mods s.mods s.cancellingLshift s.cancellingRshift

/-- A key that repeats is typed, and its shifts stay away. -/
structure Repeats (s after : State World) : Prop where
  rests : after.inProgress = false
  lastkey : after.lastkey = s.lastkey
  enabled : after.enabled = s.enabled
  mods : after.mods = s.mods &&& ~~~(leftShift ||| rightShift)
  left : after.cancellingLshift = (s.cancellingLshift || s.mods.getLsbD 1)
  right : after.cancellingRshift = (s.cancellingRshift || s.mods.getLsbD 5)

theorem autoshiftEnd_repeats (host : Host World) (pending : s.inProgress = true)
    (same : keycode = s.lastkey ∨ keycode = kcNo) (again : cfg.autoShiftRepeat = true)
    (auto : ¬cfg.autoShiftNoAutoRepeat = true) :
    Repeats s (autoshiftEnd cfg host s keycode now true) := by
  unfold autoshiftEnd
  rw [if_pos ⟨pending, same⟩]
  dsimp only
  rw [if_pos ⟨again, auto, rfl⟩, cancelShifts_eq]
  exact ⟨rfl, rfl, rfl, rfl, rfl, rfl⟩

/-- The release of a key that has been typed. -/
structure Releases (s after : State World) (keycode now : BitVec 16) : Prop where
  calls : after.calls = s.calls
  inProgress : after.inProgress = s.inProgress
  lastkey : after.lastkey = s.lastkey
  lastshifted : after.lastshifted = s.lastshifted
  enabled : after.enabled = s.enabled
  timeout : after.timeout = s.timeout
  time : after.time = now
  shifts : if keycode = s.lastkey then
      after.mods = s.mods ||| s.cancelled ∧ after.cancellingLshift = false ∧
        after.cancellingRshift = false
    else
      after.mods = s.mods ∧ after.cancellingLshift = s.cancellingLshift ∧
        after.cancellingRshift = s.cancellingRshift

theorem autoshiftEnd_releases (host : Host World) {matrixTrigger : Bool}
    (typed : ¬(s.inProgress = true ∧ (keycode = s.lastkey ∨ keycode = kcNo))) :
    Releases s (autoshiftEnd cfg host s keycode now matrixTrigger) keycode now := by
  unfold autoshiftEnd
  rw [if_neg typed]
  dsimp only
  by_cases last : keycode = s.lastkey
  · obtain ⟨world, flush⟩ :=
      flushShift_eq host (releaseUser host s keycode (s.getShiftState keycode))
    rw [if_pos last, flush]
    exact ⟨rfl, rfl, rfl, rfl, rfl, rfl, rfl, by rw [if_pos last]; exact ⟨rfl, rfl, rfl⟩⟩
  · rw [if_neg last]
    exact ⟨rfl, rfl, rfl, rfl, rfl, rfl, rfl, by rw [if_neg last]; exact ⟨rfl, rfl, rfl⟩⟩

/-! ### The settings -/

/-- The keycodes for the settings keep the pending key and the modifiers, or give the
removed shifts back. -/
structure Sets (s after : State World) (keycode : BitVec 16) : Prop where
  calls : after.calls = s.calls
  inProgress : after.inProgress = s.inProgress
  lastkey : after.lastkey = s.lastkey
  oneshotMods : after.oneshotMods = s.oneshotMods
  shifts : (after.mods = s.mods ∧ after.cancellingLshift = s.cancellingLshift ∧
        after.cancellingRshift = s.cancellingRshift ∧
        (after.enabled = s.enabled ∨ after.enabled = true) ∧
        ¬(keycode = kcAstg ∨ keycode = kcAsoff)) ∨
      (after.mods = s.mods ||| s.cancelled ∧ after.cancellingLshift = false ∧
        after.cancellingRshift = false)

theorem changeSettings_sets (host : Host World) (s : State World) (keycode : BitVec 16) :
    Sets s (changeSettings host s keycode) keycode := by
  have flush (enabled : Bool) : Sets s (flushShift host { s with enabled := enabled }) keycode := by
    obtain ⟨world, flush⟩ := flushShift_eq host { s with enabled := enabled }
    rw [flush]
    exact ⟨rfl, rfl, rfl, rfl, .inr ⟨rfl, rfl, rfl⟩⟩
  unfold changeSettings
  split_ifs with toggles on off up down reports
  · exact flush _
  · exact ⟨rfl, rfl, rfl, rfl, .inl ⟨rfl, rfl, rfl, .inr rfl, by rw [on]; decide⟩⟩
  · exact flush _
  all_goals exact ⟨rfl, rfl, rfl, rfl, .inl ⟨rfl, rfl, rfl, .inl rfl, not_or.mpr ⟨toggles, off⟩⟩⟩

/-! ### Key events -/

theorem processAction_keeps (host : Host World) (s : State World) (keycode : BitVec 16)
    (pressed : Bool) :
    ∃ mods oneshotMods world, processAction host s keycode pressed =
      { s with mods := mods, oneshotMods := oneshotMods, world := world } := by
  unfold processAction
  split
  · exact ⟨_, s.oneshotMods, _, rfl⟩
  · exact ⟨_, _, _, rfl⟩

theorem forgetShift_keeps (s : State World) (key : BitVec 16) :
    ∃ left right, forgetShift s key =
      { s with cancellingLshift := left, cancellingRshift := right } := by
  unfold forgetShift
  split_ifs
  · exact ⟨_, s.cancellingRshift, rfl⟩
  · exact ⟨s.cancellingLshift, _, rfl⟩
  · exact ⟨s.cancellingLshift, s.cancellingRshift, rfl⟩

/-- A press settles the previous key and the settings first. -/
theorem step_press (s : State World) (now : Nat) (key : BitVec 16) :
    step cfg host s (.key now key true) =
      let set := changeSettings host (settle cfg host s (BitVec.ofNat 16 now)) key
      if isRetro key then processAction host { set with lastkey := kcNo } key true
      else if set.enabled = false then processAction host set key true
      else if cfg.getAutoShiftedKey key = true then
        autoshiftPress cfg host set key (BitVec.ofNat 16 now)
      else processAction host { set with lastkey := kcNo } key true := by
  unfold step processAutoShift processPress
  dsimp only
  rw [if_pos rfl]
  by_cases retro : isRetro key
  · simp [retro]
  · cases enabled : (changeSettings host (settle cfg host s (BitVec.ofNat 16 now)) key).enabled with
    | false => simp [retro]
    | true =>
      by_cases auto : cfg.getAutoShiftedKey key = true
      · simp [retro, auto]
      · simp [retro, auto]

theorem step_release_retro (s : State World) (now : Nat) {key : BitVec 16} (retro : isRetro key) :
    step cfg host s (.key now key false) =
      processAction host (if s.inProgress = true ∧ cfg.ignoreModTapInterrupt = false then
        autoshiftEnd cfg host s kcNo (BitVec.ofNat 16 now) false else s) key false := by
  simp [step, processAutoShift, processRelease, retro]

theorem step_release_auto {s : State World} (now : Nat) {key : BitVec 16} (plain : ¬isRetro key)
    (enabled : s.enabled = true) (auto : cfg.getAutoShiftedKey key = true) :
    step cfg host s (.key now key false) =
      autoshiftEnd cfg host (forgetShift s key) key (BitVec.ofNat 16 now) false := by
  have still : (forgetShift s key).enabled = true := by
    obtain ⟨left, right, forgets⟩ := forgetShift_keeps s key
    rw [forgets]
    exact enabled
  simp [step, processAutoShift, processRelease, plain, still, auto]

theorem step_release_other (s : State World) (now : Nat) {key : BitVec 16} (plain : ¬isRetro key)
    (other : ¬(s.enabled = true ∧ cfg.getAutoShiftedKey key = true)) :
    step cfg host s (.key now key false) = processAction host (forgetShift s key) key false := by
  have still : (forgetShift s key).enabled = s.enabled := by
    obtain ⟨left, right, forgets⟩ := forgetShift_keeps s key
    rw [forgets]
  cases enabled : s.enabled with
  | false => simp [step, processAutoShift, processRelease, plain, still, enabled]
  | true =>
    have manual : cfg.getAutoShiftedKey key = false :=
      Bool.eq_false_iff.mpr fun auto => other ⟨enabled, auto⟩
    simp [step, processAutoShift, processRelease, plain, still, enabled, manual]

end QmkSonix.AutoShift
