import QmkSonix.KeyLock.Model
import QmkSonix.Lib.Run

/-! When key lock acts on one key at a time. -/

namespace QmkSonix.KeyLock

open QmkSonix.Lib

/-! ### The map of locked keys -/

section Map

variable {keyState : ℕ → BitVec 64} {code other : ℕ}

theorem keyArray_eq (fits : code < 256) : keyArray code = code / 64 := by
  unfold keyArray
  split_ifs <;> omega

theorem codeIndex_eq (fits : code < 256) : codeIndex code = code % 64 := by
  unfold codeIndex
  split_ifs <;> omega

theorem keyStateOf_iff (fits : code < 256) :
    keyStateOf keyState code = true ↔ Bitmap.Member keyState code := by
  rw [keyStateOf, decide_eq_true_iff, keyArray_eq fits, codeIndex_eq fits]
  exact Bitmap.and_twoPow_iff _ (Nat.mod_lt _ (by decide))

theorem member_setKeyState (fits : code < 256) :
    Bitmap.Member (setKeyState keyState code) other ↔
      other = code ∨ Bitmap.Member keyState other := by
  rw [setKeyState, keyArray_eq fits, codeIndex_eq fits]
  exact Bitmap.member_insert (by decide)

theorem member_unsetKeyState (fits : code < 256) :
    Bitmap.Member (unsetKeyState keyState code) other ↔
      other ≠ code ∧ Bitmap.Member keyState other := by
  rw [unsetKeyState, keyArray_eq fits, codeIndex_eq fits]
  exact Bitmap.member_erase (by decide)

end Map

/-! ### Keys that are locked by their own presses -/

/-- A keycode with a place in the map. -/
def Lockable (keycode : BitVec 16) : Prop := isStandardKeycode (translateKeycode keycode)

instance : DecidablePred Lockable := fun _ => inferInstanceAs (Decidable (isStandardKeycode _))

/-- The place of a keycode in the map. -/
def place (keycode : BitVec 16) : ℕ := (translateKeycode keycode).toNat

theorem place_eq_iff {first second : BitVec 16} :
    place first = place second ↔ translateKeycode first = translateKeycode second :=
  BitVec.toNat_inj

theorem Lockable.fits {keycode : BitVec 16} (lockable : Lockable keycode) :
    place keycode < 256 :=
  Nat.lt_succ_of_le (BitVec.le_def.mp lockable)

/-- The keycodes that are locked, each by its own presses, and whether the next press locks. -/
structure Locks where
  locked : BitVec 16 → Bool
  watching : Bool

def Locks.start : Locks where
  locked _ := false
  watching := false

/-- `KC_LOCK` turns the watch on and off, and every other press ends it; a press locks its
keycode if it is watched, and unlocks it if it is not. -/
def Locks.after (locks : Locks) (event : Event) : Locks :=
  if event.pressed then
    if event.keycode = kcLock then { locks with watching := !locks.watching }
    else
      { locked := if Lockable event.keycode then
          Function.update locks.locked event.keycode locks.watching else locks.locked
        watching := false }
  else locks

/-- The firmware, beside the keys that are locked by their own presses. -/
structure Watched where
  state : State
  locks : Locks

def Watched.start : Watched := ⟨.start, .start⟩

def step (watched : Watched) (event : Event) : Watched :=
  ⟨(processKeyLock watched.state event).state, watched.locks.after event⟩

/-- An event is masked for its own key's sake only, a locked key's release is masked, and
the keys that are locked by their own presses are locked in the map. -/
structure OneAtATime (watched : Watched) (event : Event) : Prop where
  masked : (processKeyLock watched.state event).continues = false → event.keycode ≠ kcLock →
    watched.locks.locked event.keycode = true
  release_masked : event.pressed = false → watched.locks.locked event.keycode = true →
    (processKeyLock watched.state event).continues = false
  stays : ∀ keycode, (watched.locks.after event).locked keycode = true →
    Bitmap.Member (processKeyLock watched.state event).state.keyState (place keycode)

/-- While another keycode with the same place in the map is locked, a keycode is pressed
only to be locked, and released only while it is locked too. -/
def Apart (watched : Watched) (event : Event) : Prop :=
  Lockable event.keycode → ∀ twin, twin ≠ event.keycode →
    place twin = place event.keycode → watched.locks.locked twin = true →
    if event.pressed then watched.locks.watching = true
    else watched.locks.locked event.keycode = true

/-- The map holds the places of the locked keycodes. -/
structure Mapped (watched : Watched) : Prop where
  watching : watched.state.watching = watched.locks.watching
  lockable : ∀ keycode, watched.locks.locked keycode = true → Lockable keycode
  places : ∀ keycode, Lockable keycode →
    (Bitmap.Member watched.state.keyState (place keycode) ↔
      ∃ twin, place twin = place keycode ∧ watched.locks.locked twin = true)

theorem mapped_start : Mapped .start where
  watching := rfl
  lockable keycode locked := absurd locked Bool.false_ne_true
  places keycode _ := by
    simp [Watched.start, State.start, Locks.start, Bitmap.Member]

section Steps

variable {watched : Watched} {event : Event}

theorem not_lockable_kcLock : ¬Lockable kcLock := by decide

/-! What `process_key_lock` does, by the kind of the event. -/

theorem process_release (up : event.pressed = false) :
    processKeyLock watched.state event = ⟨watched.state, event.keycode,
      !(isStandardKeycode (translateKeycode event.keycode) ∧
        keyStateOf watched.state.keyState (place event.keycode))⟩ := by
  simp only [processKeyLock, up, Bool.false_eq_true, ↓reduceIte]
  rfl

theorem process_kcLock (down : event.pressed = true) (lock : event.keycode = kcLock) :
    processKeyLock watched.state event =
      ⟨{ watched.state with watching := !watched.state.watching }, event.keycode, false⟩ := by
  have translated : translateKeycode kcLock = kcLock := by decide
  simp [processKeyLock, down, lock, translated]

theorem translate_eq_kcLock (keycode : BitVec 16) :
    translateKeycode keycode = kcLock ↔ keycode = kcLock := by
  unfold translateKeycode
  split
  · rename_i oneShot
    refine iff_of_false (fun folded => ?_) (fun lock => absurd (lock ▸ oneShot) (by decide))
    have unfolded : keycode = kcLock ^^^ qkOneShotMod := by
      rw [← folded, BitVec.xor_assoc, BitVec.xor_self, BitVec.xor_zero]
    exact absurd (unfolded ▸ oneShot) (by decide)
  · exact Iff.rfl

theorem Lockable.ne_kcLock {keycode : BitVec 16} (lockable : Lockable keycode) :
    keycode ≠ kcLock := by
  rintro rfl
  exact not_lockable_kcLock lockable

theorem process_other (down : event.pressed = true) (lock : event.keycode ≠ kcLock)
    (other : ¬Lockable event.keycode) :
    processKeyLock watched.state event =
      ⟨{ watched.state with watching := false }, event.keycode, true⟩ := by
  have foreign : ¬(isStandardKeycode (translateKeycode event.keycode) ∨
      translateKeycode event.keycode = kcLock) :=
    not_or.mpr ⟨other, (translate_eq_kcLock _).not.mpr lock⟩
  simp only [processKeyLock, down, foreign, not_false_eq_true, ↓reduceIte]

theorem process_watched (down : event.pressed = true) (lockable : Lockable event.keycode)
    (watching : watched.state.watching = true) :
    processKeyLock watched.state event =
      ⟨⟨setKeyState watched.state.keyState (place event.keycode), false⟩,
        translateKeycode event.keycode, true⟩ := by
  have lock := (translate_eq_kcLock _).not.mpr lockable.ne_kcLock
  have standard : isStandardKeycode (translateKeycode event.keycode) := lockable
  simp only [processKeyLock, down, standard, lock, watching, true_or, not_true_eq_false,
    ↓reduceIte, place]

theorem process_unwatched (down : event.pressed = true) (lockable : Lockable event.keycode)
    (unwatched : watched.state.watching = false) :
    processKeyLock watched.state event =
      if keyStateOf watched.state.keyState (place event.keycode) then
        ⟨{ watched.state with keyState := unsetKeyState watched.state.keyState (place event.keycode) },
          event.keycode, false⟩
      else ⟨watched.state, event.keycode, true⟩ := by
  have lock := (translate_eq_kcLock _).not.mpr lockable.ne_kcLock
  have standard : isStandardKeycode (translateKeycode event.keycode) := lockable
  simp only [processKeyLock, down, standard, lock, unwatched, true_or, not_true_eq_false,
    Bool.false_eq_true, ↓reduceIte, place]

theorem after_press (down : event.pressed = true) (lock : event.keycode ≠ kcLock) :
    watched.locks.after event =
      { locked := if Lockable event.keycode then
          Function.update watched.locks.locked event.keycode watched.locks.watching
          else watched.locks.locked
        watching := false } := by
  simp only [Locks.after, down, lock, ↓reduceIte]

/-! ### One event -/

/-- The key's place holds it, or a twin of it. -/
theorem Mapped.place_iff (mapped : Mapped watched) (lockable : Lockable event.keycode) :
    keyStateOf watched.state.keyState (place event.keycode) = true ↔
      watched.locks.locked event.keycode = true ∨
        ∃ twin, twin ≠ event.keycode ∧ place twin = place event.keycode ∧
          watched.locks.locked twin = true := by
  rw [keyStateOf_iff lockable.fits, mapped.places _ lockable]
  constructor
  · rintro ⟨twin, same, locked⟩
    by_cases itself : twin = event.keycode
    · exact .inl (itself ▸ locked)
    · exact .inr ⟨twin, itself, same, locked⟩
  · rintro (locked | ⟨twin, -, same, locked⟩)
    · exact ⟨event.keycode, rfl, locked⟩
    · exact ⟨twin, same, locked⟩

/-- What the map holds of locked keys. -/
theorem Mapped.holds (mapped : Mapped watched) {keycode : BitVec 16}
    (locked : watched.locks.locked keycode = true) :
    Bitmap.Member watched.state.keyState (place keycode) :=
  (mapped.places keycode (mapped.lockable keycode locked)).mpr ⟨keycode, rfl, locked⟩

theorem released_iff (mapped : Mapped watched) (up : event.pressed = false) :
    OneAtATime watched event ↔ Apart watched event := by
  have does := @process_release watched _ up
  have same : watched.locks.after event = watched.locks := by
    simp only [Locks.after, up, Bool.false_eq_true, ↓reduceIte]
  by_cases lockable : Lockable event.keycode
  · have continues : (processKeyLock watched.state event).continues = false ↔
        keyStateOf watched.state.keyState (place event.keycode) = true := by
      have standard : isStandardKeycode (translateKeycode event.keycode) := lockable
      rw [does]
      simp [standard, place]
    constructor
    · intro respects _ twin different sameplace locked
      rw [up, if_neg Bool.false_ne_true]
      exact respects.masked (continues.mpr ((mapped.place_iff lockable).mpr
        (.inr ⟨twin, different, sameplace, locked⟩))) lockable.ne_kcLock
    · intro apart
      refine ⟨fun masked _ => ?_, fun _ locked => ?_, fun keycode locked => ?_⟩
      · rcases (mapped.place_iff lockable).mp (continues.mp masked) with
          locked | ⟨twin, different, sameplace, locked⟩
        · exact locked
        · simpa [up] using apart lockable twin different sameplace locked
      · exact continues.mpr ((mapped.place_iff lockable).mpr (.inl locked))
      · rw [does]
        exact mapped.holds (same ▸ locked)
  · have unlocked : watched.locks.locked event.keycode ≠ true :=
      fun locked => lockable (mapped.lockable _ locked)
    have foreign : ¬isStandardKeycode (translateKeycode event.keycode) := lockable
    refine iff_of_true ⟨fun masked => ?_, fun _ locked => absurd locked unlocked,
      fun keycode locked => ?_⟩ fun standard => absurd standard lockable
    · rw [does] at masked
      simp [foreign] at masked
    · rw [does]
      exact mapped.holds (same ▸ locked)

/-- The keycodes locked behind the press of a lockable one. -/
theorem after_locked (down : event.pressed = true) (lockable : Lockable event.keycode)
    (keycode : BitVec 16) : (watched.locks.after event).locked keycode =
      if keycode = event.keycode then watched.locks.watching
      else watched.locks.locked keycode := by
  rw [after_press down lockable.ne_kcLock, if_pos lockable]
  exact Function.update_apply _ _ _ _

/-- No twin of a keycode is locked when it is pressed unwatched. -/
theorem Apart.alone (apart : Apart watched event) (down : event.pressed = true)
    (lockable : Lockable event.keycode) (unwatched : watched.locks.watching = false)
    {twin : BitVec 16} (sameplace : place twin = place event.keycode)
    (locked : watched.locks.locked twin = true) : twin = event.keycode := by
  by_contra different
  have watching := apart lockable twin different sameplace locked
  rw [if_pos down, unwatched] at watching
  exact Bool.false_ne_true watching

theorem unwatched_iff (mapped : Mapped watched) (down : event.pressed = true)
    (lockable : Lockable event.keycode) (unwatched : watched.locks.watching = false) :
    OneAtATime watched event ↔ Apart watched event := by
  have does := process_unwatched down lockable (mapped.watching.trans unwatched)
  have stillLocked {keycode : BitVec 16}
      (locked : (watched.locks.after event).locked keycode = true) :
      keycode ≠ event.keycode ∧ watched.locks.locked keycode = true := by
    rw [after_locked down lockable, unwatched] at locked
    by_cases itself : keycode = event.keycode
    · simp [itself] at locked
    · exact ⟨itself, by rwa [if_neg itself] at locked⟩
  by_cases held : keyStateOf watched.state.keyState (place event.keycode) = true
  · rw [if_pos held] at does
    have erased (keycode : BitVec 16) :
        Bitmap.Member (processKeyLock watched.state event).state.keyState (place keycode) ↔
          place keycode ≠ place event.keycode ∧
            Bitmap.Member watched.state.keyState (place keycode) := by
      rw [does]
      exact member_unsetKeyState lockable.fits
    constructor
    · intro respects _ twin different sameplace locked
      have kept := respects.stays twin (by rwa [after_locked down lockable, if_neg different])
      exact absurd sameplace ((erased twin).mp kept).1
    · intro apart
      refine ⟨fun _ _ => ?_, fun up => absurd (up.symm.trans down) Bool.false_ne_true,
        fun keycode locked => ?_⟩
      · rcases (mapped.place_iff lockable).mp held with locked | ⟨twin, different, sameplace, locked⟩
        · exact locked
        · exact absurd (apart.alone down lockable unwatched sameplace locked) different
      · obtain ⟨different, locked⟩ := stillLocked locked
        exact (erased keycode).mpr
          ⟨fun sameplace => different (apart.alone down lockable unwatched sameplace locked),
            mapped.holds locked⟩
  · rw [if_neg held] at does
    refine iff_of_true ⟨fun masked => ?_, fun up => absurd (up.symm.trans down) Bool.false_ne_true,
      fun keycode locked => ?_⟩ fun _ twin different sameplace locked => ?_
    · rw [does] at masked
      exact absurd masked (Ne.symm Bool.false_ne_true)
    · rw [does]
      exact mapped.holds (stillLocked locked).2
    · exact absurd ((mapped.place_iff lockable).mpr (.inr ⟨twin, different, sameplace, locked⟩)) held

theorem watched_iff (mapped : Mapped watched) (down : event.pressed = true)
    (lockable : Lockable event.keycode) (watching : watched.locks.watching = true) :
    OneAtATime watched event ↔ Apart watched event := by
  have does := process_watched down lockable (mapped.watching.trans watching)
  refine iff_of_true ⟨fun masked => ?_, fun up => absurd (up.symm.trans down) Bool.false_ne_true,
    fun keycode locked => ?_⟩ fun _ twin _ _ _ => ?_
  · rw [does] at masked
    exact absurd masked (Ne.symm Bool.false_ne_true)
  · rw [does]
    refine (member_setKeyState lockable.fits).mpr ?_
    by_cases itself : keycode = event.keycode
    · exact .inl (itself ▸ rfl)
    · rw [after_locked down lockable, if_neg itself] at locked
      exact .inr (mapped.holds locked)
  · rw [if_pos down]
    exact watching

theorem oneAtATime_iff (mapped : Mapped watched) :
    OneAtATime watched event ↔ Apart watched event := by
  cases down : event.pressed with
  | false => exact released_iff mapped down
  | true =>
    have notUp {up : Prop} (released : event.pressed = false) : up :=
      absurd (released.symm.trans down) Bool.false_ne_true
    by_cases lockable : Lockable event.keycode
    · cases watching : watched.locks.watching with
      | false => exact unwatched_iff mapped down lockable watching
      | true => exact watched_iff mapped down lockable watching
    · refine iff_of_true ?_ fun standard => absurd standard lockable
      by_cases lock : event.keycode = kcLock
      · have does := @process_kcLock watched _ down lock
        have later : (watched.locks.after event).locked = watched.locks.locked := by
          simp only [Locks.after, down, lock, ↓reduceIte]
        refine ⟨fun _ other => absurd lock other, notUp, fun keycode locked => ?_⟩
        rw [does]
        exact mapped.holds (later ▸ locked)
      · have does := @process_other watched _ down lock lockable
        refine ⟨fun masked => ?_, notUp, fun keycode locked => ?_⟩
        · rw [does] at masked
          exact absurd masked (Ne.symm Bool.false_ne_true)
        · rw [after_press down lock, if_neg lockable] at locked
          rw [does]
          exact mapped.holds locked

theorem mapped_watched (mapped : Mapped watched) (down : event.pressed = true)
    (lockable : Lockable event.keycode) (watching : watched.locks.watching = true) :
    Mapped (step watched event) := by
  have does := process_watched down lockable (mapped.watching.trans watching)
  have locked (keycode : BitVec 16) : (step watched event).locks.locked keycode =
      if keycode = event.keycode then true else watched.locks.locked keycode := by
    rw [← watching]
    exact after_locked down lockable keycode
  have unwatched : (step watched event).locks.watching = false := by
    rw [step, after_press down lockable.ne_kcLock]
  refine ⟨?_, fun keycode held => ?_, fun keycode inMap => ?_⟩
  · rw [unwatched, step, does]
  · rw [locked] at held
    by_cases itself : keycode = event.keycode
    · exact itself ▸ lockable
    · exact mapped.lockable keycode (by rwa [if_neg itself] at held)
  · have inserted : Bitmap.Member (step watched event).state.keyState (place keycode) ↔
        place keycode = place event.keycode ∨
          Bitmap.Member watched.state.keyState (place keycode) := by
      rw [step, does]
      exact member_setKeyState lockable.fits
    rw [inserted, mapped.places keycode inMap]
    constructor
    · rintro (sameplace | ⟨twin, sameplace, held⟩)
      · exact ⟨event.keycode, sameplace.symm, by rw [locked, if_pos rfl]⟩
      · refine ⟨twin, sameplace, ?_⟩
        rw [locked, held]
        exact ite_self true
    · rintro ⟨twin, sameplace, held⟩
      rw [locked] at held
      by_cases itself : twin = event.keycode
      · exact .inl (itself ▸ sameplace.symm)
      · exact .inr ⟨twin, sameplace, by rwa [if_neg itself] at held⟩

theorem mapped_unwatched (mapped : Mapped watched) (apart : Apart watched event)
    (down : event.pressed = true) (lockable : Lockable event.keycode)
    (unwatched : watched.locks.watching = false) : Mapped (step watched event) := by
  have does := process_unwatched down lockable (mapped.watching.trans unwatched)
  have locked (keycode : BitVec 16) : (step watched event).locks.locked keycode = true ↔
      keycode ≠ event.keycode ∧ watched.locks.locked keycode = true := by
    rw [step, after_locked down lockable, unwatched]
    by_cases itself : keycode = event.keycode
    · simp [itself]
    · simp [itself]
  have member {keycode : BitVec 16} (inMap : Lockable keycode) :
      Bitmap.Member (step watched event).state.keyState (place keycode) ↔
        place keycode ≠ place event.keycode ∧
          Bitmap.Member watched.state.keyState (place keycode) := by
    rw [step, does]
    by_cases held : keyStateOf watched.state.keyState (place event.keycode) = true
    · rw [if_pos held]
      exact member_unsetKeyState lockable.fits
    · rw [if_neg held]
      refine (and_iff_right_of_imp fun present sameplace => held ?_).symm
      exact (keyStateOf_iff lockable.fits).mpr (sameplace ▸ present)
  refine ⟨?_, fun keycode held => mapped.lockable keycode ((locked keycode).mp held).2,
    fun keycode inMap => ?_⟩
  · rw [step, does, after_press down lockable.ne_kcLock]
    split <;> exact mapped.watching.trans unwatched
  · rw [member inMap, mapped.places keycode inMap]
    constructor
    · rintro ⟨elsewhere, twin, sameplace, held⟩
      exact ⟨twin, sameplace, (locked twin).mpr
        ⟨fun itself => elsewhere (itself ▸ sameplace.symm), held⟩⟩
    · rintro ⟨twin, sameplace, held⟩
      obtain ⟨different, held⟩ := (locked twin).mp held
      exact ⟨fun here => different (apart.alone down lockable unwatched (sameplace.trans here) held),
        twin, sameplace, held⟩

/-- The map goes on to hold the places of the locked keycodes while twins are kept apart. -/
theorem mapped_step (mapped : Mapped watched) (apart : Apart watched event) :
    Mapped (step watched event) := by
  cases down : event.pressed with
  | false =>
    have same : step watched event = watched := by
      simp only [step, process_release down, Locks.after, down, Bool.false_eq_true, ↓reduceIte]
    rw [same]
    exact mapped
  | true =>
    by_cases lock : event.keycode = kcLock
    · have does := @process_kcLock watched _ down lock
      have later : watched.locks.after event =
          { watched.locks with watching := !watched.locks.watching } := by
        simp only [Locks.after, down, lock, ↓reduceIte]
      rw [step, does, later]
      exact ⟨congrArg (! ·) mapped.watching, mapped.lockable, mapped.places⟩
    · by_cases lockable : Lockable event.keycode
      · cases watching : watched.locks.watching with
        | false => exact mapped_unwatched mapped apart down lockable watching
        | true => exact mapped_watched mapped down lockable watching
      · have does := @process_other watched _ down lock lockable
        rw [step, does, after_press down lock, if_neg lockable]
        exact ⟨rfl, mapped.lockable, mapped.places⟩

end Steps

/-- In a run from the start every event acts on its own key alone exactly when no event of
a keycode comes at a time when a twin of it, another keycode with its place in the map, is
locked and it is neither pressed to be locked nor released locked. -/
theorem one_at_a_time_iff (events : List Event) :
    Along step OneAtATime .start events ↔ Along step Apart .start events := by
  have keeps (watched : Watched) (event : Event) (mapped : Mapped watched)
      (alone : OneAtATime watched event) : Mapped (step watched event) :=
    mapped_step mapped ((oneAtATime_iff mapped).mp alone)
  exact along_congr keeps (fun _ _ mapped => oneAtATime_iff mapped) mapped_start events

/-- `KC_A` is locked, and the one-shot Alt key, which is `KC_A` under the translation, is
pressed. -/
theorem one_shot_unlocks_letter :
    ¬Along step OneAtATime .start [⟨kcLock, true⟩, ⟨0x04, true⟩, ⟨0x04, false⟩, ⟨0x5504, true⟩] := by
  rintro ⟨-, -, -, unlocks, -⟩
  exact absurd (unlocks.masked (by decide) (by decide)) (by decide)

end QmkSonix.KeyLock
