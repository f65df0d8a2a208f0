import QmkSonix.Audio.Refinement

/-! `AUDIO_ENABLE_TONE_MULTIPLEXING`: the shift of the tones is computed in an update from a rate
and the number of tones, and used with the number of tones at a later time. -/

namespace QmkSonix.Audio

open QmkSonix.Lib

variable {cfg : Config} {simultaneous : ℕ}

section Definitions

/-- Every tone index is mapped to an active tone. -/
def InBounds (cfg : Config) (state : State) : Prop :=
  ∀ toneIndex, ∀ index ∈ processedIndex cfg state toneIndex,
    0 ≤ index ∧ index < state.activeTones

instance (state : State) (toneIndex : BitVec 8) :
    Decidable (∀ index ∈ processedIndex cfg state toneIndex,
      0 ≤ index ∧ index < state.activeTones) :=
  match processedIndex cfg state toneIndex with
  | none => isTrue fun _ none => nomatch none
  | some index =>
    decidable_of_iff (0 ≤ index ∧ index < state.activeTones) (by simp)

/-- What an update divides by. -/
def divisors (cfg : Config) (state : State) (reads : Reads) : List ℕ :=
  match cfg.simultaneousTones with
  | none => []
  | some simultaneous =>
    let (melody, turn) := advanceMelody cfg state.melody reads
    let state := takeTurn cfg { state with melody := melody } turn reads
    if turn ≠ .ends ∧ state.playingNote then
      [state.multiplexingRate.toNat, min simultaneous state.activeTones]
    else []

/-- An event divides by nothing that is zero, and leaves the tones in bounds. -/
def WellDefined (cfg : Config) (state : State) (event : Event) : Prop :=
  (∀ reads, event = .update reads → 0 ∉ divisors cfg state reads) ∧
    InBounds cfg (step cfg state event)

/-- The number of tones behind a play of a pitch -/
def countBehind (cfg : Config) (state : State) (pitch : ℚ) : ℕ :=
  if ∃ tone ∈ state.stack, tone.pitch = unsigned pitch then state.activeTones
  else min (state.activeTones + 1) cfg.stackSize

/-- An update with a note finds a rate to divide by, and a play or a melody leaves at least as
many tones as the shift. -/
def Careful (cfg : Config) (simultaneous : ℕ) (state : State) : Event → Prop
  | .update reads =>
    match (advanceMelody cfg state.melody reads).2 with
    | .ends => True
    | .stays => state.playingNote → state.multiplexingRate ≠ 0 ∧ simultaneous ≠ 0
    | .plays _ _ => state.multiplexingRate ≠ 0 ∧ simultaneous ≠ 0
  | .playNote pitch _ _ => state.indexShift ≤ countBehind cfg state pitch
  | .playMelody .. => state.indexShift ≤ 1
  | _ => True

end Definitions

section Index

/-- The arithmetic of the index stays within its 8 bits. -/
theorem toInt_shifted {index shift : ℕ} (small : index ≤ 127) (fits : shift ≤ 128) :
    (BitVec.ofNat 8 index - BitVec.ofNat 8 shift).toInt = (index : ℤ) - shift := by
  rw [BitVec.toInt_sub, BitVec.toInt_ofNat', BitVec.toInt_ofNat', Int.bmod_sub_bmod,
    Int.sub_bmod_bmod]
  exact Int.bmod_eq_of_le (by norm_num; omega) (by norm_num; omega)

theorem toInt_wrapped {index shift active : ℕ} (small : index < active) (few : active ≤ 128)
    (fits : shift ≤ 128) (negative : (index : ℤ) - shift < 0) :
    (BitVec.ofNat 8 index - BitVec.ofNat 8 shift + BitVec.ofNat 8 active).toInt =
      (index : ℤ) - shift + active := by
  rw [BitVec.toInt_add, toInt_shifted (by omega) fits, BitVec.toInt_ofNat', Int.add_bmod_bmod]
  exact Int.bmod_eq_of_le (by norm_num; omega) (by norm_num; omega)

theorem inBounds_iff (multiplexing : cfg.simultaneousTones = some simultaneous) {state : State}
    (few : state.activeTones ≤ 128) (fits : state.indexShift ≤ 128) :
    InBounds cfg state ↔ state.activeTones = 0 ∨ state.indexShift ≤ state.activeTones := by
  have index (toneIndex : BitVec 8) (below : toneIndex.toNat < state.activeTones) :
      processedIndex cfg state toneIndex =
        some (if (state.activeTones - toneIndex.toNat - 1 : ℕ) < (state.indexShift : ℤ) then
          ((state.activeTones - toneIndex.toNat - 1 : ℕ) : ℤ) - state.indexShift + state.activeTones
        else (state.activeTones - toneIndex.toNat - 1 : ℕ) - state.indexShift) := by
    have shifted : (BitVec.ofNat 8 (state.activeTones - toneIndex.toNat - 1) -
        BitVec.ofNat 8 state.indexShift).toInt = _ := toInt_shifted (by omega) fits
    simp only [processedIndex, if_neg (not_le.mpr below), multiplexing, Option.isSome_some, if_true,
      shifted, Option.some.injEq]
    by_cases early : (state.activeTones - toneIndex.toNat - 1 : ℕ) < (state.indexShift : ℤ)
    · rw [if_pos (by omega), if_pos early]
      exact toInt_wrapped (by omega) few fits (by omega)
    · rw [if_neg (by omega), if_neg early]
      exact shifted
  constructor
  · intro bounds
    by_contra outside
    rw [not_or] at outside
    -- the oldest tone is looked up in front of the first entry
    have oldest : (BitVec.ofNat 8 (state.activeTones - 1)).toNat = state.activeTones - 1 := by
      rw [BitVec.toNat_ofNat]
      exact Nat.mod_eq_of_lt (by omega)
    have below := (bounds (BitVec.ofNat 8 (state.activeTones - 1)) _
      (index _ (by omega))).1
    rw [oldest] at below
    split at below <;> omega
  · intro inside toneIndex place found
    by_cases below : toneIndex.toNat < state.activeTones
    · rw [index toneIndex below, Option.mem_some_iff] at found
      split at found <;> omega
    · rw [processedIndex, if_pos (not_lt.mp below)] at found
      cases found

end Index

section Invariant

/-- The shift is at most the number of tones, wherever there are some. -/
def ShiftFits (state : State) : Prop :=
  state.indexShift ≤ 128 ∧ (state.activeTones = 0 ∨ state.indexShift ≤ state.activeTones)

/-- The state of a keyboard whose audio is on -/
structure Multiplexed (cfg : Config) (state : State) : Prop where
  coherent : Coherent cfg state
  enabled : state.enable = true
  fits : ShiftFits state

theorem shiftFits_of_le (small : cfg.stackSize ≤ 128) {state : State}
    (coherent : Coherent cfg state) (inside : state.indexShift ≤ state.activeTones) : ShiftFits state :=
  ⟨inside.trans (coherent.few.trans small), .inr inside⟩

/-- A play leaves the shift as it is, and the number of tones behind it counts. -/
theorem shiftFits_playNote {state : State} (multiplexed : Multiplexed cfg state) (pitch : ℚ)
    (duration timeStarted : BitVec 16) :
    ShiftFits (audioPlayNote cfg state pitch duration timeStarted) ↔
      state.indexShift ≤ countBehind cfg state pitch := by
  obtain ⟨coherent, enabled, bound, -⟩ := multiplexed
  have plays := played_audioPlayNote coherent enabled pitch duration timeStarted
  have count : (audioPlayNote cfg state pitch duration timeStarted).activeTones =
      countBehind cfg state pitch := by
    rw [← length_stack, plays.stack, length_replayed coherent.distinct (by simpa using coherent.few),
      length_stack]
    rfl
  have some : countBehind cfg state pitch ≠ 0 := by
    rw [← count]
    exact (plays.coherent.playing.mp plays.sounds).ne'
  rw [ShiftFits, plays.shift, count]
  simp [bound, some]

theorem shiftFits_stopTone (multiplexing : cfg.simultaneousTones = some simultaneous) {state : State}
    (multiplexed : Multiplexed cfg state) (pitch : ℚ) :
    ShiftFits (audioStopTone cfg state pitch) := by
  obtain ⟨coherent, -, bound, inside⟩ := multiplexed
  have stops := stopped_audioStopTone coherent pitch
  rcases stops.shift with ⟨count, shift⟩ | ⟨count, shift⟩
  · rw [ShiftFits, count, shift]
    exact ⟨bound, inside⟩
  · rw [multiplexing, Option.isSome_some, Bool.true_and] at shift
    rw [ShiftFits, shift]
    split
    · exact ⟨Nat.zero_le _, .inr (Nat.zero_le _)⟩
    · rename_i below
      rw [decide_eq_true_eq] at below
      exact ⟨bound, .inr (by omega)⟩

theorem shiftFits_stopAll {state : State} (multiplexed : Multiplexed cfg state) :
    ShiftFits (audioStopAll state) := by
  have silent := silenced_audioStopAll multiplexed.coherent
  have none := (stack_eq_nil_iff _).mp silent.stack
  exact ⟨silent.shift.trans_le multiplexed.fits.1, .inl none⟩

theorem shiftFits_playMelody {state : State} (multiplexed : Multiplexed cfg state) (song : Song)
    (notesRepeat : Bool) (timeStarted lastTimestamp : BitVec 16) :
    ShiftFits (audioPlayMelody cfg state song notesRepeat timeStarted lastTimestamp) ↔
      state.indexShift ≤ 1 := by
  obtain ⟨coherent, enabled, bound, -⟩ := multiplexed
  have starts := started_audioPlayMelody coherent enabled song notesRepeat timeStarted lastTimestamp
  have count := length_stack (audioPlayMelody cfg state song notesRepeat timeStarted lastTimestamp)
  rw [starts.stack, List.length_singleton] at count
  rw [ShiftFits, starts.shift, ← count]
  simp [bound]

/-- The notes of an update get a shift below their number, and keep one at most their number. -/
theorem shiftFits_updateTones (small : cfg.stackSize ≤ 128)
    (multiplexing : cfg.simultaneousTones = some simultaneous) {state : State}
    (coherent : Coherent cfg state) (reads : Reads) (playing : state.playingNote = true)
    (positive : simultaneous ≠ 0) : ShiftFits (updateTones cfg state reads) := by
  obtain ⟨kept, -⟩ := kept_updateTones coherent reads playing
  have some := coherent.playing.mp playing
  refine shiftFits_of_le small kept.coherent (kept.shift (by rw [multiplexing]; rfl) ?_)
  have shift : (updateShift cfg state reads.currentTime).indexShift < min simultaneous
      state.activeTones := by
    simp only [updateShift, multiplexing]
    exact Nat.mod_lt _ (by omega)
  obtain ⟨-, count, -⟩ := same_updateShift cfg state reads.currentTime
  rw [count]
  omega

theorem divisors_of_playing (multiplexing : cfg.simultaneousTones = some simultaneous) {state : State}
    (coherent : Coherent cfg state) (playing : state.playingNote = true) :
    0 ∉ [state.multiplexingRate.toNat, min simultaneous state.activeTones] ↔
      state.multiplexingRate ≠ 0 ∧ simultaneous ≠ 0 := by
  have some := coherent.playing.mp playing
  have rate : state.multiplexingRate.toNat ≠ 0 ↔ state.multiplexingRate ≠ 0 :=
    not_congr (BitVec.toNat_eq (y := 0)).symm
  rw [← rate]
  simp
  omega

/-- An update divides by nothing that is zero exactly if it is careful. -/
theorem divisors_iff (multiplexing : cfg.simultaneousTones = some simultaneous) {state : State}
    (multiplexed : Multiplexed cfg state) (reads : Reads) :
    0 ∉ divisors cfg state reads ↔ Careful cfg simultaneous state (.update reads) := by
  obtain ⟨coherent, enabled, -⟩ := multiplexed
  simp only [divisors, multiplexing, Careful]
  generalize advanceMelody cfg state.melody reads = advanced
  obtain ⟨melody, turn⟩ := advanced
  have middle := coherent.withMelody melody
  cases turn with
  | ends => simp
  | stays =>
    by_cases playing : state.playingNote = true
    · simp only [takeTurn, playing, ne_eq, reduceCtorEq, not_false_eq_true, and_self, if_true,
        true_implies]
      exact divisors_of_playing multiplexing coherent playing
    · simp [takeTurn, playing]
  | plays pitch duration =>
    have plays := played_audioPlayNote middle enabled pitch duration reads.started
    have divides := divisors_of_playing multiplexing plays.coherent plays.sounds
    rw [plays.rate] at divides
    simp only [takeTurn, plays.sounds, ne_eq, reduceCtorEq, not_false_eq_true, and_self, if_true,
      plays.rate]
    exact divides

theorem shiftFits_update (small : cfg.stackSize ≤ 128)
    (multiplexing : cfg.simultaneousTones = some simultaneous) {state : State}
    (multiplexed : Multiplexed cfg state) (reads : Reads)
    (careful : Careful cfg simultaneous state (.update reads)) :
    ShiftFits (audioUpdateState cfg state reads).1 := by
  obtain ⟨coherent, enabled, fits⟩ := multiplexed
  unfold audioUpdateState
  split
  · exact fits
  · simp only [Careful] at careful
    generalize advanceMelody cfg state.melody reads = advanced at careful ⊢
    obtain ⟨melody, turn⟩ := advanced
    have middle := coherent.withMelody melody
    cases turn with
    | ends => exact shiftFits_stopAll ⟨middle, enabled, fits⟩
    | stays =>
      by_cases playing : state.playingNote = true
      · exact shiftFits_updateTones small multiplexing middle reads playing (careful playing).2
      · have idle : updateTones cfg { state with melody := melody } reads =
            { state with melody := melody } := if_neg playing
        simp only [takeTurn, idle]
        exact fits
    | plays pitch duration =>
      have plays := played_audioPlayNote middle enabled pitch duration reads.started
      exact shiftFits_updateTones small multiplexing plays.coherent reads plays.sounds careful.2

theorem inBounds_of_fits (small : cfg.stackSize ≤ 128)
    (multiplexing : cfg.simultaneousTones = some simultaneous) {state : State}
    (coherent : Coherent cfg state) (fits : ShiftFits state) : InBounds cfg state :=
  (inBounds_iff multiplexing (coherent.few.trans small) fits.1).mpr fits.2

theorem multiplexed_step (small : cfg.stackSize ≤ 128)
    (multiplexing : cfg.simultaneousTones = some simultaneous) {state : State}
    (multiplexed : Multiplexed cfg state) (event : Event)
    (careful : Careful cfg simultaneous state event) : Multiplexed cfg (step cfg state event) := by
  have follows := follows_step multiplexed.coherent multiplexed.enabled event
  refine ⟨follows.coherent, follows.enable.trans multiplexed.enabled, ?_⟩
  cases event with
  | playNote pitch duration timeStarted =>
    exact (shiftFits_playNote multiplexed pitch duration timeStarted).mpr careful
  | stopTone pitch => exact shiftFits_stopTone multiplexing multiplexed pitch
  | stopAll => exact shiftFits_stopAll multiplexed
  | playMelody song notesRepeat timeStarted lastTimestamp =>
    exact (shiftFits_playMelody multiplexed song notesRepeat timeStarted lastTimestamp).mpr careful
  | update reads => exact shiftFits_update small multiplexing multiplexed reads careful
  | setRate rate => exact multiplexed.fits
  | enableMultiplexing => exact multiplexed.fits
  | disableMultiplexing => exact multiplexed.fits
  | increaseRate change =>
    simp only [step, audioIncreaseToneMultiplexingRate]
    split <;> exact multiplexed.fits
  | decreaseRate change =>
    simp only [step, audioDecreaseToneMultiplexingRate]
    split <;> exact multiplexed.fits

theorem careful_of_wellDefined (small : cfg.stackSize ≤ 128)
    (multiplexing : cfg.simultaneousTones = some simultaneous) {state : State}
    (multiplexed : Multiplexed cfg state) (event : Event) (defined : WellDefined cfg state event) :
    Careful cfg simultaneous state event := by
  have follows := follows_step multiplexed.coherent multiplexed.enabled event
  obtain ⟨nonzero, bounds⟩ := defined
  have fits (bound : (step cfg state event).indexShift ≤ 128) : ShiftFits (step cfg state event) :=
    ⟨bound, (inBounds_iff multiplexing (follows.coherent.few.trans small) bound).mp bounds⟩
  cases event with
  | playNote pitch duration timeStarted =>
    have plays := played_audioPlayNote multiplexed.coherent multiplexed.enabled pitch duration
      timeStarted
    exact (shiftFits_playNote multiplexed pitch duration timeStarted).mp
      (fits (plays.shift.trans_le multiplexed.fits.1))
  | playMelody song notesRepeat timeStarted lastTimestamp =>
    have starts := started_audioPlayMelody multiplexed.coherent multiplexed.enabled song notesRepeat
      timeStarted lastTimestamp
    exact (shiftFits_playMelody multiplexed song notesRepeat timeStarted lastTimestamp).mp
      (fits (starts.shift.trans_le multiplexed.fits.1))
  | update reads => exact (divisors_iff multiplexing multiplexed reads).mp (nonzero reads rfl)
  | _ => trivial

theorem wellDefined_of_careful (small : cfg.stackSize ≤ 128)
    (multiplexing : cfg.simultaneousTones = some simultaneous) {state : State}
    (multiplexed : Multiplexed cfg state) (event : Event)
    (careful : Careful cfg simultaneous state event) : WellDefined cfg state event := by
  have kept := multiplexed_step small multiplexing multiplexed event careful
  refine ⟨?_, inBounds_of_fits small multiplexing kept.coherent kept.fits⟩
  rintro reads rfl
  exact (divisors_iff multiplexing multiplexed reads).mpr careful

/-- The state of a keyboard whose audio is off -/
structure Quiet (state : State) : Prop where
  disabled : state.enable = false
  none : state.activeTones = 0
  silent : state.playingNote = false
  noMelody : state.melody.playing = false
  shift : state.indexShift = 0

theorem quiet_audioStopAll {state : State} (quiet : Quiet state) : Quiet (audioStopAll state) := by
  unfold audioStopAll
  split
  · exact quiet
  · exact ⟨quiet.disabled, rfl, rfl, rfl, quiet.shift⟩

theorem quiet_step {state : State} (quiet : Quiet state) (event : Event) :
    Quiet (step cfg state event) := by
  have rate (multiplexingRate : BitVec 16) :
      Quiet { state with multiplexingRate := multiplexingRate } :=
    ⟨quiet.disabled, quiet.none, quiet.silent, quiet.noMelody, quiet.shift⟩
  cases event with
  | playNote pitch duration timeStarted => simpa [step, audioPlayNote, quiet.disabled]
  | stopTone pitch => simpa [step, audioStopTone, quiet.silent]
  | stopAll => exact quiet_audioStopAll quiet
  | playMelody song notesRepeat timeStarted lastTimestamp =>
    simpa [step, audioPlayMelody, quiet.disabled] using quiet_audioStopAll quiet
  | update reads => simpa [step, audioUpdateState, quiet.silent, quiet.noMelody]
  | setRate multiplexingRate => exact rate multiplexingRate
  | enableMultiplexing => exact rate cfg.rateDefault
  | disableMultiplexing => exact rate 0
  | increaseRate change =>
    simp only [step, audioIncreaseToneMultiplexingRate]
    split
    · exact rate _
    · exact quiet
  | decreaseRate change =>
    simp only [step, audioDecreaseToneMultiplexingRate]
    split
    · exact rate _
    · exact quiet

/-- Nothing goes wrong while audio is off. -/
theorem quiet_defined (cfg : Config) (simultaneous : ℕ) {state : State} (quiet : Quiet state)
    (event : Event) :
    WellDefined cfg state event ∧ Careful cfg simultaneous state event := by
  have waits (reads : Reads) : advanceMelody cfg state.melody reads = (state.melody, .stays) := by
    simp [advanceMelody, quiet.noMelody]
  refine ⟨⟨?_, ?_⟩, ?_⟩
  · rintro reads rfl
    unfold divisors
    split
    · exact List.not_mem_nil
    · simp [waits, takeTurn, quiet.silent]
  · intro toneIndex index found
    rw [processedIndex, if_pos (by rw [(quiet_step quiet event).none]; exact Nat.zero_le _)] at found
    cases found
  · cases event with
    | playNote pitch duration timeStarted => exact quiet.shift.trans_le (Nat.zero_le _)
    | playMelody song notesRepeat timeStarted lastTimestamp =>
      exact quiet.shift.trans_le (Nat.zero_le _)
    | update reads =>
      simp only [Careful, waits]
      intro playing
      rw [quiet.silent] at playing
      cases playing
    | _ => trivial

end Invariant

/-- The stack as it is by default, with multiplexing -/
def multiplexedCard : Config := { soundCard with simultaneousTones := some 3 }

/-- An update at some time, all of whose readings are the same -/
def readsAt (now : BitVec 16) : Reads := ⟨now, now, now, now, fun _ => now, false⟩

end QmkSonix.Audio
