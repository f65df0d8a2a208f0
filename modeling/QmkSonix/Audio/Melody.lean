import QmkSonix.Audio.Refinement

/-! A melody goes on as long as the driver runs, and the driver stops with the last tone. -/

namespace QmkSonix.Audio

open QmkSonix.Lib

variable {cfg : Config}

section Notes

/-- The note of a melody that is played -/
def Melody.Inside (melody : Melody) : Prop := melody.currentNote.toNat < melody.song.count.toNat

/-- Skipping notes stays inside the song. -/
theorem skipNotes_le (song : Song) {left : ℕ} {current delta : BitVec 16}
    (inside : current.toNat + left < song.count.toNat) :
    (skipNotes cfg song left current delta).1.toNat < song.count.toNat := by
  induction left generalizing current delta with
  | zero => exact inside
  | succ left ih =>
    have count := song.count.isLt
    rw [skipNotes]
    split
    · have next : (current + 1).toNat = current.toNat + 1 := by
        rw [BitVec.toNat_add]
        exact Nat.mod_eq_of_lt (by change current.toNat + 1 < 65536; omega)
      exact ih (by omega)
    · change current.toNat < song.count.toNat
      omega

theorem next_toNat {melody : Melody} (inside : melody.Inside) :
    (melody.currentNote + 1).toNat = melody.currentNote.toNat + 1 := by
  have count := melody.song.count.isLt
  unfold Melody.Inside at inside
  rw [BitVec.toNat_add]
  exact Nat.mod_eq_of_lt (by change melody.currentNote.toNat + 1 < 65536; omega)

/-- What the next note of a melody can be -/
structure NextNote (melody : Melody) (next : Melody × Turn) : Prop where
  playing : next.1.playing = melody.playing
  song : next.1.song = melody.song
  notesRepeat : next.1.notesRepeat = melody.notesRepeat
  inside : next.2 ≠ .ends → next.1.Inside
  last : next.2 = .ends → melody.notesRepeat = false ∧
    melody.currentNote.toNat + 1 = melody.song.count.toNat
  moves : next.2 ≠ .stays

theorem nextNote_spec (cfg : Config) {melody : Melody} (inside : melody.Inside) (reads : Reads) :
    NextNote melody (nextNote cfg melody reads) := by
  have next := next_toNat inside
  have count := melody.song.count_pos
  have within : melody.currentNote.toNat < melody.song.count.toNat := inside
  unfold nextNote
  dsimp only
  split
  · rename_i ended
    obtain ⟨last, once⟩ := ended
    rw [BitVec.le_def, next] at last
    refine ⟨rfl, rfl, rfl, fun goesOn => absurd rfl goesOn, fun _ => ⟨by simpa using once, by omega⟩,
      by simp⟩
  · have start : (if melody.song.count ≤ melody.currentNote + 1 then 0
        else melody.currentNote + 1).toNat < melody.song.count.toNat := by
      split
      · exact count
      · rename_i more
        rw [BitVec.le_def, next] at more
        omega
    generalize (if melody.song.count ≤ melody.currentNote + 1 then 0
      else melody.currentNote + 1) = current at start ⊢
    split
    · exact ⟨rfl, rfl, rfl, fun _ => inside, (nomatch ·), by simp⟩
    · exact ⟨rfl, rfl, rfl, fun _ => skipNotes_le melody.song (by omega), (nomatch ·), by simp⟩

/-- A melody only ends behind its last note, and that has been played for its time. -/
def EndsBehindLast (cfg : Config) (state : State) (reads : Reads) : Prop :=
  state.melody.playing = true → (audioUpdateState cfg state reads).1.melody.playing = false →
    state.melody.notesRepeat = false ∧
      state.melody.currentNote.toNat + 1 = state.melody.song.count.toNat ∧
      state.melody.currentNoteDuration ≤ reads.elapsed - state.melody.lastTimestamp

end Notes

section Runs

/-- A melody is started, or the state is updated. -/
inductive Performance where
  | play (song : Song) (notesRepeat : Bool) (timeStarted lastTimestamp : BitVec 16)
  | update (reads : Reads)

def Performance.event : Performance → Event
  | .play song notesRepeat timeStarted lastTimestamp =>
    .playMelody song notesRepeat timeStarted lastTimestamp
  | .update reads => .update reads

def performStep (cfg : Config) (state : State) (performance : Performance) : State :=
  step cfg state performance.event

/-- While a melody is playing, the driver runs and has a tone. -/
def NotStalled (state : State) : Prop :=
  state.melody.playing = true → state.driverStopped = false ∧ 0 < state.activeTones

instance (state : State) : Decidable (NotStalled state) :=
  inferInstanceAs (Decidable (_ → _))

/-- An update of a melody does not find that the only tone has no playtime left: neither the
tone that it does not follow yet, or follows with the same pitch, nor the note that takes its
place on a stack of one. -/
def Sustained (cfg : Config) (state : State) : Performance → Prop
  | .play .. => True
  | .update reads =>
    match (advanceMelody cfg state.melody reads).2 with
    | .ends => True
    | .stays => state.melody.playing = true → ∀ tone, state.stack = [tone] → ¬ Gone reads tone
    | .plays pitch duration =>
      ∀ tone, state.stack = [tone] →
        if tone.pitch = unsigned pitch then ¬ Gone reads tone
        else cfg.stackSize = 1 → ¬ Gone reads (newTone pitch duration reads.started)

/-- What holds while no melody has stalled -/
structure Sounding (cfg : Config) (state : State) : Prop where
  coherent : Coherent cfg state
  enabled : state.enable = true
  inside : state.melody.playing = true → state.melody.Inside
  sounds : state.melody.playing = true → 0 < state.activeTones

theorem notStalled_iff {state : State} (coherent : Coherent cfg state) :
    NotStalled state ↔ (state.melody.playing = true → state.stack ≠ []) := by
  have driver := coherent.driver
  refine forall_congr' fun _ => ?_
  rw [Ne, stack_eq_nil_iff, ← driver]
  constructor
  · rintro ⟨runs, -⟩ stopped
    rw [runs] at stopped
    cases stopped
  · intro runs
    exact ⟨by simpa using runs, Nat.pos_of_ne_zero fun none => runs (driver.mpr none)⟩

/-- A single tone behind a play is the one that was there, or the new one on a stack of one. -/
theorem replayed_singleton_iff {stack : List Tone} (some : stack ≠ []) {size : ℕ}
    (distinct : (stack.map Tone.pitch).Nodup) (few : stack.length ≤ size) (reads : Reads)
    (tone : Tone) :
    (∀ only, replayed size stack tone = [only] → ¬ Gone reads only) ↔
      ∀ only, stack = [only] →
        if only.pitch = tone.pitch then ¬ Gone reads only else size = 1 → ¬ Gone reads tone := by
  cases stack with
  | nil => exact absurd rfl some
  | cons here rest =>
    cases rest with
    | nil =>
      by_cases same : here.pitch = tone.pitch
      · have top : OnTop [here] tone.pitch := congrArg Option.some same
        rw [replayed_of_onTop top]
        simp [same]
      · have other : ¬ OnTop [here] tone.pitch := fun top => same (Option.some.inj top)
        have kept : stopped [here] tone.pitch = [here] :=
          stopped_of_absent (by simpa using same)
        rw [replayed_of_not_onTop other, played, kept]
        by_cases one : size = 1
        · subst one
          simp [recent, same]
        · have room : ([here] ++ [tone]).length ≤ size := by
            simp only [List.length_append, List.length_singleton] at few ⊢
            omega
          rw [recent_of_le room]
          simp [same, one]
    | cons second rest =>
      have length := length_replayed distinct few tone
      have many : 2 ≤ (replayed size (here :: second :: rest) tone).length := by
        rw [length]
        simp only [List.length_cons] at few ⊢
        split <;> omega
      refine iff_of_true (fun only single => ?_)
        (fun only single => absurd (congrArg List.length single) (by simp))
      rw [single, List.length_singleton] at many
      omega

/-- The melody behind an update is the one that has advanced, unless it has ended. -/
theorem melody_update {state : State} (coherent : Coherent cfg state)
    (enabled : state.enable = true) (reads : Reads) :
    (audioUpdateState cfg state reads).1.melody =
      if (advanceMelody cfg state.melody reads).2 = .ends then
        (audioStopAll { state with melody := (advanceMelody cfg state.melody reads).1 }).melody
      else (advanceMelody cfg state.melody reads).1 := by
  unfold audioUpdateState
  split
  · rename_i idle
    rw [Bool.and_eq_true, Bool.not_eq_true', Bool.not_eq_true'] at idle
    simp [advanceMelody, idle.2]
  · generalize advanceMelody cfg state.melody reads = advanced
    obtain ⟨melody, turn⟩ := advanced
    have middle := coherent.withMelody melody
    cases turn with
    | ends => rfl
    | stays => exact (stack_updateTones middle reads).2.2.1
    | plays pitch duration =>
      have plays := played_audioPlayNote middle enabled pitch duration reads.started
      exact (stack_updateTones plays.coherent reads).2.2.1.trans plays.melody

theorem sweep_ne_nil_iff {stack : List Tone} (some : stack ≠ []) (reads : Reads) :
    sweepSkipping (Gone reads) stack ≠ [] ↔ ∀ only, stack = [only] → ¬ Gone reads only := by
  rw [Ne, sweepSkipping_eq_nil_iff, or_iff_right some]
  push Not
  rfl

theorem replayed_ne_nil {stack : List Tone} (some : stack ≠ []) {size : ℕ}
    (distinct : (stack.map Tone.pitch).Nodup) (few : stack.length ≤ size) (tone : Tone) :
    replayed size stack tone ≠ [] := by
  have length := length_replayed distinct few tone
  have positive := List.length_pos_iff.mpr some
  rw [← List.length_pos_iff, length]
  split <;> omega

/-- What an update does in a melody that has not stalled -/
structure Continues (cfg : Config) (state : State) (reads : Reads) : Prop where
  sustained : NotStalled (audioUpdateState cfg state reads).1 ↔ Sustained cfg state (.update reads)
  ends : EndsBehindLast cfg state reads
  inside : (audioUpdateState cfg state reads).1.melody.playing = true →
    (audioUpdateState cfg state reads).1.melody.Inside

theorem continues_update {state : State} (sounding : Sounding cfg state) (reads : Reads) :
    Continues cfg state reads := by
  obtain ⟨coherent, enabled, inside, sounds⟩ := sounding
  have follows := follows_update coherent enabled reads
  have melody := melody_update coherent enabled reads
  have sustained := notStalled_iff follows.coherent
  rw [follows.stack] at sustained
  by_cases playing : state.melody.playing = true
  · have within := inside playing
    have some : state.stack ≠ [] := by
      rw [Ne, stack_eq_nil_iff]
      exact (sounds playing).ne'
    have few : state.stack.length ≤ cfg.stackSize := by
      rw [length_stack]
      exact coherent.few
    by_cases due : state.melody.currentNoteDuration ≤ reads.elapsed - state.melody.lastTimestamp
    · have advances : advanceMelody cfg state.melody reads = nextNote cfg state.melody reads := by
        simp [advanceMelody, playing, due]
      have next := nextNote_spec cfg within reads
      simp only [codeNext, advances] at sustained
      rw [advances] at melody
      generalize nextNote cfg state.melody reads = nextNote at advances next sustained melody
      obtain ⟨after, turn⟩ := nextNote
      cases turn with
      | stays => exact absurd rfl next.moves
      | ends =>
        obtain ⟨once, last⟩ := next.last rfl
        have running : state.driverStopped ≠ true := fun stopped =>
          absurd (coherent.driver.mp stopped) (sounds playing).ne'
        have ended : (audioUpdateState cfg state reads).1.melody.playing = false := by
          rw [melody, if_pos rfl]
          simp [audioStopAll, running]
        refine ⟨iff_of_true ?_ ?_, fun _ _ => ⟨once, last, due⟩, ?_⟩
        · intro playing
          rw [ended] at playing
          cases playing
        · simp only [Sustained, advances]
        · intro playing
          rw [ended] at playing
          cases playing
      | plays pitch duration =>
        rw [if_neg (by simp)] at melody
        have goesOn : (audioUpdateState cfg state reads).1.melody.playing = true := by
          rw [melody]
          exact next.playing.trans playing
        refine ⟨?_, fun _ ended => ?_, fun _ => ?_⟩
        · simp only [Sustained, advances]
          rw [sustained, goesOn, forall_prop_of_true rfl,
            sweep_ne_nil_iff (replayed_ne_nil some coherent.distinct few _) reads]
          exact replayed_singleton_iff some coherent.distinct few reads _
        · rw [goesOn] at ended
          cases ended
        · rw [melody]
          exact next.inside (by simp)
    · have waits : advanceMelody cfg state.melody reads = (state.melody, .stays) := by
        simp [advanceMelody, due]
      simp only [codeNext, waits] at sustained
      rw [waits, if_neg (by simp)] at melody
      refine ⟨?_, fun _ ended => ?_, fun _ => ?_⟩
      · simp only [Sustained, waits]
        rw [sustained, melody, sweep_ne_nil_iff some]
      · rw [melody, playing] at ended
        cases ended
      · rw [melody]
        exact within
  · have waits : advanceMelody cfg state.melody reads = (state.melody, .stays) := by
      simp [advanceMelody, playing]
    rw [waits, if_neg (by simp)] at melody
    refine ⟨iff_of_true (fun goesOn => ?_) ?_, fun plays => absurd plays playing, fun goesOn => ?_⟩
    · rw [melody] at goesOn
      exact absurd goesOn playing
    · simp only [Sustained, waits]
      exact fun plays => absurd plays playing
    · rw [melody] at goesOn
      exact absurd goesOn playing

theorem melody_audioPlayNote (state : State) (pitch : ℚ) (duration timeStarted : BitVec 16) :
    (audioPlayNote cfg state pitch duration timeStarted).melody = state.melody := by
  unfold audioPlayNote
  split
  · rfl
  · dsimp only
    split <;> rfl

/-- What `audio_play_melody` makes of the melody -/
theorem melody_playMelody (cfg : Config) {state : State} (enabled : state.enable = true) (song : Song)
    (notesRepeat : Bool) (timeStarted lastTimestamp : BitVec 16) :
    (audioPlayMelody cfg state song notesRepeat timeStarted lastTimestamp).melody =
      { playing := true
        song := song
        notesRepeat := notesRepeat
        currentNote := 0
        currentNoteDuration := cfg.durationToMs (song.notes 0).2
        noteResting := false
        lastTimestamp := lastTimestamp } := by
  unfold audioPlayMelody
  rw [if_neg (by simp [enabled])]
  dsimp only
  rw [melody_audioPlayNote]

/-- A started melody sounds. -/
theorem sounding_play {state : State} (coherent : Coherent cfg state)
    (enabled : state.enable = true) (song : Song) (notesRepeat : Bool)
    (timeStarted lastTimestamp : BitVec 16) :
    Sounding cfg (audioPlayMelody cfg state song notesRepeat timeStarted lastTimestamp) := by
  have starts := started_audioPlayMelody coherent enabled song notesRepeat timeStarted lastTimestamp
  have count := length_stack (audioPlayMelody cfg state song notesRepeat timeStarted lastTimestamp)
  rw [starts.stack, List.length_singleton] at count
  refine ⟨starts.coherent, starts.enable.trans enabled, fun _ => ?_, fun _ => by omega⟩
  have melody := melody_playMelody cfg enabled song notesRepeat timeStarted lastTimestamp
  rw [melody]
  exact song.count_pos

theorem sounding_audioInit (cfg : Config) : Sounding cfg (audioInit cfg true) where
  coherent := coherent_audioInit cfg true
  enabled := rfl
  inside := fun playing => nomatch playing
  sounds := fun playing => nomatch playing

theorem Sounding.notStalled {state : State} (sounding : Sounding cfg state) : NotStalled state :=
  fun playing => ⟨by simpa using mt sounding.coherent.driver.mp (sounding.sounds playing).ne',
    sounding.sounds playing⟩

/-- An update of a melody ends it behind its last note, if at all. -/
def EndsInOrder (cfg : Config) (state : State) : Performance → Prop
  | .play .. => True
  | .update reads => EndsBehindLast cfg state reads

theorem notStalled_perform_iff {state : State} (sounding : Sounding cfg state)
    (performance : Performance) :
    NotStalled (performStep cfg state performance) ↔ Sustained cfg state performance := by
  cases performance with
  | play song notesRepeat timeStarted lastTimestamp =>
    have started := sounding_play sounding.coherent sounding.enabled song notesRepeat timeStarted
      lastTimestamp
    exact iff_of_true started.notStalled trivial
  | update reads => exact (continues_update sounding reads).sustained

theorem sounding_perform {state : State} (sounding : Sounding cfg state) (performance : Performance)
    (sustained : Sustained cfg state performance) :
    Sounding cfg (performStep cfg state performance) := by
  have notStalled := (notStalled_perform_iff sounding performance).mpr sustained
  cases performance with
  | play song notesRepeat timeStarted lastTimestamp =>
    exact sounding_play sounding.coherent sounding.enabled song notesRepeat timeStarted lastTimestamp
  | update reads =>
    have follows := follows_update sounding.coherent sounding.enabled reads
    exact ⟨follows.coherent, follows.enable.trans sounding.enabled,
      (continues_update sounding reads).inside, fun playing => (notStalled playing).2⟩

theorem endsInOrder_of_sounding {state : State} (sounding : Sounding cfg state)
    (performance : Performance) : EndsInOrder cfg state performance := by
  cases performance with
  | play song notesRepeat timeStarted lastTimestamp => trivial
  | update reads => exact (continues_update sounding reads).ends

end Runs

/-- In every run of melodies and updates, no melody stalls and each ends behind its last note
exactly if each update is sustained. -/
theorem notStalled_iff_sustained (cfg : Config) (performances : List Performance) :
    ((∀ cut, NotStalled (run (performStep cfg) (audioInit cfg true) (performances.take cut))) ∧
        Along (performStep cfg) (EndsInOrder cfg) (audioInit cfg true) performances) ↔
      Along (performStep cfg) (Sustained cfg) (audioInit cfg true) performances := by
  have initial := sounding_audioInit cfg
  have stalls : (∀ cut, NotStalled (run (performStep cfg) (audioInit cfg true)
      (performances.take cut))) ↔
      Along (performStep cfg) (Sustained cfg) (audioInit cfg true) performances :=
    property_iff_along (fun state (sounding : Sounding cfg state) => sounding.notStalled)
      (fun _ performance sounding sustained => sounding_perform sounding performance sustained)
      (fun _ performance sounding notStalled =>
        (notStalled_perform_iff sounding performance).mp notStalled) initial performances
  rw [stalls]
  refine and_iff_left_of_imp fun along => ?_
  exact along_imp
    (fun state performance (sounding : Sounding cfg state) sustained =>
      sounding_perform sounding performance sustained)
    (fun _ performance sounding _ => endsInOrder_of_sounding sounding performance) initial along

/-- A song of one note of 10 ms -/
def shortSong : Song where
  notes := fun _ => (440, 10)
  count := 1
  count_pos := Nat.one_pos

/-- Two rests of 10 ms -/
def restSong : Song where
  notes := fun _ => (0, 10)
  count := 2
  count_pos := Nat.two_pos

/-- The timer goes on by 1 ms between the start of the note and that of the melody's clock, or
two rests follow each other: the last tone is removed while the melody is playing. -/
theorem early_expiry_and_rests_break :
    ¬ NotStalled (run (performStep soundCard) (audioInit soundCard true)
        [.play shortSong false 0 1, .update ⟨10, 10, 10, 10, fun _ => 10, false⟩]) ∧
      ¬ NotStalled (run (performStep soundCard) (audioInit soundCard true)
        [.play restSong false 0 0, .update ⟨10, 10, 10, 10, fun _ => 10, false⟩]) := by
  constructor <;> decide

end QmkSonix.Audio
