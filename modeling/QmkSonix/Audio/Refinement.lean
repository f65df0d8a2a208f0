import QmkSonix.Audio.Stack

/-! The stack of tones against its purpose: each play moves its pitch to the end with the new
time, and each stop and each expiry removes one. -/

namespace QmkSonix.Audio

open QmkSonix.Lib

variable {cfg : Config}

section Lists

/-- The tone of a call of `audio_play_note` -/
def newTone (pitch : ℚ) (duration timeStarted : BitVec 16) : Tone :=
  ⟨timeStarted, unsigned pitch, duration⟩

/-- The tones that still have playtime -/
def unexpired (reads : Reads) (stack : List Tone) : List Tone :=
  stack.filter fun tone => ¬ Gone reads tone

/-- What an event is to make of the list of tones. The melody decides which note it plays. -/
def specNext (cfg : Config) (melody : Melody) (stack : List Tone) : Event → List Tone
  | .playNote pitch duration timeStarted =>
    played cfg.stackSize stack (newTone pitch duration timeStarted)
  | .stopTone pitch => stopped stack (unsigned pitch)
  | .stopAll => []
  | .playMelody song _ timeStarted _ =>
    [newTone (song.notes 0).1 (cfg.durationToMs (song.notes 0).2) timeStarted]
  | .update reads =>
    match (advanceMelody cfg melody reads).2 with
    | .ends => []
    | .stays => unexpired reads stack
    | .plays pitch duration =>
      unexpired reads (played cfg.stackSize stack (newTone pitch duration reads.started))
  | _ => stack

/-- What an event does to the list of tones: a pitch on top keeps its time, and the
housekeeping skips the tone behind each that it removes. -/
def codeNext (cfg : Config) (melody : Melody) (stack : List Tone) : Event → List Tone
  | .playNote pitch duration timeStarted =>
    replayed cfg.stackSize stack (newTone pitch duration timeStarted)
  | .stopTone pitch => stopped stack (unsigned pitch)
  | .stopAll => []
  | .playMelody song _ timeStarted _ =>
    [newTone (song.notes 0).1 (cfg.durationToMs (song.notes 0).2) timeStarted]
  | .update reads =>
    match (advanceMelody cfg melody reads).2 with
    | .ends => []
    | .stays => sweepSkipping (Gone reads) stack
    | .plays pitch duration =>
      sweepSkipping (Gone reads)
        (replayed cfg.stackSize stack (newTone pitch duration reads.started))
  | _ => stack

/-- The state of a step is that of the lists. -/
structure Follows (cfg : Config) (state other : State) (stack : List Tone) : Prop where
  coherent : Coherent cfg other
  enable : other.enable = state.enable
  stack : other.stack = stack

theorem follows_update {state : State} (coherent : Coherent cfg state)
    (enabled : state.enable = true) (reads : Reads) :
    Follows cfg state (audioUpdateState cfg state reads).1
      (codeNext cfg state.melody state.stack (.update reads)) := by
  unfold audioUpdateState
  by_cases idle : (!state.playingNote && !state.melody.playing) = true
  · rw [if_pos idle]
    rw [Bool.and_eq_true, Bool.not_eq_true', Bool.not_eq_true'] at idle
    have none : ¬ 0 < state.activeTones := fun some => by
      have playing := coherent.playing.mpr some
      rw [idle.1] at playing
      cases playing
    have empty := (stack_eq_nil_iff state).mpr (by omega)
    have waits : (advanceMelody cfg state.melody reads).2 = .stays := by
      simp [advanceMelody, idle.2]
    refine ⟨coherent, rfl, ?_⟩
    simp only [codeNext, waits, empty, sweepSkipping]
  · rw [if_neg idle]
    simp only [codeNext]
    generalize advanceMelody cfg state.melody reads = turn
    obtain ⟨melody, turn⟩ := turn
    have middle := coherent.withMelody melody
    cases turn with
    | ends =>
      have silent := silenced_audioStopAll middle
      exact ⟨silent.coherent, silent.enable, silent.stack⟩
    | stays =>
      obtain ⟨swept, coherent, -, enable⟩ := stack_updateTones middle reads
      exact ⟨⟨coherent.few, coherent.unused, coherent.distinct, coherent.unsigned, coherent.playing,
        coherent.driver⟩, enable, swept⟩
    | plays pitch duration =>
      have plays := played_audioPlayNote middle enabled pitch duration reads.started
      obtain ⟨swept, coherent, -, enable⟩ := stack_updateTones plays.coherent reads
      rw [plays.stack] at swept
      exact ⟨⟨coherent.few, coherent.unused, coherent.distinct, coherent.unsigned, coherent.playing,
        coherent.driver⟩, enable.trans plays.enable, swept⟩

/-- Each event does to the list what the loops over the array are worth. -/
theorem follows_step {state : State} (coherent : Coherent cfg state)
    (enabled : state.enable = true) (event : Event) :
    Follows cfg state (step cfg state event) (codeNext cfg state.melody state.stack event) := by
  have rate (multiplexingRate : BitVec 16) :
      Follows cfg state { state with multiplexingRate := multiplexingRate } state.stack :=
    ⟨⟨coherent.few, coherent.unused, coherent.distinct, coherent.unsigned, coherent.playing,
      coherent.driver⟩, rfl, rfl⟩
  have same : Follows cfg state state state.stack := ⟨coherent, rfl, rfl⟩
  cases event with
  | playNote pitch duration timeStarted =>
    have plays := played_audioPlayNote coherent enabled pitch duration timeStarted
    exact ⟨plays.coherent, plays.enable, plays.stack⟩
  | stopTone pitch =>
    have stops := stopped_audioStopTone coherent pitch
    exact ⟨stops.coherent, stops.enable, stops.stack⟩
  | stopAll =>
    have silent := silenced_audioStopAll coherent
    exact ⟨silent.coherent, silent.enable, silent.stack⟩
  | playMelody song notesRepeat timeStarted lastTimestamp =>
    have starts := started_audioPlayMelody coherent enabled song notesRepeat timeStarted lastTimestamp
    exact ⟨starts.coherent, starts.enable, starts.stack⟩
  | update reads => exact follows_update coherent enabled reads
  | setRate multiplexingRate => exact rate multiplexingRate
  | enableMultiplexing => exact rate cfg.rateDefault
  | disableMultiplexing => exact rate 0
  | increaseRate change =>
    simp only [step, audioIncreaseToneMultiplexingRate]
    split
    · exact rate _
    · exact same
  | decreaseRate change =>
    simp only [step, audioDecreaseToneMultiplexingRate]
    split
    · exact rate _
    · exact same

end Lists

section Differences

variable {stack : List Tone} {tone : Tone}

/-- A pitch that is played while it is on top is the very tone that is there. -/
def AlreadyThere (stack : List Tone) (tone : Tone) : Prop :=
  ∀ top ∈ stack.getLast?, top.pitch = tone.pitch → top = tone

theorem onTop_iff_exists (pitch : ℚ) :
    OnTop stack pitch ↔ ∃ init top, stack = init ++ [top] ∧ top.pitch = pitch := by
  rw [OnTop, Option.map_eq_some_iff]
  constructor
  · rintro ⟨top, last, same⟩
    obtain ⟨init, rfl⟩ := List.getLast?_eq_some_iff.mp last
    exact ⟨init, top, rfl, same⟩
  · rintro ⟨init, top, rfl, same⟩
    exact ⟨top, List.getLast?_concat, same⟩

/-- A pitch on top is played again: only its time and duration change. -/
theorem played_of_onTop {init : List Tone} {top : Tone} {size : ℕ}
    (distinct : ((init ++ [top]).map Tone.pitch).Nodup) (few : (init ++ [top]).length ≤ size)
    (same : top.pitch = tone.pitch) : played size (init ++ [top]) tone = init ++ [tone] := by
  have kept := stopped_middle distinct
  rw [List.append_nil, same] at kept
  rw [played, kept, recent_of_le (by simpa using few)]

theorem replayed_eq_played_iff (distinct : (stack.map Tone.pitch).Nodup) {size : ℕ}
    (few : stack.length ≤ size) :
    replayed size stack tone = played size stack tone ↔ AlreadyThere stack tone := by
  by_cases top : OnTop stack tone.pitch
  · rw [replayed_of_onTop top]
    obtain ⟨init, top, rfl, same⟩ := (onTop_iff_exists _).mp top
    rw [played_of_onTop distinct few same, List.append_right_inj, List.singleton_inj]
    simp [AlreadyThere, same]
  · rw [replayed_of_not_onTop top]
    refine iff_of_true rfl fun last here same => absurd ?_ top
    rw [OnTop, here]
    exact congrArg some same

/-- The housekeeping comes to the same list, although the pitch on top has kept its time: it
removes all that are gone, and the tone with both its times. -/
theorem sweep_replayed_iff (distinct : (stack.map Tone.pitch).Nodup) {size : ℕ}
    (few : stack.length ≤ size) (reads : Reads) :
    sweepSkipping (Gone reads) (replayed size stack tone) =
        unexpired reads (played size stack tone) ↔
      NoPair (Gone reads) (replayed size stack tone) ∧
        ∀ top ∈ stack.getLast?, top.pitch = tone.pitch →
          top = tone ∨ Gone reads top ∧ Gone reads tone := by
  by_cases top : OnTop stack tone.pitch
  · rw [replayed_of_onTop top]
    obtain ⟨init, last, rfl, same⟩ := (onTop_iff_exists _).mp top
    rw [played_of_onTop distinct few same]
    simp only [List.getLast?_concat, Option.mem_some_iff, forall_eq', same, true_implies]
    constructor
    · intro swept
      have apart : NoPair (Gone reads) (init ++ [last]) := by
        rw [← sweepSkipping_clean_iff, swept]
        intro other member
        simpa using (List.mem_filter.mp member).2
      refine ⟨apart, ?_⟩
      rw [sweepSkipping_eq_filter apart, unexpired, List.filter_append, List.filter_append,
        List.append_right_inj] at swept
      by_cases first : Gone reads last <;> by_cases second : Gone reads tone <;>
        simp_all
    · rintro ⟨apart, rfl | ⟨first, second⟩⟩
      · exact sweepSkipping_eq_filter apart
      · rw [sweepSkipping_eq_filter apart, unexpired, List.filter_append, List.filter_append]
        simp [first, second]
  · have free (last : Tone) (here : last ∈ stack.getLast?) (same : last.pitch = tone.pitch) :
        last = tone ∨ Gone reads last ∧ Gone reads tone := by
      refine absurd ?_ top
      rw [OnTop, here]
      exact congrArg some same
    rw [replayed_of_not_onTop top, unexpired, sweepSkipping_eq_filter_iff]
    exact (and_iff_left free).symm

/-- A play either does not meet its own pitch on top or changes nothing about it, and the
housekeeping does not come to two neighbours that are both gone. -/
def Faithful (cfg : Config) (melody : Melody) (stack : List Tone) : Event → Prop
  | .playNote pitch duration timeStarted =>
    AlreadyThere stack (newTone pitch duration timeStarted)
  | .update reads =>
    match (advanceMelody cfg melody reads).2 with
    | .ends => True
    | .stays => NoPair (Gone reads) stack
    | .plays pitch duration =>
      NoPair (Gone reads)
          (replayed cfg.stackSize stack (newTone pitch duration reads.started)) ∧
        ∀ top ∈ stack.getLast?, top.pitch = unsigned pitch →
          top = newTone pitch duration reads.started ∨
            Gone reads top ∧ Gone reads (newTone pitch duration reads.started)
  | _ => True

theorem codeNext_eq_iff (distinct : (stack.map Tone.pitch).Nodup) (few : stack.length ≤ cfg.stackSize)
    (melody : Melody) (event : Event) :
    codeNext cfg melody stack event = specNext cfg melody stack event ↔
      Faithful cfg melody stack event := by
  cases event with
  | playNote pitch duration timeStarted => exact replayed_eq_played_iff distinct few
  | update reads =>
    simp only [codeNext, specNext, Faithful]
    generalize (advanceMelody cfg melody reads).2 = turn
    cases turn with
    | stays => exact sweepSkipping_eq_filter_iff stack
    | ends => exact iff_of_true rfl trivial
    | plays pitch duration => exact sweep_replayed_iff distinct few reads
  | _ => exact iff_of_true rfl trivial

end Differences

section Runs

/-- A state with the list that its tones are to be -/
structure Watched where
  state : State
  expected : List Tone := []

def watchedStep (cfg : Config) (watched : Watched) (event : Event) : Watched where
  state := step cfg watched.state event
  expected := specNext cfg watched.state.melody watched.expected event

/-- The tones are those of the list, the other entries are empty, and the flag and the pitches
are as they should be. -/
structure Matches (cfg : Config) (watched : Watched) : Prop where
  stack : watched.state.stack = watched.expected
  unused : ∀ i, watched.state.activeTones ≤ i → i < cfg.stackSize →
    watched.state.tones i = .empty
  distinct : (watched.state.stack.map Tone.pitch).Nodup
  playing : watched.state.playingNote = true ↔ 0 < watched.state.activeTones

/-- What holds of a state whose tones are those of the list -/
structure Sound (cfg : Config) (watched : Watched) : Prop where
  coherent : Coherent cfg watched.state
  enabled : watched.state.enable = true
  stack : watched.state.stack = watched.expected

theorem coherent_audioInit (cfg : Config) (enable : Bool) : Coherent cfg (audioInit cfg enable) where
  few := Nat.zero_le _
  unused := fun _ _ _ => rfl
  distinct := List.nodup_nil
  unsigned := fun _ none => absurd none List.not_mem_nil
  playing := by simp [audioInit]
  driver := by simp [audioInit]

theorem sound_step_iff {watched : Watched} (sound : Sound cfg watched) (event : Event) :
    (step cfg watched.state event).stack =
        specNext cfg watched.state.melody watched.expected event ↔
      Faithful cfg watched.state.melody watched.state.stack event := by
  have follows := follows_step sound.coherent sound.enabled event
  have few : watched.state.stack.length ≤ cfg.stackSize := by
    rw [length_stack]
    exact sound.coherent.few
  rw [follows.stack, ← sound.stack]
  exact codeNext_eq_iff sound.coherent.distinct few _ event

end Runs

/-- In every run with audio enabled, the tones are those of the list at all times exactly if
each step is faithful. -/
theorem matches_iff_faithful (cfg : Config) (events : List Event) :
    (∀ cut, Matches cfg (run (watchedStep cfg) { state := audioInit cfg true }
      (events.take cut))) ↔
      Along (watchedStep cfg)
        (fun watched event => Faithful cfg watched.state.melody watched.state.stack event)
        { state := audioInit cfg true } events := by
  refine property_iff_along (fun watched (sound : Sound cfg watched) => ?_)
    (fun watched event sound faithful => ?_) (fun watched event sound holds => ?_) ?_ events
  · exact ⟨sound.stack, sound.coherent.unused, sound.coherent.distinct, sound.coherent.playing⟩
  · have follows := follows_step sound.coherent sound.enabled event
    exact ⟨follows.coherent, follows.enable.trans sound.enabled,
      (sound_step_iff sound event).mpr faithful⟩
  · exact (sound_step_iff sound event).mp holds.stack
  · exact ⟨coherent_audioInit cfg true, rfl, rfl⟩

/-- The stack as it is by default, with notes whose duration is counted in ms -/
def soundCard : Config where
  stackSize := 8
  simultaneousTones := none
  rateDefault := 0
  durationToMs := id
  stackSize_pos := Nat.succ_pos 7
  stackSize_lt := Nat.lt_add_left 246 (Nat.lt_succ_self 8)

/-- A tone that is played again while it is on top keeps its first time, and one of two tones
that have both run out is not removed. -/
theorem replay_and_skip_break :
    ¬ Matches soundCard (run (watchedStep soundCard) { state := audioInit soundCard true }
        [.playNote 440 10 0, .playNote 440 10 5]) ∧
      ¬ Matches soundCard (run (watchedStep soundCard) { state := audioInit soundCard true }
        [.playNote 440 10 0, .playNote 880 10 0, .update ⟨20, 20, 20, 20, fun _ => 20, false⟩]) := by
  constructor
  · intro holds
    exact absurd holds.stack (by decide)
  · intro holds
    exact absurd holds.stack (by decide)

end QmkSonix.Audio
