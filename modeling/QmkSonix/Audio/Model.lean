import QmkSonix.Lib.Run
import QmkSonix.Lib.Shift

/-! `audio.c`: the stack of active tones, the melody that feeds it, and the expiry of tones.
The audio system is initialised. A call names what it reads from the timer; `voices_timer`,
which only the voices look at, is left out, and so is the hardware behind
`audio_driver_start` and `audio_driver_stop`. -/

namespace QmkSonix.Audio

open QmkSonix.Lib

/-- `musical_tone_t` -/
structure Tone where
  timeStarted : BitVec 16
  pitch : ℚ
  duration : BitVec 16
  deriving DecidableEq, Repr

/-- An entry of `tones` that is not used -/
def Tone.empty : Tone := ⟨0, -1, 0⟩

structure Config where
  /-- `AUDIO_TONE_STACKSIZE` -/
  stackSize : ℕ
  /-- `AUDIO_MAX_SIMULTANEOUS_TONES`, where `AUDIO_ENABLE_TONE_MULTIPLEXING` is defined -/
  simultaneousTones : Option ℕ
  /-- `AUDIO_TONE_MULTIPLEXING_RATE_DEFAULT` -/
  rateDefault : BitVec 16
  /-- `audio_duration_to_ms` with the tempo in use -/
  durationToMs : BitVec 16 → BitVec 16
  stackSize_pos : 0 < stackSize
  stackSize_lt : stackSize < 255

/-- A `SONG` with its number of notes: the pitch and the duration of each -/
structure Song where
  notes : ℕ → ℚ × BitVec 16
  count : BitVec 16
  count_pos : 0 < count.toNat

/-- What `notes_pointer` is before the first melody does not matter. -/
def Song.rest : Song where
  notes := fun _ => (0, 0)
  count := 1
  count_pos := Nat.one_pos

/-- The melody that is played. -/
structure Melody where
  playing : Bool := false
  song : Song := .rest
  notesRepeat : Bool := false
  currentNote : BitVec 16 := 0
  currentNoteDuration : BitVec 16 := 0
  noteResting : Bool := false
  lastTimestamp : BitVec 16 := 0

structure State where
  enable : Bool
  tones : ℕ → Tone := fun _ => .empty
  activeTones : ℕ := 0
  playingNote : Bool := false
  driverStopped : Bool := true
  stateChanged : Bool := false
  melody : Melody := {}
  /-- `tone_multiplexing_rate` and `tone_multiplexing_index_shift` -/
  multiplexingRate : BitVec 16
  indexShift : ℕ := 0

/-- What `audio_update_state` reads from the timer, in its order: the current time, twice for
the melody, for a note that it starts, and what the housekeeping reads for the tone of a pitch -/
structure Reads where
  currentTime : BitVec 16
  elapsed : BitVec 16
  delta : BitVec 16
  started : BitVec 16
  housekeeping : ℚ → BitVec 16
  /-- `vibrato || glissando` -/
  effects : Bool

variable (cfg : Config)

/-- The sign that `audio_play_note` and `audio_stop_tone` drop -/
def unsigned (pitch : ℚ) : ℚ := if pitch < 0 then -1 * pitch else pitch

/-- `audio_stop_all` -/
def audioStopAll (state : State) : State :=
  if state.driverStopped then state
  else
    { state with
      activeTones := 0
      melody := { state.melody with playing := false, currentNoteDuration := 0 }
      playingNote := false
      tones := fun _ => .empty
      driverStopped := true }

/-- The tail of `audio_stop_tone` behind the removal of an entry -/
def toneRemoved (state : State) (tones : ℕ → Tone) : State :=
  let activeTones := state.activeTones - 1
  { state with
    tones := tones
    stateChanged := true
    activeTones := activeTones
    indexShift :=
      if cfg.simultaneousTones.isSome && activeTones ≤ state.indexShift then 0
      else state.indexShift
    driverStopped := if activeTones = 0 then true else state.driverStopped
    playingNote := if activeTones = 0 then false else state.playingNote }

/-- `audio_stop_tone`. The loop shifts all entries behind the removed one. -/
def audioStopTone (state : State) (pitch : ℚ) : State :=
  let pitch := unsigned pitch
  if state.playingNote then
    match (List.range cfg.stackSize).reverse.find? fun i => (state.tones i).pitch = pitch with
    | some i =>
      toneRemoved cfg state
        (pullFill .empty (Function.update state.tones i .empty) i (cfg.stackSize - 1))
    | none => state
  else state

/-- The part of `audio_play_note` for a tone that is new -/
def pushTone (state : State) (tone : Tone) : State :=
  let activeTones := state.activeTones + 1
  let (activeTones, tones) :=
    if cfg.stackSize < activeTones then
      (cfg.stackSize, pullDown state.tones (cfg.stackSize - 1))
    else (activeTones, state.tones)
  { state with
    activeTones := activeTones
    stateChanged := true
    playingNote := true
    tones := Function.update tones (activeTones - 1) tone
    driverStopped := false }

/-- `audio_play_note`, over the last of the times that it reads for the start of the tone -/
def audioPlayNote (state : State) (pitch : ℚ) (duration timeStarted : BitVec 16) : State :=
  if !state.enable then state
  else
    let pitch := unsigned pitch
    let tone := { timeStarted := timeStarted, pitch := pitch, duration := duration }
    match (List.range state.activeTones).reverse.find? fun i => (state.tones i).pitch = pitch with
    | some i => { state with tones := pullFill tone state.tones i (state.activeTones - 1) }
    | none => pushTone cfg state tone

/-- `audio_play_melody`, over the times that it reads -/
def audioPlayMelody (state : State) (song : Song) (notesRepeat : Bool)
    (timeStarted lastTimestamp : BitVec 16) : State :=
  if !state.enable then audioStopAll state
  else
    let state := if state.playingNote then audioStopAll state else state
    let duration := cfg.durationToMs (song.notes 0).2
    let state := audioPlayNote cfg { state with
      melody := { state.melody with
        playing := true
        noteResting := false
        song := song
        notesRepeat := notesRepeat
        currentNote := 0 } } (song.notes 0).1 duration timeStarted
    { state with
      melody := { state.melody with
        lastTimestamp := lastTimestamp
        currentNoteDuration := duration } }

/-- The loop of `audio_update_state` that skips notes which have been missed, over how many
there are behind the current one -/
def skipNotes (song : Song) : ℕ → BitVec 16 → BitVec 16 → BitVec 16 × BitVec 16 × BitVec 16
  | 0, current, delta => (current, delta, cfg.durationToMs (song.notes current.toNat).2)
  | left + 1, current, delta =>
    let duration := cfg.durationToMs (song.notes current.toNat).2
    if duration < delta then skipNotes song left (current + 1) (delta - duration)
    else (current, delta, duration)

/-- What a melody does in an update: nothing yet, its end, or a note. -/
inductive Turn where
  | stays
  | ends
  | plays (pitch : ℚ) (duration : BitVec 16)
  deriving DecidableEq, Repr

/-- The part of `audio_update_state` that goes on to the next note of a melody -/
def nextNote (melody : Melody) (reads : Reads) : Melody × Turn :=
  let delta := (reads.delta - melody.lastTimestamp) - melody.currentNoteDuration
  let previous := melody.currentNote
  let current := previous + 1
  let song := melody.song
  let melody := { melody with lastTimestamp := reads.currentTime, currentNote := current }
  if song.count ≤ current ∧ !melody.notesRepeat then (melody, .ends)
  else
    let current := if song.count ≤ current then 0 else current
    if !melody.noteResting ∧ (song.notes previous.toNat).1 = (song.notes current.toNat).1 then
      let duration := cfg.durationToMs 2
      ({ melody with
          noteResting := true
          currentNote := previous
          currentNoteDuration := duration }, .plays 0 duration)
    else
      let (current, delta, duration) :=
        skipNotes cfg song (song.count.toNat - 1 - current.toNat) current delta
      let duration := if delta < duration then duration - delta else 1
      ({ melody with
          noteResting := false
          currentNote := current
          currentNoteDuration := duration }, .plays (song.notes current.toNat).1 duration)

/-- What `audio_update_state` does to the melody: the next note is due, or it is not. -/
def advanceMelody (melody : Melody) (reads : Reads) : Melody × Turn :=
  if melody.playing && melody.currentNoteDuration ≤ reads.elapsed - melody.lastTimestamp then
    nextNote cfg melody reads
  else (melody, .stays)

/-- A tone that has no playtime left -/
def Tone.expired (tone : Tone) (now : BitVec 16) : Bool :=
  tone.duration ≠ 65535 && tone.duration ≠ 0 && tone.duration ≤ now - tone.timeStarted

/-- The multiplexing in `audio_update_state` -/
def updateShift (state : State) (currentTime : BitVec 16) : State :=
  match cfg.simultaneousTones with
  | some simultaneous =>
    { state with
      indexShift := currentTime.toNat / state.multiplexingRate.toNat %
        min simultaneous state.activeTones }
  | none => state

/-- A round of the housekeeping -/
def housekeep (reads : Reads) (state : State) (i : ℕ) : State :=
  if i < state.activeTones ∧
      (state.tones i).expired (reads.housekeeping (state.tones i).pitch) then
    audioStopTone cfg state (state.tones i).pitch
  else state

/-- The part of `audio_update_state` for notes: the multiplexing and the housekeeping. The
number of tones never grows in the loop. -/
def updateTones (state : State) (reads : Reads) : State :=
  if state.playingNote then
    let state := updateShift cfg state reads.currentTime
    (List.range state.activeTones).foldl (housekeep cfg reads) state
  else state

/-- The note that a melody plays in an update -/
def takeTurn (state : State) (turn : Turn) (reads : Reads) : State :=
  match turn with
  | .plays pitch duration => audioPlayNote cfg state pitch duration reads.started
  | .stays | .ends => state

/-- `audio_update_state`, with what it returns -/
def audioUpdateState (state : State) (reads : Reads) : State × Bool :=
  if !state.playingNote && !state.melody.playing then (state, false)
  else
    let (melody, turn) := advanceMelody cfg state.melody reads
    let state := { state with melody := melody }
    match turn with
    | .ends => (audioStopAll state, false)
    | .stays | .plays _ _ =>
      let state := takeTurn cfg state turn reads
      let gotoNextNote := turn ≠ .stays ||
        state.playingNote && (cfg.simultaneousTones.isSome || reads.effects)
      let state := updateTones cfg state reads
      ({ state with stateChanged := false }, state.stateChanged || gotoNextNote)

/-- The functions for the multiplexing rate -/
def audioSetToneMultiplexingRate (state : State) (rate : BitVec 16) : State :=
  { state with multiplexingRate := rate }

def audioIncreaseToneMultiplexingRate (state : State) (change : BitVec 16) : State :=
  if state.multiplexingRate < 65535 - change then
    { state with multiplexingRate := state.multiplexingRate + change }
  else state

def audioDecreaseToneMultiplexingRate (state : State) (change : BitVec 16) : State :=
  if change ≤ state.multiplexingRate then
    { state with multiplexingRate := state.multiplexingRate - change }
  else state

/-- The index that `audio_get_processed_frequency` reads `tones` at, in the 8 bits of its
`int8_t`, if it reads them at all -/
def processedIndex (state : State) (toneIndex : BitVec 8) : Option ℤ :=
  if state.activeTones ≤ toneIndex.toNat then none
  else
    let index := BitVec.ofNat 8 (state.activeTones - toneIndex.toNat - 1)
    let index :=
      if cfg.simultaneousTones.isSome then
        let index := index - BitVec.ofNat 8 state.indexShift
        if index.toInt < 0 then index + BitVec.ofNat 8 state.activeTones else index
      else index
    some index.toInt

/-- What is done with the audio system. -/
inductive Event where
  | playNote (pitch : ℚ) (duration timeStarted : BitVec 16)
  | stopTone (pitch : ℚ)
  | stopAll
  | playMelody (song : Song) (notesRepeat : Bool) (timeStarted lastTimestamp : BitVec 16)
  | update (reads : Reads)
  | setRate (rate : BitVec 16)
  | enableMultiplexing
  | disableMultiplexing
  | increaseRate (change : BitVec 16)
  | decreaseRate (change : BitVec 16)

def step (state : State) : Event → State
  | .playNote pitch duration timeStarted => audioPlayNote cfg state pitch duration timeStarted
  | .stopTone pitch => audioStopTone cfg state pitch
  | .stopAll => audioStopAll state
  | .playMelody song notesRepeat timeStarted lastTimestamp =>
    audioPlayMelody cfg state song notesRepeat timeStarted lastTimestamp
  | .update reads => (audioUpdateState cfg state reads).1
  | .setRate rate => audioSetToneMultiplexingRate state rate
  | .enableMultiplexing => audioSetToneMultiplexingRate state cfg.rateDefault
  | .disableMultiplexing => audioSetToneMultiplexingRate state 0
  | .increaseRate change => audioIncreaseToneMultiplexingRate state change
  | .decreaseRate change => audioDecreaseToneMultiplexingRate state change

/-- The audio system behind `audio_init`, before the startup song -/
def audioInit (enable : Bool) : State where
  enable := enable
  multiplexingRate := cfg.rateDefault

end QmkSonix.Audio
