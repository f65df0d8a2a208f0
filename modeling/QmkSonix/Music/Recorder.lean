import QmkSonix.Lib.Run
import Mathlib.Data.Int.Basic
import Mathlib.Tactic.Common

/-! `process_music.c`: the keys of music mode, and the recorder that plays a sequence of notes
again. What is accessed, divided and sounded on the way is told in order. -/

namespace QmkSonix.Music

open QmkSonix.Lib

inductive Mode where
  | chromatic
  | guitar
  | violin
  | major
  deriving DecidableEq, Repr

/-- `MATRIX_ROWS` -/
structure Config where
  matrixRows : ℕ

structure State where
  musicActivated : Bool := false
  midiActivated : Bool := false
  startingNote : BitVec 8 := 0x0C
  offset : ℤ := 7
  mode : Mode := .major
  recording : Bool := false
  recorded : Bool := false
  playing : Bool := false
  sequence : ℤ → BitVec 8 := fun _ => 0
  count : BitVec 8 := 0
  position : BitVec 8 := 0
  timer : BitVec 16 := 0
  interval : BitVec 16 := 100

/-- What a function does on its way -/
inductive Effect where
  /-- An access to `music_sequence` -/
  | access (index : ℤ)
  /-- A reduction modulo a number -/
  | modulo (divisor : ℕ)
  | noteOn (note : BitVec 8)
  | noteOff (note : BitVec 8)
  | allNotesOff
  deriving DecidableEq, Repr

/-- The keycodes that `process_music` knows, and all others -/
inductive Key where
  | musicOn
  | musicOff
  | musicToggle
  | midiOn
  | midiOff
  | midiToggle
  | musicMode
  | leftCtrl
  | leftAlt
  | leftGui
  | up
  | down
  | other (keycode : BitVec 16)
  deriving DecidableEq, Repr

/-- Notes sound where music or MIDI mode is on. -/
def State.active (state : State) : Bool := state.musicActivated || state.midiActivated

def State.sounds (state : State) (effect : Effect) : List Effect :=
  if state.active then [effect] else []

def Mode.next : Mode → Mode
  | .chromatic => .guitar
  | .guitar => .violin
  | .violin => .major
  | .major => .chromatic

/-- `SCALE`, which goes on here behind its 35 entries -/
def scale (index : ℤ) : ℤ :=
  [0, 2, 4, 5, 7, 9, 11].getD (index.toNat % 7) 0 + 12 * (index.toNat / 7)

/-- The note of a key, without a `MUSIC_MAP` -/
def noteOf (cfg : Config) (state : State) (row col : BitVec 8) : BitVec 8 :=
  let rows : ℤ := cfg.matrixRows - row.toNat
  let start : ℤ := state.startingNote.toNat
  BitVec.ofInt 8 <| match state.mode with
    | .chromatic => start + col.toNat + state.offset - 3 + 12 * rows
    | .guitar => start + col.toNat + state.offset + 32 + 5 * rows
    | .violin => start + col.toNat + state.offset + 32 + 7 * rows
    | .major => start + scale (col.toNat + state.offset) - 3 + 12 * rows

/-- The keys that switch the modes -/
def switchModes (state : State) : Key → Option (State × List Effect)
  | .musicOn => some ({ state with musicActivated := true }, [])
  | .musicOff => some ({ state with musicActivated := false }, state.sounds .allNotesOff)
  | .musicToggle =>
    if state.musicActivated then
      some ({ state with musicActivated := false }, state.sounds .allNotesOff)
    else some ({ state with musicActivated := true }, [])
  | .midiOn => some ({ state with midiActivated := true }, [])
  | .midiOff => some ({ state with midiActivated := false }, [.allNotesOff])
  | .midiToggle =>
    if state.midiActivated then some ({ state with midiActivated := false }, [.allNotesOff])
    else some ({ state with midiActivated := true }, [])
  | .musicMode => some ({ state with mode := state.mode.next }, state.sounds .allNotesOff)
  | _ => none

/-- The keys that control the recorder while a mode is on -/
def controlRecorder (state : State) : Key → Option (State × List Effect)
  | .leftCtrl =>
    some ({ state with recording := true, recorded := false, playing := false, count := 0 },
      state.sounds .allNotesOff)
  | .leftAlt =>
    some ({ state with
      recorded := state.recording || state.recorded
      recording := false
      playing := false }, state.sounds .allNotesOff)
  | .leftGui =>
    if state.recorded then
      some ({ state with recording := false, playing := true, position := 0, timer := 0 },
        state.sounds .allNotesOff)
    else none
  | .up => some ({ state with interval := state.interval - 10 }, [])
  | .down => some ({ state with interval := state.interval + 10 }, [])
  | _ => none

/-- The part of `process_music` that sounds a key and records it -/
def playKey (cfg : Config) (state : State) (pressed : Bool) (row col : BitVec 8) :
    State × List Effect :=
  let note := noteOf cfg state row col
  if pressed then
    if state.recording then
      ({ state with
          sequence := Function.update state.sequence state.count.toNat note
          count := state.count + 1 },
        state.sounds (.noteOn note) ++ [.access state.count.toNat])
    else (state, state.sounds (.noteOn note))
  else (state, state.sounds (.noteOff note))

/-- `process_music`, without whether the key is masked -/
def processMusic (cfg : Config) (state : State) (key : Key) (pressed : Bool) (row col : BitVec 8) :
    State × List Effect :=
  match if pressed then switchModes state key else none with
  | some done => done
  | none =>
    if state.active then
      match if pressed then controlRecorder state key else none with
      | some done => done
      | none => playKey cfg state pressed row col
    else (state, [])

/-- The sequence goes on to its next note, over what `timer_elapsed` reads. -/
def State.due (state : State) (elapsedAt : BitVec 16) : Bool :=
  state.playing && (state.timer = 0 || state.interval < elapsedAt - state.timer)

/-- The index of the note that sounds before the one at the position -/
def State.previous (state : State) : ℤ :=
  let position : ℤ := state.position.toNat
  if position - 1 < 0 then position - 1 + state.count.toNat else position - 1

/-- `music_task`, over the two readings of the timer -/
def musicTask (state : State) (elapsedAt now : BitVec 16) : State × List Effect :=
  if state.due elapsedAt then
    let position : ℤ := state.position.toNat
    ({ state with
        timer := now
        position := BitVec.ofNat 8 ((state.position.toNat + 1) % state.count.toNat) },
      [.access state.previous, .access position] ++
        state.sounds (.noteOff (state.sequence state.previous)) ++
        state.sounds (.noteOn (state.sequence position)) ++ [.modulo state.count.toNat])
  else (state, [])

end QmkSonix.Music
