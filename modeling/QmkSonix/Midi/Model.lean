import Mathlib.Data.Fintype.Basic
import Mathlib.Logic.Function.Basic
import Mathlib.Tactic.Common

/-! `process_midi.c`: the keys of an advanced MIDI keyboard and the messages that they send. The
modulation that `midi_task` sends is left out, except for what the keys set of it. -/

namespace QmkSonix.Midi

/-- A channel and a note, in the bits that a message has for them -/
structure Voice where
  channel : BitVec 4
  note : BitVec 7
  deriving DecidableEq, Repr

/-- What is sent to the host -/
inductive Message where
  | noteOn (voice : Voice) (velocity : BitVec 7)
  | noteOff (voice : Voice) (velocity : BitVec 7)
  | cc (channel : BitVec 4) (controller value : BitVec 8)
  | pitchbend (channel : BitVec 4) (amount : ℤ)
  deriving DecidableEq, Repr

/-- The keycodes of `process_midi`, without `MI_ON` and `MI_OFF`, which belong to music mode -/
inductive Key where
  | tone (tone : Fin 72)
  | octave (octave : Fin 10)
  | octaveDown
  | octaveUp
  | transpose (steps : Fin 13)
  | transposeDown
  | transposeUp
  | velocity (setting : Fin 11)
  | velocityDown
  | velocityUp
  | channel (channel : Fin 16)
  | channelDown
  | channelUp
  | allOff
  | sustain
  | portamento
  | sostenuto
  | soft
  | legato
  | modulation
  | modulationSpeedDown
  | modulationSpeedUp
  | bendDown
  | bendUp
  deriving DecidableEq, Repr

/-- `midi_config_t`, in its bit fields -/
structure MidiConfig where
  octave : BitVec 4
  transpose : BitVec 4
  velocity : BitVec 7
  channel : BitVec 4
  modulationInterval : BitVec 4
  deriving DecidableEq, Repr

structure State where
  midiConfig : MidiConfig
  /-- `tone_status[0]` and `tone_status[1]` -/
  toneNote : Fin 72 → BitVec 8
  tonePresses : Fin 72 → BitVec 8
  modulationStep : ℤ

/-- `MIDI_INVALID_NOTE` -/
def invalidNote : BitVec 8 := 255

def midiInit : State where
  midiConfig :=
    { octave := 4, transpose := 0, velocity := 127, channel := 0, modulationInterval := 8 }
  toneNote := fun _ => invalidNote
  tonePresses := fun _ => 0
  modulationStep := 0

/-- `compute_velocity`, over `MIDI_VELOCITY_MAX - MIDI_VELOCITY_MIN` -/
def computeVelocity (velocityRange setting : ℕ) : BitVec 7 :=
  BitVec.ofNat 7 (setting * (128 / velocityRange) % 256)

def midiComputeNote (config : MidiConfig) (tone : Fin 72) : BitVec 8 :=
  BitVec.ofInt 8 (12 * config.octave.toNat + tone.val + config.transpose.toInt)

/-- The channel and the note of `midi_send_noteon` and `midi_send_noteoff` -/
def voiceOf (channel : BitVec 4) (note : BitVec 8) : Voice := ⟨channel, note.setWidth 7⟩

/-- The tones of `process_midi` -/
def processTone (state : State) (tone : Fin 72) (pressed : Bool) : State × List Message :=
  let channel := state.midiConfig.channel
  let velocity := state.midiConfig.velocity
  if pressed then
    let note := midiComputeNote state.midiConfig tone
    let presses := state.tonePresses tone + 1
    ({ state with
        tonePresses := Function.update state.tonePresses tone presses
        toneNote :=
          if state.toneNote tone = invalidNote then Function.update state.toneNote tone note
          else state.toneNote },
      [.noteOn (voiceOf channel note) velocity])
  else
    let note := state.toneNote tone
    let presses := state.tonePresses tone - 1
    let state := { state with tonePresses := Function.update state.tonePresses tone presses }
    if presses = 0 then
      ({ state with toneNote := Function.update state.toneNote tone invalidNote },
        [.noteOff (voiceOf channel note) velocity])
    else (state, [])

/-- What the keys for octave, transpose, velocity, channel and modulation set when pressed -/
def adjust (velocityRange : ℕ) (config : MidiConfig) : Key → MidiConfig
  | .octave octave => { config with octave := BitVec.ofNat 4 octave.val }
  | .octaveDown => if 0 < config.octave then { config with octave := config.octave - 1 } else config
  | .octaveUp => if config.octave < 9 then { config with octave := config.octave + 1 } else config
  | .transpose steps => { config with transpose := BitVec.ofInt 4 (steps.val - 6) }
  | .transposeDown =>
    if -6 < config.transpose.toInt then { config with transpose := config.transpose - 1 }
    else config
  | .transposeUp =>
    if config.transpose.toInt < 6 then
      let transpose := config.transpose + 1
      { config with
        transpose :=
          if 0 < config.transpose.toInt ∧ transpose.toInt < 0 then transpose - 1 else transpose }
    else config
  | .velocity setting => { config with velocity := computeVelocity velocityRange setting.val }
  | .velocityDown =>
    if 0 < config.velocity then
      { config with
        velocity :=
          if config.velocity = 127 then config.velocity - 10
          else if 12 < config.velocity then config.velocity - 13
          else 0 }
    else config
  | .velocityUp =>
    if config.velocity < 127 then
      { config with velocity := if config.velocity < 115 then config.velocity + 13 else 127 }
    else config
  | .channel channel => { config with channel := BitVec.ofNat 4 channel.val }
  | .channelDown => { config with channel := config.channel - 1 }
  | .channelUp => { config with channel := config.channel + 1 }
  | .modulationSpeedDown =>
    let interval := config.modulationInterval + 1
    { config with modulationInterval := if interval = 0 then interval - 1 else interval }
  | .modulationSpeedUp =>
    if 0 < config.modulationInterval then
      { config with modulationInterval := config.modulationInterval - 1 }
    else config
  | _ => config

/-- What the other keys send -/
def controls (channel : BitVec 4) (pressed : Bool) : Key → List Message
  | .allOff => if pressed then [.cc channel 0x7B 0] else []
  | .sustain => [.cc channel 0x40 (if pressed then 127 else 0)]
  | .portamento => [.cc channel 0x41 (if pressed then 127 else 0)]
  | .sostenuto => [.cc channel 0x42 (if pressed then 127 else 0)]
  | .soft => [.cc channel 0x43 (if pressed then 127 else 0)]
  | .legato => [.cc channel 0x43 (if pressed then 127 else 0)]
  | .bendDown => [.pitchbend channel (if pressed then -0x2000 else 0)]
  | .bendUp => [.pitchbend channel (if pressed then 0x1fff else 0)]
  | _ => []

def processMidi (velocityRange : ℕ) (state : State) (key : Key) (pressed : Bool) :
    State × List Message :=
  match key with
  | .tone tone => processTone state tone pressed
  | .modulation => ({ state with modulationStep := if pressed then 1 else -1 }, [])
  | key =>
    ({ state with
        midiConfig :=
          if pressed then adjust velocityRange state.midiConfig key else state.midiConfig },
      controls state.midiConfig.channel pressed key)

end QmkSonix.Midi
