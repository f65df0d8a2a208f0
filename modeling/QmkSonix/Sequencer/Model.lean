import Mathlib
import QmkSonix.Lib.Run

/-! The step sequencer of `sequencer.c`: tracks whose notes are started and released by a
task with phases. -/

namespace QmkSonix.Sequencer

abbrev Byte := BitVec 8

/-- A build, with the MIDI octave, transposition and first keycode that
`midi_compute_note` uses. -/
structure Config where
  sequencerSteps : Nat := 16
  sequencerTracks : Nat := 8
  trackThrottle : Nat := 3
  phaseReleaseTimeout : Nat := 30
  midiOctave : Byte := 0
  midiTranspose : Int := 0
  midiToneMin : BitVec 16

/-- `midi_compute_note` -/
def Config.midiComputeNote (cfg : Config) (keycode : BitVec 16) : Byte :=
  BitVec.ofInt 8 (12 * cfg.midiOctave.toNat + (keycode.toNat - cfg.midiToneMin.toNat) +
    cfg.midiTranspose)

/-- `sequencer_phase_t` -/
inductive Phase where
  | attack | release | pause
  deriving DecidableEq, Repr

/-- A call of `process_midi_basic_noteon` or `process_midi_basic_noteoff`, for a track. -/
structure Midi where
  track : Nat
  on : Bool
  note : Byte
  deriving DecidableEq, Repr

/-- `SEQUENCER_RESOLUTIONS` -/
def sequencerResolutions : Int := 9

/-- `sequencer_config`, `sequencer_internal_state` and the MIDI calls made so far. The
arrays have `SEQUENCER_STEPS` and `SEQUENCER_TRACKS` places. -/
structure State (cfg : Config) where
  enabled : Bool := false
  steps : Nat → Byte := fun _ => 0
  trackNotes : Nat → BitVec 16 := fun _ => 0
  tempo : Byte := 60
  resolution : Int := 2
  activeTracks : Byte := 0
  currentTrack : Nat := 0
  currentStep : Nat := 0
  timer : BitVec 16 := 0
  phase : Phase := .attack
  midi : List Midi := []

/-- The places of a call of `sequencer_task` at which the timer is read. -/
inductive Reading where
  | pause | release | start | attack

section Functions

variable {cfg : Config} (s : State cfg)

/-- `sequencer_on` -/
def sequencerOn (now : BitVec 16) : State cfg :=
  { s with enabled := true, currentTrack := 0, currentStep := 0, timer := now, phase := .attack }

/-- `sequencer_off` -/
def sequencerOff : State cfg := { s with enabled := false, currentStep := 0 }

/-- `sequencer_toggle` -/
def sequencerToggle (now : BitVec 16) : State cfg :=
  if s.enabled then sequencerOff s else sequencerOn s now

/-- `sequencer_set_track_notes` -/
def sequencerSetTrackNotes (trackNotes : Nat → BitVec 16) : State cfg :=
  { s with trackNotes := fun i => if i < cfg.sequencerTracks then trackNotes i else s.trackNotes i }

/-- `is_sequencer_track_active` -/
def isSequencerTrackActive (track : Nat) : Bool := s.activeTracks.getLsbD track

/-- `sequencer_set_track_activation` -/
def sequencerSetTrackActivation (track : Nat) (value : Bool) : State cfg :=
  { s with activeTracks :=
    if value then s.activeTracks ||| (1 : Byte) <<< track
    else s.activeTracks &&& ~~~((1 : Byte) <<< track) }

/-- `sequencer_toggle_track_activation` -/
def sequencerToggleTrackActivation (track : Nat) : State cfg :=
  sequencerSetTrackActivation s track (!isSequencerTrackActive s track)

/-- `sequencer_toggle_single_active_track` -/
def sequencerToggleSingleActiveTrack (track : Nat) : State cfg :=
  { s with activeTracks := if isSequencerTrackActive s track then 0 else (1 : Byte) <<< track }

/-- `is_sequencer_step_on` -/
def isSequencerStepOn (step : Nat) : Bool :=
  step < cfg.sequencerSteps ∧ s.steps step &&& s.activeTracks ≠ 0

/-- `is_sequencer_step_on_for_track` -/
def isSequencerStepOnForTrack (step track : Nat) : Bool :=
  step < cfg.sequencerSteps ∧ (s.steps step).getLsbD track

/-- What `sequencer_set_step` writes. -/
def withActive (value : Bool) (tracks : Byte) : Byte :=
  if value then tracks ||| s.activeTracks else tracks &&& ~~~s.activeTracks

/-- `sequencer_set_step` -/
def sequencerSetStep (step : Nat) (value : Bool) : State cfg :=
  if step < cfg.sequencerSteps then
    { s with steps := Function.update s.steps step (withActive s value (s.steps step)) }
  else s

/-- `sequencer_toggle_step` -/
def sequencerToggleStep (step : Nat) : State cfg :=
  sequencerSetStep s step (!isSequencerStepOn s step)

/-- `sequencer_set_all_steps` -/
def sequencerSetAllSteps (value : Bool) : State cfg :=
  { s with steps := fun step =>
    if step < cfg.sequencerSteps then withActive s value (s.steps step) else s.steps step }

/-- `sequencer_set_tempo` -/
def sequencerSetTempo (tempo : Byte) : State cfg := if 0 < tempo then { s with tempo } else s

/-- `sequencer_increase_tempo` -/
def sequencerIncreaseTempo : State cfg :=
  if s.tempo < 255 then sequencerSetTempo s (s.tempo + 1) else s

/-- `sequencer_decrease_tempo` -/
def sequencerDecreaseTempo : State cfg := sequencerSetTempo s (s.tempo - 1)

/-- `sequencer_set_resolution` -/
def sequencerSetResolution (resolution : Int) : State cfg :=
  if 0 ≤ resolution ∧ resolution < sequencerResolutions then { s with resolution } else s

/-- `get_beat_duration` -/
def getBeatDuration (tempo : Byte) : Nat := if tempo = 0 then 60000 / 60 else 60000 / tempo.toNat

/-- `get_step_duration`. The durations are `uint16_t`s. -/
def getStepDuration (tempo : Byte) (resolution : Int) : Nat :=
  let isBinary := resolution % 2 = 0
  let binarySteps := (2 <<< (resolution / 2).toNat) % 256
  let binaryStepDuration := (getBeatDuration tempo * 4 / binarySteps) % 65536
  if isBinary then binaryStepDuration else (2 * binaryStepDuration / 3) % 65536

/-- `timer_elapsed(sequencer_internal_state.timer)` -/
def elapsed (now : BitVec 16) : Nat := (now - s.timer).toNat

/-- The note of the current track. -/
def currentNote : Byte := cfg.midiComputeNote (s.trackNotes s.currentTrack)

/-- A MIDI call for the current track, if the current step is on for it. -/
def playCurrent (on : Bool) : State cfg :=
  if isSequencerStepOnForTrack s s.currentStep s.currentTrack then
    { s with midi := s.midi ++ [{ track := s.currentTrack, on, note := currentNote s }] }
  else s

/-- `sequencer_phase_attack` -/
def sequencerPhaseAttack (clock : Reading → BitVec 16) : State cfg :=
  let s := if s.currentTrack = 0 then { s with timer := clock .start } else s
  if elapsed s (clock .attack) < s.currentTrack * cfg.trackThrottle then s
  else
    let s := playCurrent s true
    if s.currentTrack < cfg.sequencerTracks - 1 then { s with currentTrack := s.currentTrack + 1 }
    else { s with phase := .release }

/-- `sequencer_phase_release` -/
def sequencerPhaseRelease (clock : Reading → BitVec 16) : State cfg :=
  if elapsed s (clock .release) < cfg.phaseReleaseTimeout + s.currentTrack * cfg.trackThrottle then s
  else
    let s := playCurrent s false
    if 0 < s.currentTrack then { s with currentTrack := s.currentTrack - 1 }
    else { s with phase := .pause }

/-- `sequencer_phase_pause` -/
def sequencerPhasePause (clock : Reading → BitVec 16) : State cfg :=
  if elapsed s (clock .pause) < getStepDuration s.tempo s.resolution then s
  else { s with currentStep := (s.currentStep + 1) % cfg.sequencerSteps, phase := .attack }

/-- `sequencer_task` -/
def sequencerTask (clock : Reading → BitVec 16) : State cfg :=
  if s.enabled then
    let s := if s.phase = .pause then sequencerPhasePause s clock else s
    let s := if s.phase = .release then sequencerPhaseRelease s clock else s
    if s.phase = .attack then sequencerPhaseAttack s clock else s
  else s

end Functions

/-- The operations. -/
inductive Event where
  | on (now : BitVec 16)
  | off
  | toggle (now : BitVec 16)
  | setTrackNotes (trackNotes : Nat → BitVec 16)
  | setTrackActivation (track : Nat) (value : Bool)
  | toggleTrackActivation (track : Nat)
  | toggleSingleActiveTrack (track : Nat)
  | setStep (step : Nat) (value : Bool)
  | toggleStep (step : Nat)
  | setAllSteps (value : Bool)
  | setTempo (tempo : Byte)
  | increaseTempo
  | decreaseTempo
  | setResolution (resolution : Int)
  | increaseResolution
  | decreaseResolution
  | task (clock : Reading → BitVec 16)

def exec {cfg : Config} (s : State cfg) : Event → State cfg
  | .on now => sequencerOn s now
  | .off => sequencerOff s
  | .toggle now => sequencerToggle s now
  | .setTrackNotes notes => sequencerSetTrackNotes s notes
  | .setTrackActivation track value => sequencerSetTrackActivation s track value
  | .toggleTrackActivation track => sequencerToggleTrackActivation s track
  | .toggleSingleActiveTrack track => sequencerToggleSingleActiveTrack s track
  | .setStep step value => sequencerSetStep s step value
  | .toggleStep step => sequencerToggleStep s step
  | .setAllSteps value => sequencerSetAllSteps s value
  | .setTempo tempo => sequencerSetTempo s tempo
  | .increaseTempo => sequencerIncreaseTempo s
  | .decreaseTempo => sequencerDecreaseTempo s
  | .setResolution resolution => sequencerSetResolution s resolution
  | .increaseResolution => sequencerSetResolution s (s.resolution + 1)
  | .decreaseResolution => sequencerSetResolution s (s.resolution - 1)
  | .task clock => sequencerTask s clock

end QmkSonix.Sequencer
