import Mathlib
import QmkSonix.Lib.Run

/-! Rotary encoders: the pulse counters of `encoder.c` and the values that one half of a
split keyboard mirrors of the other. -/

namespace QmkSonix.Encoder

abbrev Byte := BitVec 8

/-- `encoder_LUT` -/
def encoderLUT (state : BitVec 4) : Byte :=
  ([0, -1, 1, 0, 1, 0, 0, -1, -1, 0, 0, 1, 0, 1, -1, 0] : List Byte).getD state.toNat 0

/-- The encoders of a build. Without `ENCODER_RESOLUTIONS` all resolutions are the same. -/
structure Config where
  numberOfEncoders : Nat
  encoderResolutions : Fin numberOfEncoders → Byte
  encoderDirectionFlip : Bool := false
  encoderDefaultPos : Option Byte := none
  splitKeyboard : Bool := false
  isLeftHand : Bool := true

namespace Config

variable (cfg : Config)

/-- `ENCODER_CLOCKWISE` -/
def encoderClockwise : Bool := !cfg.encoderDirectionFlip

/-- `ENCODER_COUNTER_CLOCKWISE` -/
def encoderCounterClockwise : Bool := cfg.encoderDirectionFlip

/-- Where the encoders of this half begin in `encoder_value`. -/
def thisHand : Nat :=
  if cfg.splitKeyboard then if cfg.isLeftHand then 0 else cfg.numberOfEncoders else 0

/-- Where those of the other half begin. -/
def thatHand : Nat := cfg.numberOfEncoders - cfg.thisHand

end Config

/-- A call of `encoder_update_kb`. -/
structure Update where
  index : Nat
  clockwise : Bool
  deriving DecidableEq, Repr

/-- The two pads of an encoder, as `readPin` gives them. -/
structure Pads where
  a : Bool
  b : Bool
  deriving DecidableEq, Repr

/-- `(readPin(encoders_pad_a[i]) << 0) | (readPin(encoders_pad_b[i]) << 1)` -/
def Pads.bits (pads : Pads) : Byte :=
  (if pads.a then 1 else 0) <<< 0 ||| (if pads.b then 1 else 0) <<< 1

/-- The statics of `encoder.c`, and the calls of `encoder_update_kb` made so far. -/
structure State (cfg : Config) where
  encoderState : Fin cfg.numberOfEncoders → Byte := fun _ => 0
  encoderPulses : Fin cfg.numberOfEncoders → Byte := fun _ => 0
  encoderValue : Nat → Byte := fun _ => 0
  updates : List Update := []

section Functions

variable {cfg : Config}

/-- `encoder_init` -/
def encoderInit (pads : Fin cfg.numberOfEncoders → Pads) : State cfg :=
  { encoderState := fun i => (pads i).bits }

/-- `encoder_value[index]++` and the call with `ENCODER_COUNTER_CLOCKWISE`. -/
def countUp (s : State cfg) (index : Nat) : State cfg :=
  { s with
    encoderValue := Function.update s.encoderValue index (s.encoderValue index + 1)
    updates := s.updates ++ [{ index, clockwise := cfg.encoderCounterClockwise }] }

/-- `encoder_value[index]--` and the call with `ENCODER_CLOCKWISE`. -/
def countDown (s : State cfg) (index : Nat) : State cfg :=
  { s with
    encoderValue := Function.update s.encoderValue index (s.encoderValue index - 1)
    updates := s.updates ++ [{ index, clockwise := cfg.encoderClockwise }] }

/-- `encoder_update` for the state that `encoder_read` passes. The comparisons and the
modulo are made on `int`s. -/
def encoderUpdate (s : State cfg) (i : Fin cfg.numberOfEncoders) : State cfg × Bool :=
  let state := s.encoderState i
  let resolution : Int := (cfg.encoderResolutions i).toNat
  let index := i.val + cfg.thisHand
  let pulses := s.encoderPulses i + encoderLUT (state.setWidth 4)
  let up := resolution ≤ pulses.toInt
  let s := if up then countUp s index else s
  let down := pulses.toInt ≤ -resolution
  let s := if down then countDown s index else s
  let reduced : Byte := BitVec.ofInt 8 (pulses.toInt.tmod resolution)
  let pulses := if cfg.encoderDefaultPos = some (state &&& 0x3) then 0 else reduced
  ({ s with encoderPulses := Function.update s.encoderPulses i pulses }, decide (up ∨ down))

/-- One round of the loop of `encoder_read`, with its flag `changed`. -/
def readEncoder (pads : Fin cfg.numberOfEncoders → Pads) (s : State cfg × Bool)
    (i : Fin cfg.numberOfEncoders) : State cfg × Bool :=
  let shifted := s.1.encoderState i <<< 2 ||| (pads i).bits
  let updated := encoderUpdate
    { s.1 with encoderState := Function.update s.1.encoderState i shifted } i
  (updated.1, s.2 || updated.2)

/-- `encoder_read` -/
def encoderRead (s : State cfg) (pads : Fin cfg.numberOfEncoders → Pads) : State cfg × Bool :=
  (List.finRange cfg.numberOfEncoders).foldl (readEncoder pads) (s, false)

/-- `encoder_state_raw` -/
def encoderStateRaw (s : State cfg) : Vector Byte cfg.numberOfEncoders :=
  Vector.ofFn fun i => s.encoderValue (cfg.thisHand + i)

/-- One round of the loop of `encoder_update_raw`, with its flag `changed`. The
difference is converted to `int8_t`, and one of two loops counts it down to 0. -/
def replayEncoder (slaveState : Vector Byte cfg.numberOfEncoders) (s : State cfg × Bool)
    (i : Fin cfg.numberOfEncoders) : State cfg × Bool :=
  let index := i.val + cfg.thatHand
  let delta := (slaveState.get i - s.1.encoderValue index).toInt
  let counted := (fun s => countUp s index)^[delta.toNat] s.1
  ((fun s => countDown s index)^[(-delta).toNat] counted, s.2 || delta ≠ 0)

/-- `encoder_update_raw`. The flag says whether it calls `last_encoder_activity_trigger`. -/
def encoderUpdateRaw (s : State cfg) (slaveState : Vector Byte cfg.numberOfEncoders) :
    State cfg × Bool :=
  (List.finRange cfg.numberOfEncoders).foldl (replayEncoder slaveState) (s, false)

end Functions

/-- Counter-clockwise minus clockwise updates of one encoder. -/
def net (cfg : Config) (updates : List Update) (index : Nat) : Int :=
  updates.count { index, clockwise := cfg.encoderCounterClockwise } -
    updates.count { index, clockwise := cfg.encoderClockwise }

/-- `encoder_pulses` and the updates sent, in look-up steps. -/
def total {cfg : Config} (s : State cfg) (i : Fin cfg.numberOfEncoders) : Int :=
  net cfg s.updates (i + cfg.thisHand) * (cfg.encoderResolutions i).toNat + (s.encoderPulses i).toInt

end QmkSonix.Encoder
