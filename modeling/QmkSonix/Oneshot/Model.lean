import Mathlib
import QmkSonix.Layer.Model

/-! The one-shot keys of `action_util.c`: a pending layer packed into one signed
byte with its state bits, the pending modifiers, and the switch that turns
one-shot keys on and off. -/

namespace QmkSonix.Oneshot

open Layer (Byte Config LayerState)

/-- One or more of the bits of `oneshot_fullfillment_t`. -/
abbrev Fullfillment := { bits : BitVec 3 // bits ≠ 0 }

def oneshotPressed : Fullfillment := ⟨0b01, by decide⟩
def oneshotOtherKeyPressed : Fullfillment := ⟨0b10, by decide⟩
def oneshotStart : Fullfillment := ⟨0b11, by decide⟩
def oneshotToggled : Fullfillment := ⟨0b100, by decide⟩

/-- `oneshot_layer_data` is an `int8_t`; `oneshot_disable` is the bit of
`keymap_config`. -/
structure State (cfg : Config) where
  oneshotLayerData : BitVec 8 := 0
  oneshotMods : Byte := 0
  oneshotDisable : Bool := false
  layerState : LayerState cfg := 0

section Functions

variable {cfg : Config}

/-- `(layer_state_t)1 << layer`. C leaves a shift by the width of `unsigned` or
more undefined; here it gives no bit. -/
def layerBit (layer : Byte) : LayerState cfg := 1#_ <<< layer.toNat

/-- `layer_on`, with the default `layer_state_set_kb`. -/
def layerOn (layer : Byte) (s : State cfg) : State cfg :=
  { s with layerState := s.layerState ||| layerBit layer }

/-- `layer_off`, with the default `layer_state_set_kb`. -/
def layerOff (layer : Byte) (s : State cfg) : State cfg :=
  { s with layerState := s.layerState &&& ~~~layerBit layer }

/-- `get_oneshot_layer`. The shift of the promoted `int8_t` is arithmetic. -/
def getOneshotLayer (s : State cfg) : Byte := s.oneshotLayerData.sshiftRight 3

/-- `get_oneshot_layer_state` -/
def getOneshotLayerState (s : State cfg) : Byte := s.oneshotLayerData &&& 0b111

/-- `is_oneshot_layer_active` -/
def isOneshotLayerActive (s : State cfg) : Bool := getOneshotLayerState s ≠ 0

/-- `set_oneshot_layer` -/
def setOneshotLayer (layer : Byte) (state : Fullfillment) (s : State cfg) : State cfg :=
  if s.oneshotDisable then layerOn layer s
  else layerOn layer { s with oneshotLayerData := layer <<< 3 ||| state.1.setWidth 8 }

/-- `reset_oneshot_layer` -/
def resetOneshotLayer (s : State cfg) : State cfg := { s with oneshotLayerData := 0 }

/-- The assignment of `clear_oneshot_layer_state`. -/
def removeState (state : Fullfillment) (s : State cfg) : State cfg :=
  { s with oneshotLayerData := s.oneshotLayerData &&& ~~~state.1.setWidth 8 }

/-- The layer that `clear_oneshot_layer_state` passes to `layer_off`. The
comparison is one of the `uint8_t` `start_state` with the `int8_t` as `int`s. -/
def layerTurnedOff (state : Fullfillment) (s : State cfg) : Option Byte :=
  let removed := removeState state s
  if (getOneshotLayerState removed = 0 ∧
      (s.oneshotLayerData.toNat : Int) ≠ removed.oneshotLayerData.toInt) ∧
      !s.oneshotDisable then
    some (getOneshotLayer removed)
  else none

/-- `clear_oneshot_layer_state` -/
def clearOneshotLayerState (state : Fullfillment) (s : State cfg) : State cfg :=
  match layerTurnedOff state s with
  | some layer => resetOneshotLayer (layerOff layer (removeState state s))
  | none => removeState state s

/-- `oneshot_set` -/
def oneshotSet (active : Bool) (s : State cfg) : State cfg :=
  if s.oneshotDisable ≠ active then
    clearOneshotLayerState oneshotOtherKeyPressed { s with oneshotDisable := active }
  else s

/-- `oneshot_toggle` -/
def oneshotToggle (s : State cfg) : State cfg := oneshotSet (!s.oneshotDisable) s

/-- `oneshot_enable` -/
def oneshotEnable (s : State cfg) : State cfg := oneshotSet true s

/-- `oneshot_disable` -/
def oneshotDisable (s : State cfg) : State cfg := oneshotSet false s

/-- `is_oneshot_enabled` -/
def isOneshotEnabled (s : State cfg) : Bool := s.oneshotDisable

/-- `set_oneshot_mods` -/
def setOneshotMods (mods : Byte) (s : State cfg) : State cfg :=
  if !s.oneshotDisable ∧ s.oneshotMods ≠ mods then { s with oneshotMods := mods } else s

/-- `clear_oneshot_mods` -/
def clearOneshotMods (s : State cfg) : State cfg :=
  if s.oneshotMods ≠ 0 then { s with oneshotMods := 0 } else s

/-- What `send_keyboard_report` finds: the other modifiers, whether a key is
down, and whether the one-shot modifiers have timed out. -/
structure Surroundings where
  otherMods : Byte
  hasAnykey : Bool
  oneshotModsTimedOut : Bool

/-- `send_keyboard_report`, with the modifiers it sends. -/
def sendKeyboardReport (around : Surroundings) (s : State cfg) : State cfg × Byte :=
  if s.oneshotMods ≠ 0 then
    let s := if around.oneshotModsTimedOut then clearOneshotMods s else s
    (if around.hasAnykey then clearOneshotMods s else s, around.otherMods ||| s.oneshotMods)
  else (s, around.otherMods)

end Functions

/-- What is done to the one-shot layer, for the layers of a build. -/
inductive LayerOp (cfg : Config) where
  | setOneshotLayer (layer : Fin cfg.maxLayer) (state : Fullfillment)
  | clearOneshotLayerState (state : Fullfillment)
  | resetOneshotLayer

def LayerOp.exec {cfg : Config} (s : State cfg) : LayerOp cfg → State cfg
  | .setOneshotLayer layer state => Oneshot.setOneshotLayer (BitVec.ofNat 8 layer) state s
  | .clearOneshotLayerState state => Oneshot.clearOneshotLayerState state s
  | .resetOneshotLayer => Oneshot.resetOneshotLayer s

/-- The commands around one-shot keys. -/
inductive Op (cfg : Config) where
  | oneshotEnable
  | oneshotDisable
  | oneshotToggle
  | setOneshotMods (mods : Byte)
  | clearOneshotMods
  | sendKeyboardReport (around : Surroundings)
  | layer (op : LayerOp cfg)

def Op.exec {cfg : Config} (s : State cfg) : Op cfg → State cfg
  | .oneshotEnable => Oneshot.oneshotEnable s
  | .oneshotDisable => Oneshot.oneshotDisable s
  | .oneshotToggle => Oneshot.oneshotToggle s
  | .setOneshotMods mods => Oneshot.setOneshotMods mods s
  | .clearOneshotMods => Oneshot.clearOneshotMods s
  | .sendKeyboardReport around => (Oneshot.sendKeyboardReport around s).1
  | .layer op => op.exec s

end QmkSonix.Oneshot
