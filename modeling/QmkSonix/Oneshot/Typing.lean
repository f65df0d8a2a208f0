import Mathlib
import QmkSonix.Layer.Model
import QmkSonix.Oneshot.Model
import QmkSonix.Tapping.Action

/-! What the switch of `process_action` does to the layers, to the one-shot layer
and to the key codes. Modifiers, mouse keys and swapped hands leave all of these
alone and are left out, and so is the code of user macros and user functions. -/

namespace QmkSonix.Oneshot

open Keyboard (KeyRecord)
open Layer (Byte Config LayerState Keymap)
open Tapping (Action Firmware actLmods actRmods actLmodsTap actRmodsTap actUsage actSwapHands
  actLayerTap actLayerTapExt modsOneshot modsTapToggle opTapToggle opOneshot opShToggle
  opShOneshot isMod)

def actLayer : BitVec 4 := 0b1000
def actLayerMods : BitVec 4 := 0b1001

def opOnOff : BitVec 8 := 0xF1
def opOffOn : BitVec 8 := 0xF2
def opSetClear : BitVec 8 := 0xF3

def opBitAnd : BitVec 2 := 0
def opBitOr : BitVec 2 := 1
def opBitXor : BitVec 2 := 2

/-! ### Fields of an action -/

/-- `layer_tap.val` -/
def layerTapVal (action : Action) : Byte := (action.extractLsb' 8 5).setWidth 8

/-- `layer_mods.layer` -/
def layerModsLayer (action : Action) : Byte := (action.extractLsb' 8 4).setWidth 8

/-- `layer_bitop.op` -/
def layerBitopOp (action : Action) : BitVec 2 := action.extractLsb' 10 2

/-- `layer_bitop.on & ON_PRESS` -/
def layerBitopOnPress (action : Action) : Bool := action.getLsbD 8

/-- `layer_bitop.on & ON_RELEASE` -/
def layerBitopOnRelease (action : Action) : Bool := action.getLsbD 9

/-- A tap key that sets a one-shot layer. -/
def isOneshotLayerKey (action : Action) : Bool :=
  (action.kindId = actLayerTap ∨ action.kindId = actLayerTapExt) ∧ action.code = opOneshot

/-- The variables of the firmware that decide what a key does, and what has been
done: the actions of `process_action` with whether they were pressed, and the
calls of `register_code` (true) and `unregister_code`. -/
structure World (cfg : Config) where
  sourceLayersCache : Nat → Nat → Byte := fun _ _ => 0
  defaultLayerState : LayerState cfg := 0
  disableActionCache : Bool := false
  oneshot : State cfg := {}
  performed : List (Action × Bool) := []
  codes : List (Byte × Bool) := []

/-- A keymap and the options of a build. `processRecordQuantum` tells which
records it passes on, and `oneshotTapToggle` is `ONESHOT_TAP_TOGGLE` if that is
defined above 1. -/
structure Build (cfg : Config) where
  keymap : Keymap cfg
  strictLayerRelease : Bool := false
  tappingToggle : Nat := 5
  oneshotTapToggle : Option Nat := none
  processRecordQuantum : KeyRecord → Bool := fun _ => true
  getIgnoreModTapInterrupt : KeyRecord → Bool := fun _ => false

section Switch

variable {cfg : Config}

/-- `bits | mask` of `ACT_LAYER`. -/
def layerBitopState (action : Action) : LayerState cfg :=
  let shift := (action.extractLsb' 5 3).toNat * 4
  let bits := (action.extractLsb' 0 4).setWidth _ <<< shift
  if action.getLsbD 4 then bits ||| ~~~((0xF : BitVec 4).setWidth _ <<< shift) else bits

/-- `layer_and`, `layer_or`, `layer_xor` and `layer_state_set`, by the operation
of an `ACT_LAYER`. -/
def layerBitop (action : Action) (layers : LayerState cfg) : LayerState cfg :=
  if layerBitopOp action = opBitAnd then layers &&& layerBitopState action
  else if layerBitopOp action = opBitOr then layers ||| layerBitopState action
  else if layerBitopOp action = opBitXor then layers ^^^ layerBitopState action
  else layerBitopState action

/-- `default_layer_state` after the switch. -/
def defaultLayersAfter (record : KeyRecord) (action : Action) (layers : LayerState cfg) :
    LayerState cfg :=
  if action.kindId = actLayer ∧ !layerBitopOnPress action ∧ !layerBitopOnRelease action ∧
      !record.pressed then
    layerBitop action layers
  else layers

namespace Build

variable (build : Build cfg)

/-- `layer_state` after an `ACT_LAYER_TAP` that sets no one-shot layer. -/
def layerTap (record : KeyRecord) (action : Action) (layers : LayerState cfg) :
    LayerState cfg :=
  let layer : LayerState cfg := layerBit (layerTapVal action)
  let turn (on : Bool) := if on then layers ||| layer else layers &&& ~~~layer
  if action.code = opTapToggle then
    if (if record.pressed then record.tap.count < build.tappingToggle
        else record.tap.count ≤ build.tappingToggle) then layers ^^^ layer else layers
  else if action.code = opOnOff then turn record.pressed
  else if action.code = opOffOn then turn (!record.pressed)
  else if action.code = opSetClear then if record.pressed then layer else 0
  else if 0 < record.tap.count then layers
  else turn record.pressed

/-- `layer_state` after the switch, for every action but a one-shot layer key. -/
def layersAfter (record : KeyRecord) (action : Action) (layers : LayerState cfg) :
    LayerState cfg :=
  if action.kindId = actLayer then
    if (if record.pressed then layerBitopOnPress action else layerBitopOnRelease action) then
      layerBitop action layers
    else layers
  else if action.kindId = actLayerMods then
    if record.pressed then layers ||| layerBit (layerModsLayer action)
    else layers &&& ~~~layerBit (layerModsLayer action)
  else if action.kindId = actLayerTap ∨ action.kindId = actLayerTapExt then
    build.layerTap record action layers
  else layers

/-- Whether the switch calls `register_code` or `unregister_code`. -/
def sendsCode (record : KeyRecord) (action : Action) : Bool :=
  if action.kindId = actLmods ∨ action.kindId = actRmods then true
  else if action.kindId = actLmodsTap ∨ action.kindId = actRmodsTap then
    action.code ≠ modsOneshot ∧ action.code ≠ modsTapToggle ∧ 0 < record.tap.count ∧
      ¬(record.pressed ∧ !build.getIgnoreModTapInterrupt record ∧ record.tap.interrupted)
  else if action.kindId = actLayerTap ∨ action.kindId = actLayerTapExt then
    action.code ∉ [opTapToggle, opOnOff, opOffOn, opSetClear, opOneshot] ∧ 0 < record.tap.count
  else if action.kindId = actSwapHands then
    (action.code < opShToggle ∨ opShOneshot < action.code) ∧ 0 < record.tap.count
  else false

/-- The calls of `register_code` and `unregister_code` that are not about `KC_NO`. -/
def codeCalls (record : KeyRecord) (action : Action) : List (Byte × Bool) :=
  if build.sendsCode record action ∧ action.code ≠ 0 then [(action.code, record.pressed)] else []

/-- What a one-shot layer key does. -/
def oneshotLayerKey (record : KeyRecord) (action : Action) (s : State cfg) : State cfg :=
  let layer := layerTapVal action
  if s.oneshotDisable then if record.pressed then layerOn layer s else layerOff layer s
  else
    match build.oneshotTapToggle with
    | some toggle =>
      if record.pressed then
        if getOneshotLayerState s = oneshotToggled.1.setWidth 8 then
          layerOff layer (resetOneshotLayer s)
        else if record.tap.count < toggle then
          setOneshotLayer layer oneshotStart (layerOn layer s)
        else s
      else if toggle ≤ record.tap.count then
        setOneshotLayer layer oneshotToggled (resetOneshotLayer s)
      else clearOneshotLayerState oneshotPressed s
    | none =>
      if record.pressed then setOneshotLayer layer oneshotStart (layerOn layer s)
      else
        let released := clearOneshotLayerState oneshotPressed s
        if 1 < record.tap.count then clearOneshotLayerState oneshotOtherKeyPressed released
        else released

/-- The switch of `process_action`. -/
def perform (world : World cfg) (record : KeyRecord) (action : Action) : World cfg :=
  { world with
    defaultLayerState := defaultLayersAfter record action world.defaultLayerState
    oneshot :=
      if isOneshotLayerKey action then build.oneshotLayerKey record action world.oneshot
      else
        { world.oneshot with
          layerState := build.layersAfter record action world.oneshot.layerState }
    performed := world.performed ++ [(action, record.pressed)]
    codes := world.codes ++ build.codeCalls record action }

end Build

/-! ### The firmware around the switch -/

/-- The key of the matrix at a position. -/
def matrixKey (key : Keyboard.KeyPos) : Option (Layer.KeyPos cfg) :=
  if inside : key.row.toNat < cfg.matrixRows ∧ key.col.toNat < cfg.matrixCols then
    some ⟨⟨key.row.toNat, inside.1⟩, ⟨key.col.toNat, inside.2⟩⟩
  else none

namespace Build

variable (build : Build cfg)

/-- What `action_layer.c` sees. With `STRICT_LAYER_RELEASE` there is no cache. -/
def layers (world : World cfg) : Layer.State cfg where
  sourceLayersCache := world.sourceLayersCache
  layerState := world.oneshot.layerState
  defaultLayerState := world.defaultLayerState
  disableActionCache := build.strictLayerRelease || world.disableActionCache

/-- `store_or_get_action`. No event comes from outside the matrix. -/
def storeOrGetAction (world : World cfg) (pressed : Bool) (key : Keyboard.KeyPos) :
    Action × World cfg :=
  match matrixKey key with
  | some key =>
    let stored := Layer.storeOrGetAction build.keymap (build.layers world) pressed key
    (stored.2, { world with sourceLayersCache := stored.1.sourceLayersCache })
  | none => (0, world)

/-- The firmware with this switch. The hooks have their weak definitions, and
tapping its defaults. -/
def firmware : Firmware (World cfg) where
  layerSwitchGetAction world key := ((matrixKey key).map fun key =>
    Layer.layerSwitchGetAction build.keymap (build.layers world) key).getD 0
  storeOrGetAction := build.storeOrGetAction
  processRecordQuantum world record := (build.processRecordQuantum record, world)
  postProcessRecordQuantum world _ := world
  processRecordTapHint world _ := world
  perform := build.perform
  isOneshotLayerActive world := isOneshotLayerActive world.oneshot
  oneshotPressed world :=
    getOneshotLayerState world.oneshot &&& oneshotPressed.1.setWidth 8 ≠ 0
  oneshotDisable world := world.oneshot.oneshotDisable
  clearOneshotLayerState world :=
    { world with oneshot := clearOneshotLayerState oneshotOtherKeyPressed world.oneshot }
  oneshotLayerOn world :=
    { world with oneshot := layerOn (getOneshotLayer world.oneshot) world.oneshot }
  oneshotLayerOff world :=
    { world with oneshot := layerOff (getOneshotLayer world.oneshot) world.oneshot }
  oneshotTapToggle := build.oneshotTapToggle.isSome
  clearKeyboard world := world
  getTappingTerm _ _ _ := 200
  getPermissiveHold _ _ _ := false
  getHoldOnOtherKeyPress _ _ _ := false
  getTappingForceHold _ _ _ := false
  getIgnoreModTapInterrupt _ record := build.getIgnoreModTapInterrupt record

variable (world : World cfg) (record : KeyRecord) (action : Action)

@[simp] theorem firmware_isOneshotLayerActive :
    build.firmware.isOneshotLayerActive world = isOneshotLayerActive world.oneshot := rfl

@[simp] theorem firmware_oneshotDisable :
    build.firmware.oneshotDisable world = world.oneshot.oneshotDisable := rfl

@[simp] theorem firmware_oneshotPressed : build.firmware.oneshotPressed world =
    decide (getOneshotLayerState world.oneshot &&& oneshotPressed.1.setWidth 8 ≠ 0) := rfl

@[simp] theorem firmware_clearOneshotLayerState : build.firmware.clearOneshotLayerState world =
    { world with oneshot := clearOneshotLayerState oneshotOtherKeyPressed world.oneshot } := rfl

@[simp] theorem firmware_oneshotLayerOn : build.firmware.oneshotLayerOn world =
    { world with oneshot := layerOn (getOneshotLayer world.oneshot) world.oneshot } := rfl

@[simp] theorem firmware_oneshotLayerOff : build.firmware.oneshotLayerOff world =
    { world with oneshot := layerOff (getOneshotLayer world.oneshot) world.oneshot } := rfl

@[simp] theorem firmware_perform :
    build.firmware.perform world record action = build.perform world record action := rfl

@[simp] theorem firmware_storeOrGetAction (pressed : Bool) (key : Keyboard.KeyPos) :
    build.firmware.storeOrGetAction world pressed key = build.storeOrGetAction world pressed key :=
  rfl

@[simp] theorem firmware_processRecordQuantum : build.firmware.processRecordQuantum world record =
    (build.processRecordQuantum record, world) := rfl

@[simp] theorem firmware_postProcessRecordQuantum :
    build.firmware.postProcessRecordQuantum world record = world := rfl

end Build

end Switch

end QmkSonix.Oneshot
