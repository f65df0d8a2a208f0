import Mathlib
import QmkSonix.Layer.Sticky
import QmkSonix.Oneshot.Bookkeeping
import QmkSonix.Oneshot.Typing

/-! A key typed under a one-shot layer. The layer is given up before the release
is made up, so that `get_oneshot_layer` is 0 by then: the release runs with layer
0 turned on, and layer 0 is turned off behind it. -/

namespace QmkSonix.Oneshot

open Keyboard (KeyRecord)
open Layer (Byte Config LayerState topLayer updateSourceLayersCache readSourceLayersCache)
open Tapping (Action isNoEvent actUsage actSwapHands actLmodsTap actRmodsTap actLayerTap
  actLayerTapExt opShOneshot isMod Processed)

/-- The codes registered and not yet unregistered. -/
def registered (codes : List (Byte × Bool)) (code : Byte) : Bool :=
  codes.foldl (fun held call => if call.1 = code then call.2 else held) false

variable {cfg : Config}

/-- The layer is active as a one-shot layer whose own key is released. -/
structure Pending (world : World cfg) (layer : Fin cfg.maxLayer) : Prop where
  enabled : world.oneshot.oneshotDisable = false
  data : world.oneshot.oneshotLayerData =
    BitVec.ofNat 8 layer <<< 3 ||| oneshotOtherKeyPressed.1.setWidth 8
  on : world.oneshot.layerState.getLsbD layer = true

/-- The record of a press of a key. -/
structure Presses (record : KeyRecord) (key : Layer.KeyPos cfg) : Prop where
  inMatrix : matrixKey record.key = some key
  pressed : record.pressed = true
  event : isNoEvent record.event = false

/-- The actions that use up a one-shot layer and do not set another. -/
def UsesUp (action : Action) : Prop :=
  (action.kindId = actUsage ∨ ¬isMod action.code) ∧
    ¬(action.kindId = actSwapHands ∧ action.code = opShOneshot) ∧ ¬isOneshotLayerKey action

instance (action : Action) : Decidable (UsesUp action) := inferInstanceAs (Decidable (_ ∧ _ ∧ _))

namespace Build

variable (build : Build cfg) (world : World cfg) (record : KeyRecord)

/-- The action of a press. -/
def pressAction (key : Layer.KeyPos cfg) : Action :=
  Layer.layerSwitchGetAction build.keymap (build.layers world) key

/-- The end of `process_record` for a press, from `process_record_handler` on. -/
def afterPress : World cfg :=
  (build.firmware.processRecordHandler
    (build.firmware.processRecordBody fun world record =>
      { world := world, record := record, calls := [] }) world record).world

/-- The record of the release that `process_action` makes up. -/
def releaseOf (action : Action) : KeyRecord :=
  let left := build.firmware.leaveRecord world record action
  { left with event := { left.event with pressed := false } }

end Build

/-- What is left of the layers when the one-shot layer is used up. The byte holds
layers below 16 only. -/
def usedUp (layer : Fin cfg.maxLayer) (layers : LayerState cfg) : LayerState cfg :=
  if layer.val < 16 then layers &&& ~~~layerBit (BitVec.ofNat 8 layer) else layers

/-- The release runs the action of the press, no code stays registered, and of
the layers only the one-shot layer is turned off. -/
structure Released (build : Build cfg) (world : World cfg) (record : KeyRecord)
    (key : Layer.KeyPos cfg) (layer : Fin cfg.maxLayer) : Prop where
  sameAction : (build.afterPress world record).performed = world.performed ++
    [(build.pressAction world key, true), (build.pressAction world key, false)]
  nothingHeld : ∀ code, registered (build.afterPress world record).codes code →
    registered world.codes code
  onlyTurnedOff : (build.afterPress world record).oneshot.layerState =
    world.oneshot.layerState &&& ~~~layerBit (BitVec.ofNat 8 layer)

/-- The release is passed on, it finds the action in the cache or again with
layer 0 in place of the one-shot layer, layer 0 is not kept on, and the action
itself leaves the other layers as they are without the one-shot layer. -/
structure Clean (build : Build cfg) (world : World cfg) (record : KeyRecord)
    (key : Layer.KeyPos cfg) (layer : Fin cfg.maxLayer) : Prop where
  passedOn : build.processRecordQuantum
    (build.releaseOf world record (build.pressAction world key)) = true
  found : (build.strictLayerRelease || world.disableActionCache) = false ∨
    build.keymap (topLayer build.keymap
      ((build.layersAfter record (build.pressAction world key)
          (usedUp layer world.oneshot.layerState) ||| layerBit 0) |||
        world.defaultLayerState) key cfg.maxLayer) key = build.pressAction world key
  zeroOff : layer.val = 0 ∨ world.oneshot.layerState.getLsbD 0 = false
  othersKept : ∀ i ≠ 0,
    (build.layersAfter (build.releaseOf world record (build.pressAction world key))
      (build.pressAction world key)
      (build.layersAfter record (build.pressAction world key)
        (usedUp layer world.oneshot.layerState))).getLsbD i =
      (world.oneshot.layerState &&& ~~~layerBit (BitVec.ofNat 8 layer)).getLsbD i

/-! ### The cache -/

/-- The layer just stored for a key is read back. -/
theorem read_update (cache : Nat → Nat → Byte) (key : Layer.KeyPos cfg) {layer : Byte}
    (small : layer.toNat < cfg.maxLayer) :
    readSourceLayersCache (updateSourceLayersCache cache key layer) key = layer := by
  have limit := cfg.bitsFit
  apply BitVec.eq_of_getLsbD_eq
  intro i below
  have planes := Layer.planeBit_updatePlanes cache key key layer cfg.maxLayerBits i (by omega)
  rw [Layer.getLsbD_readSourceLayersCache _ _ _ below, updateSourceLayersCache,
    ← Layer.updatePlanes, planes]
  by_cases within : i < cfg.maxLayerBits
  · simp [within]
  · have high : layer.toNat.testBit i = false := by
      apply Nat.testBit_lt_two_pow
      calc layer.toNat < cfg.maxLayer := small
        _ ≤ 2 ^ cfg.maxLayerBits := cfg.layersFit
        _ ≤ 2 ^ i := Nat.pow_le_pow_right (by decide) (Nat.not_lt.mp within)
    simp [within, BitVec.getLsbD, high]

section Lookup

variable (build : Build cfg) (world : World cfg) (key : Layer.KeyPos cfg)

theorem switchLayer_lt : Layer.layerSwitchGetLayer build.keymap (build.layers world) key <
    cfg.maxLayer :=
  Layer.topLayer_lt build.keymap _ key cfg.someLayer

theorem toNat_switchLayer :
    (BitVec.ofNat 8 (Layer.layerSwitchGetLayer build.keymap (build.layers world) key)).toNat =
      Layer.layerSwitchGetLayer build.keymap (build.layers world) key := by
  have small := switchLayer_lt build world key
  have limit := Layer.maxLayer_le cfg
  rw [BitVec.toNat_ofNat]
  omega

theorem press_action : (Layer.storeOrGetAction build.keymap (build.layers world) true key).2 =
    build.pressAction world key := by
  rw [Layer.storeOrGetAction, Build.pressAction]
  split
  · rfl
  · rw [if_pos rfl]
    simp only [toNat_switchLayer, Layer.layerSwitchGetAction]

/-- A release finds the action of the press in the cache, or looks it up again
when there is no cache. -/
theorem release_action {after : World cfg}
    (stored : after.sourceLayersCache =
      (Layer.storeOrGetAction build.keymap (build.layers world) true key).1.sourceLayersCache)
    (flag : after.disableActionCache = world.disableActionCache) :
    (Layer.storeOrGetAction build.keymap (build.layers after) false key).2 =
      if build.strictLayerRelease || world.disableActionCache then
        build.pressAction after key
      else build.pressAction world key := by
  have same : (build.layers after).disableActionCache =
      (build.strictLayerRelease || world.disableActionCache) := by rw [Build.layers, flag]
  rw [Layer.storeOrGetAction, same]
  by_cases uncached : (build.strictLayerRelease || world.disableActionCache) = true
  · simp [uncached, Build.pressAction]
  · have uncached' : ¬(build.layers world).disableActionCache = true := uncached
    have written : after.sourceLayersCache = updateSourceLayersCache world.sourceLayersCache key
        (BitVec.ofNat 8 (Layer.layerSwitchGetLayer build.keymap (build.layers world) key)) := by
      rw [stored, Layer.storeOrGetAction, if_neg uncached', if_pos rfl]
      rfl
    have small := switchLayer_lt build world key
    rw [← toNat_switchLayer] at small
    rw [if_neg uncached, if_neg uncached, if_neg Bool.false_ne_true]
    have read := read_update world.sourceLayersCache key small
    have lookup : readSourceLayersCache (build.layers after).sourceLayersCache key = _ :=
      (congrArg (readSourceLayersCache · key) written).trans read
    rw [lookup]
    simp only [toNat_switchLayer]
    rfl

end Lookup

/-! ### Using the one-shot layer up -/

theorem waiting_byte : ∀ layer : Fin 32,
    (BitVec.ofNat 8 layer <<< 3 ||| oneshotOtherKeyPressed.1.setWidth 8 : BitVec 8) &&& 0b111 =
        2 ∧
      (BitVec.ofNat 8 layer <<< 3 ||| oneshotOtherKeyPressed.1.setWidth 8 : BitVec 8) &&&
        ~~~oneshotOtherKeyPressed.1.setWidth 8 = BitVec.ofNat 8 layer <<< 3 := by
  decide +kernel

/-- Without the bit of the other key no state bit is left, the byte has changed,
and the layer read back is the one set below 16 and none of the build above. -/
theorem emptied_byte : ∀ layer : Fin 32,
    (BitVec.ofNat 8 layer <<< 3 : BitVec 8) &&& 0b111 = 0 ∧
      ((BitVec.ofNat 8 layer <<< 3 ||| oneshotOtherKeyPressed.1.setWidth 8 :
          BitVec 8).toNat : Int) ≠
        (BitVec.ofNat 8 layer <<< 3 : BitVec 8).toInt ∧
      if layer.val < 16 then
        (BitVec.ofNat 8 layer <<< 3 : BitVec 8).sshiftRight 3 = BitVec.ofNat 8 layer
      else 32 ≤ ((BitVec.ofNat 8 layer <<< 3 : BitVec 8).sshiftRight 3).toNat := by
  decide +kernel

section Press

variable {world : World cfg} {layer : Fin cfg.maxLayer}

theorem Pending.active (pending : Pending world layer) : isOneshotLayerActive world.oneshot := by
  rw [isOneshotLayerActive_iff, pending.data, (waiting_byte ⟨layer.val, layer_lt layer⟩).1]
  decide

/-- The press gives the layer up, and turns it off when it is below 16. -/
theorem Pending.clear (pending : Pending world layer) :
    clearOneshotLayerState oneshotOtherKeyPressed world.oneshot =
      { world.oneshot with
        oneshotLayerData := 0
        layerState := usedUp layer world.oneshot.layerState } := by
  have removed := (waiting_byte ⟨layer.val, layer_lt layer⟩).2
  obtain ⟨noState, changed, _⟩ := emptied_byte ⟨layer.val, layer_lt layer⟩
  have number : if layer.val < 16 then
        (BitVec.ofNat 8 layer.val <<< 3 : BitVec 8).sshiftRight 3 = BitVec.ofNat 8 layer.val
      else 32 ≤ ((BitVec.ofNat 8 layer.val <<< 3 : BitVec 8).sshiftRight 3).toNat :=
    (emptied_byte ⟨layer.val, layer_lt layer⟩).2.2
  have turned : layerTurnedOff oneshotOtherKeyPressed world.oneshot =
      some ((BitVec.ofNat 8 layer.val <<< 3 : BitVec 8).sshiftRight 3) := by
    simp only [layerTurnedOff, removeState, getOneshotLayerState, getOneshotLayer, pending.data,
      pending.enabled]
    rw [removed, if_pos ⟨⟨noState, changed⟩, rfl⟩]
  have same : world.oneshot.layerState &&&
      ~~~layerBit ((BitVec.ofNat 8 layer.val <<< 3 : BitVec 8).sshiftRight 3) =
        usedUp layer world.oneshot.layerState := by
    rw [usedUp]
    split
    · rename_i low
      rw [if_pos low] at number
      rw [number]
    · rename_i high
      rw [if_neg high] at number
      apply BitVec.eq_of_getLsbD_eq
      intro i below
      have width : 2 ^ cfg.maxLayerBits ≤ 2 ^ 5 := Nat.pow_le_pow_right (by decide) cfg.bitsFit
      rw [BitVec.getLsbD_and, BitVec.getLsbD_not, getLsbD_layerBit]
      have apart : ¬((BitVec.ofNat 8 layer.val <<< 3 : BitVec 8).sshiftRight 3).toNat = i := by
        omega
      simp [apart, below]
  rw [clearOneshotLayerState, turned]
  simp only [resetOneshotLayer, layerOff, removeState, same]

end Press

/-! ### The action and its release -/

section Action

variable (build : Build cfg) {world : World cfg} {record : KeyRecord} {action : Action}

theorem leaveRecord_press (pressed : record.pressed = true) :
    build.firmware.leaveRecord world record action =
      if build.firmware.cancelsTap world record action then
        { record with tap := { record.tap with count := 0 } }
      else record := by
  have noReset : Tapping.Firmware.resetsTap record action = false := by
    simp [Tapping.Firmware.resetsTap, pressed]
  rw [Tapping.Firmware.leaveRecord, noReset]
  rfl

@[simp] theorem releaseOf_pressed : (build.releaseOf world record action).pressed = false := rfl

@[simp] theorem releaseOf_key (pressed : record.pressed = true) :
    (build.releaseOf world record action).key = record.key := by
  rw [Build.releaseOf, leaveRecord_press build pressed]
  split <;> rfl

/-- The release unregisters what the press registered: a mod-tap that counts as
a hold counts as one for its release too. -/
theorem sendsCode_release (pressed : record.pressed = true) :
    build.sendsCode (build.releaseOf world record action) action =
      build.sendsCode record action := by
  by_cases cancels : build.firmware.cancelsTap world record action = true
  · have noTap : (build.releaseOf world record action).tap.count = 0 := by
      simp only [Build.releaseOf, leaveRecord_press build pressed, cancels, if_true]
    simp only [Tapping.Firmware.cancelsTap, decide_eq_true_eq] at cancels
    obtain ⟨kind, notOneshot, notToggle, _, tapped, interrupted, heeded⟩ := cancels
    have notMods : ¬(action.kindId = Tapping.actLmods ∨ action.kindId = Tapping.actRmods) := by
      rcases kind with kind | kind <;> rw [kind] <;> decide
    have heeded : build.getIgnoreModTapInterrupt record = false := heeded
    simp only [Build.sendsCode, if_neg notMods, if_pos kind, noTap, pressed, interrupted, heeded]
    simp
  · have same : (build.releaseOf world record action).tap = record.tap := by
      simp only [Build.releaseOf, leaveRecord_press build pressed, cancels]
      rfl
    simp only [Build.sendsCode, same, releaseOf_pressed]
    by_cases kind : action.kindId = actLmodsTap ∨ action.kindId = actRmodsTap
    · simp only [Tapping.Firmware.cancelsTap, decide_eq_true_eq, kind, true_and] at cancels
      have notMods : ¬(action.kindId = Tapping.actLmods ∨ action.kindId = Tapping.actRmods) := by
        rcases kind with kind | kind <;> rw [kind] <;> decide
      have heeded : build.firmware.getIgnoreModTapInterrupt world record =
        build.getIgnoreModTapInterrupt record := rfl
      simp only [kind, pressed, heeded, if_neg notMods, if_true, true_and, decide_eq_decide]
        at cancels ⊢
      cases ignored : build.getIgnoreModTapInterrupt record with
      | false => simpa [ignored] using cancels
      | true => simp
    · simp [kind]

theorem codeCalls_release (pressed : record.pressed = true) :
    build.codeCalls (build.releaseOf world record action) action =
      (build.codeCalls record action).map fun call => (call.1, false) := by
  simp only [Build.codeCalls, sendsCode_release build pressed, releaseOf_pressed]
  split <;> rfl

/-- Every bit of the layers depends on that bit only. -/
theorem layersAfter_local {layers layers' : LayerState cfg} {i : Nat}
    (same : layers.getLsbD i = layers'.getLsbD i) :
    (build.layersAfter record action layers).getLsbD i =
      (build.layersAfter record action layers').getLsbD i := by
  simp only [Build.layersAfter, Build.layerTap, layerBitop]
  split_ifs <;> simp [same]

end Action

/-- Pressing codes and unregistering each of them leaves no code registered that
was not before. -/
theorem registered_released (codes calls : List (Byte × Bool)) (code : Byte)
    (few : calls.length ≤ 1) (presses : ∀ call ∈ calls, call.2 = true) :
    registered (codes ++ calls ++ calls.map fun call => (call.1, false)) code →
      registered codes code := by
  match calls, few with
  | [], _ => simp
  | [call], _ =>
    simp only [registered, List.foldl_append, List.map_cons, List.map_nil, List.foldl_cons,
      List.foldl_nil]
    split <;> simp

/-! ### The press as a whole -/

section Whole

variable (build : Build cfg) (world : World cfg) (record : KeyRecord) (key : Layer.KeyPos cfg)
  (layer : Fin cfg.maxLayer)

/-- The world in which the switch runs for the press. -/
def Build.cleared : World cfg :=
  { world with
    sourceLayersCache :=
      (Layer.storeOrGetAction build.keymap (build.layers world) true key).1.sourceLayersCache
    oneshot :=
      { world.oneshot with
        oneshotLayerData := 0
        layerState := usedUp layer world.oneshot.layerState } }

/-- The world in which the release is processed: layer 0 is on. -/
def Build.onZero : World cfg :=
  let pressed := build.perform (build.cleared world key layer) record (build.pressAction world key)
  { pressed with oneshot := layerOn 0 pressed.oneshot }

/-- The action that the release finds. -/
def Build.secondAction : Action :=
  (Layer.storeOrGetAction build.keymap
    (build.layers (build.onZero world record key layer)) false key).2

/-- The world after the release, before the one-shot layer is looked up again. -/
def Build.afterRelease : World cfg :=
  let release := build.releaseOf world record (build.pressAction world key)
  if build.processRecordQuantum release then
    build.perform (build.onZero world record key layer) release
      (build.secondAction world record key layer)
  else build.onZero world record key layer

variable {build world record key layer}

theorem perform_keeps_data {before : World cfg} {action : Action} (uses : UsesUp action) :
    (build.perform before record action).oneshot =
      { before.oneshot with
        layerState := build.layersAfter record action before.oneshot.layerState } := by
  have notOneshot : ¬isOneshotLayerKey action = true := uses.2.2
  simp only [Build.perform, if_neg notOneshot]

/-- A press that uses the one-shot layer up ends with the release. -/
theorem process_press (again : World cfg → KeyRecord → Processed (World cfg))
    (presses : Presses record key) {action : Action} (uses : UsesUp action) {stored : World cfg}
    (active : isOneshotLayerActive stored.oneshot) (enabled : stored.oneshot.oneshotDisable = false)
    (empty : (clearOneshotLayerState oneshotOtherKeyPressed stored.oneshot).oneshotLayerData = 0) :
    build.firmware.processAction again stored record action =
      let pressed := build.perform (build.firmware.clearOneshotLayerState stored) record action
      let released := again { pressed with oneshot := layerOn 0 pressed.oneshot }
        (build.releaseOf world record action)
      { released with world := build.firmware.oneshotLayerOff released.world } := by
  have used : build.firmware.usesOneshotLayer stored record action = true := by
    have notSwap := uses.2.1
    simp only [Tapping.Firmware.usesOneshotLayer, Build.firmware_isOneshotLayerActive,
      Build.firmware_oneshotDisable, active, presses.pressed, enabled, decide_eq_true_eq]
    exact ⟨trivial, trivial, uses.1, notSwap, by decide⟩
  have keeps : build.firmware.keepsOneshotLayer
      (build.firmware.clearOneshotLayerState stored) action = false := by
    have notOneshot := uses.2.2
    simp only [isOneshotLayerKey, decide_eq_true_eq] at notOneshot
    simp only [Tapping.Firmware.keepsOneshotLayer, decide_eq_false_iff_not]
    exact fun kept => notOneshot ⟨kept.2.1, kept.2.2.1⟩
  have inactive : build.firmware.isOneshotLayerActive
      (build.firmware.clearOneshotLayerState stored) = false := by
    simp [isOneshotLayerActive, getOneshotLayerState, empty]
  have data : (build.perform (build.firmware.clearOneshotLayerState stored) record
      action).oneshot.oneshotLayerData = 0 := by
    rw [perform_keeps_data uses]
    exact empty
  have notPressed : build.firmware.oneshotPressed (build.perform
      (build.firmware.clearOneshotLayerState stored) record action) = false := by
    rw [Build.firmware_oneshotPressed, getOneshotLayerState, data]
    rfl
  have zero : getOneshotLayer (build.perform
      (build.firmware.clearOneshotLayerState stored) record action).oneshot = 0 := by
    rw [getOneshotLayer, data]
    rfl
  simp only [Tapping.Firmware.processAction, used, if_true, inactive, keeps,
    Build.firmware_perform, notPressed, Build.firmware_oneshotLayerOn, zero]
  rfl

/-- What `process_record` does with a release. -/
theorem process_release (again : World cfg → KeyRecord → Processed (World cfg))
    {release : KeyRecord} (inMatrix : matrixKey release.key = some key)
    (noPress : release.pressed = false) (event : isNoEvent release.event = false)
    (before : World cfg) :
    (build.firmware.processRecordBody again before release).world =
      if build.processRecordQuantum release then
        build.perform before release
          (Layer.storeOrGetAction build.keymap (build.layers before) false key).2
      else before := by
  have unused (stored : World cfg) (action : Action) :
      build.firmware.usesOneshotLayer stored release action = false := by
    simp [Tapping.Firmware.usesOneshotLayer, noPress]
  have stored : build.storeOrGetAction before false release.key =
      ((Layer.storeOrGetAction build.keymap (build.layers before) false key).2, before) := by
    have unchanged : (Layer.storeOrGetAction build.keymap (build.layers before) false key).1 =
        build.layers before := by
      rw [Layer.storeOrGetAction]
      split <;> rfl
    simp only [Build.storeOrGetAction, inMatrix, unchanged]
    rfl
  rw [Tapping.Firmware.processRecordBody, event, Build.firmware_processRecordQuantum]
  by_cases passed : build.processRecordQuantum release = true
  · simp only [passed, Bool.false_eq_true, if_false, if_true,
      Tapping.Firmware.processRecordHandler, noPress, Build.firmware_storeOrGetAction, stored,
      Build.firmware_postProcessRecordQuantum, Tapping.Firmware.processAction, unused,
      Build.firmware_perform, Bool.false_and]
  · simp [passed, noPress]

/-- The made-up release is an event of the same key. -/
theorem releaseOf_event (presses : Presses record key) (action : Action) :
    isNoEvent (build.releaseOf world record action).event = false := by
  have same : isNoEvent (build.releaseOf world record action).event =
      isNoEvent record.event := by
    simp only [isNoEvent, Build.releaseOf, leaveRecord_press build presses.pressed]
    split <;> rfl
  rw [same, presses.event]

theorem afterPress_eq (pending : Pending world layer) (presses : Presses record key)
    (uses : UsesUp (build.pressAction world key)) :
    build.afterPress world record =
      { build.afterRelease world record key layer with
        oneshot := layerOff
          (getOneshotLayer (build.afterRelease world record key layer).oneshot)
          (build.afterRelease world record key layer).oneshot } := by
  have stored : build.storeOrGetAction world true record.key =
      (build.pressAction world key, { world with
        sourceLayersCache := (Layer.storeOrGetAction build.keymap (build.layers world) true
          key).1.sourceLayersCache }) := by
    simp only [Build.storeOrGetAction, presses.inMatrix, press_action]
  have empty : (clearOneshotLayerState oneshotOtherKeyPressed world.oneshot).oneshotLayerData =
      0 := by rw [pending.clear]
  have pressed (again : World cfg → KeyRecord → Processed (World cfg)) :
      build.firmware.processAction again
        { world with
          sourceLayersCache := (Layer.storeOrGetAction build.keymap (build.layers world) true
            key).1.sourceLayersCache }
        record (build.pressAction world key) = _ :=
    @process_press cfg build world record key again presses _ uses _ pending.active
      pending.enabled empty
  have cleared : build.firmware.clearOneshotLayerState
      { world with
        sourceLayersCache := (Layer.storeOrGetAction build.keymap (build.layers world) true
          key).1.sourceLayersCache } = build.cleared world key layer := by
    simp only [Build.firmware_clearOneshotLayerState, pending.clear, Build.cleared]
  rw [Build.afterPress, Tapping.Firmware.processRecordHandler, Build.firmware_storeOrGetAction,
    presses.pressed, stored, pressed, cleared]
  show build.firmware.oneshotLayerOff (build.firmware.processRecordBody _
    (build.onZero world record key layer) (build.releaseOf world record _)).world = _
  have inMatrix : matrixKey (build.releaseOf world record (build.pressAction world key)).key =
      some key := by rw [releaseOf_key build presses.pressed, presses.inMatrix]
  rw [process_release _ inMatrix rfl (releaseOf_event presses _)]
  rfl

/-- The release finds the action of the press exactly when the cache is in use or
a look at the layers with layer 0 on finds it again. -/
theorem secondAction_iff (uses : UsesUp (build.pressAction world key)) :
    build.secondAction world record key layer = build.pressAction world key ↔
      ((build.strictLayerRelease || world.disableActionCache) = false ∨
        build.keymap (topLayer build.keymap
          ((build.layersAfter record (build.pressAction world key)
              (usedUp layer world.oneshot.layerState) ||| layerBit 0) |||
            (build.onZero world record key layer).defaultLayerState) key cfg.maxLayer) key =
          build.pressAction world key) := by
  have layerState : (build.onZero world record key layer).oneshot.layerState =
      build.layersAfter record (build.pressAction world key)
        (usedUp layer world.oneshot.layerState) ||| layerBit 0 := by
    simp only [Build.onZero, layerOn, perform_keeps_data uses, Build.cleared]
  have looked := release_action build world key
    (show (build.onZero world record key layer).sourceLayersCache = _ from rfl) rfl
  rw [Build.secondAction, looked, ← layerState]
  by_cases uncached : (build.strictLayerRelease || world.disableActionCache) = true
  · simp only [uncached, if_true, reduceCtorEq, false_or]
    rfl
  · simp [uncached]

theorem onZero_default (pressed : record.pressed = true) :
    (build.onZero world record key layer).defaultLayerState = world.defaultLayerState := by
  simp [Build.onZero, Build.perform, defaultLayersAfter, pressed, Build.cleared]

theorem afterRelease_performed (passed : build.processRecordQuantum
      (build.releaseOf world record (build.pressAction world key)) = true)
    (pressed : record.pressed = true) :
    (build.afterRelease world record key layer).performed = world.performed ++
      [(build.pressAction world key, true),
        (build.secondAction world record key layer, false)] := by
  simp [Build.afterRelease, passed, Build.perform, Build.onZero, Build.cleared, pressed]

theorem codeCalls_pressed (pressed : record.pressed = true) (action : Action) :
    (build.codeCalls record action).length ≤ 1 ∧
      ∀ call ∈ build.codeCalls record action, call.2 = true := by
  rw [Build.codeCalls]
  split <;> simp [pressed]

/-- With the same action released, the layers behind the press are those that the
action leaves by itself, and layer 0 off. -/
theorem getLsbD_afterRelease (uses : UsesUp (build.pressAction world key))
    (passed : build.processRecordQuantum
      (build.releaseOf world record (build.pressAction world key)) = true)
    (same : build.secondAction world record key layer = build.pressAction world key) (i : Nat) :
    (layerOff (getOneshotLayer (build.afterRelease world record key layer).oneshot)
      (build.afterRelease world record key layer).oneshot).layerState.getLsbD i =
      ((build.layersAfter (build.releaseOf world record (build.pressAction world key))
        (build.pressAction world key)
        (build.layersAfter record (build.pressAction world key)
          (usedUp layer world.oneshot.layerState))).getLsbD i && !decide (0 = i)) := by
  have zero : getOneshotLayer (build.afterRelease world record key layer).oneshot = 0 := by
    simp only [Build.afterRelease, passed, if_true, same, perform_keeps_data uses, getOneshotLayer,
      Build.onZero, layerOn, Build.cleared]
    rfl
  rw [zero, getLsbD_layerOff]
  have number : (0 : Byte).toNat = 0 := rfl
  rw [number]
  by_cases here : 0 = i
  · simp [here]
  · have off : (layerBit 0 : LayerState cfg).getLsbD i = false := by
      rw [getLsbD_layerBit]
      simp [here]
    have unaffected : (build.onZero world record key layer).oneshot.layerState.getLsbD i =
        (build.layersAfter record (build.pressAction world key)
          (usedUp layer world.oneshot.layerState)).getLsbD i := by
      simp only [Build.onZero, layerOn, perform_keeps_data uses, Build.cleared,
        BitVec.getLsbD_or, off, Bool.or_false]
    simp only [Build.afterRelease, passed, if_true, same, perform_keeps_data uses]
    rw [layersAfter_local build unaffected]

end Whole

/-- A key pressed while a one-shot layer waits is released by the press itself
with the same action, leaves no code registered and turns off the one-shot layer
only, exactly in the clean cases. -/
theorem released_iff_clean (build : Build cfg) (world : World cfg) (record : KeyRecord)
    (key : Layer.KeyPos cfg) (layer : Fin cfg.maxLayer) (pending : Pending world layer)
    (presses : Presses record key) (uses : UsesUp (build.pressAction world key)) :
    Released build world record key layer ↔ Clean build world record key layer := by
  have whole := afterPress_eq pending presses uses
  have found := @secondAction_iff cfg build world record key layer uses
  rw [onZero_default presses.pressed] at found
  have small := layer_lt layer
  have number : (BitVec.ofNat 8 layer.val).toNat = layer.val := by
    rw [BitVec.toNat_ofNat]
    omega
  constructor
  · intro released
    have performed := released.sameAction
    rw [whole] at performed
    have passed : build.processRecordQuantum
        (build.releaseOf world record (build.pressAction world key)) = true := by
      by_contra stopped
      simp [Build.afterRelease, stopped, Build.onZero, Build.perform, Build.cleared] at performed
    have same : build.secondAction world record key layer = build.pressAction world key := by
      simpa [afterRelease_performed passed presses.pressed] using performed
    have bits (i : Nat) := getLsbD_afterRelease uses passed same i
    have kept := released.onlyTurnedOff
    rw [whole] at kept
    refine ⟨passed, found.mp same, ?_, ?_⟩
    · have first := (congrArg (BitVec.getLsbD · 0) kept).symm.trans (bits 0)
      simp only [BitVec.getLsbD_and, BitVec.getLsbD_not, getLsbD_layerBit, number] at first
      by_cases none : layer.val = 0
      · exact .inl none
      · simpa [none] using first
    · intro i apart
      have here := (congrArg (BitVec.getLsbD · i) kept).symm.trans (bits i)
      simpa [Ne.symm apart] using here.symm
  · intro clean
    have same := found.mpr clean.found
    have bits (i : Nat) := getLsbD_afterRelease uses clean.passedOn same i
    refine ⟨?_, ?_, ?_⟩
    · rw [whole]
      simp [afterRelease_performed clean.passedOn presses.pressed, same]
    · intro code
      have few := @codeCalls_pressed cfg build record presses.pressed
        (build.pressAction world key)
      have codes : (build.afterPress world record).codes =
          world.codes ++ build.codeCalls record (build.pressAction world key) ++
            (build.codeCalls record (build.pressAction world key)).map
              fun call => (call.1, false) := by
        rw [whole]
        simp only [Build.afterRelease, clean.passedOn, if_true, same, Build.perform,
          codeCalls_release build presses.pressed]
        rfl
      rw [codes]
      exact registered_released _ _ code few.1 few.2
    · rw [whole]
      apply BitVec.eq_of_getLsbD_eq
      intro i below
      rw [bits i]
      by_cases first : 0 = i
      · subst first
        simp only [BitVec.getLsbD_and, BitVec.getLsbD_not, getLsbD_layerBit, number]
        rcases clean.zeroOff with zero | off
        · simp [zero]
        · rw [off]
          simp
      · rw [clean.othersKept i (Ne.symm first)]
        simp [first]

/-- With layer 1 pending as a one-shot layer, the key of layer 1 is released as
such from the cache, and as the key of layer 0 without one. -/
theorem typed_under_layer_one :
    let build (strict : Bool) : Build oneKey :=
      { keymap := fun layer _ => BitVec.ofNat 16 (4 + layer), strictLayerRelease := strict }
    let world : World oneKey :=
      { defaultLayerState := 1, oneshot := { oneshotLayerData := 0x0A, layerState := 2 } }
    let record : KeyRecord :=
      { event := { key := { row := 0, col := 0 }, pressed := true, time := 1 } }
    let key : Layer.KeyPos oneKey := ⟨⟨0, by decide⟩, ⟨0, by decide⟩⟩
    Released (build false) world record key ⟨1, by decide⟩ ∧
      ¬ Released (build true) world record key ⟨1, by decide⟩ := by
  intro build world record key
  have pending : Pending world ⟨1, by decide⟩ := ⟨rfl, by decide, by decide⟩
  have presses : Presses record key := ⟨by decide, rfl, by decide⟩
  have action (strict : Bool) : (build strict).pressAction world key = 5 := by
    cases strict <;> decide
  have uses (strict : Bool) : UsesUp ((build strict).pressAction world key) := by
    rw [action]
    decide
  constructor
  · rw [released_iff_clean (build false) world record key _ pending presses (uses false)]
    have kept (record : KeyRecord) (layers : LayerState oneKey) :
        (build false).layersAfter record 5 layers = layers := rfl
    refine ⟨rfl, .inl rfl, .inr (by decide), ?_⟩
    intro i _
    rw [action, kept, kept]
    rfl
  · rw [released_iff_clean (build true) world record key _ pending presses (uses true)]
    intro clean
    rcases clean.found with cached | again
    · exact absurd cached (by decide)
    · exact absurd again (by decide)

end QmkSonix.Oneshot
