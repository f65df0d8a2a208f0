import Mathlib
import QmkSonix.Keyboard.Record

/-! Actions, and what `process_record` of `action.c` does with the record it is
given. The rest of the firmware is a world that it reads and changes. Built with
`SWAP_HANDS_ENABLE` and without `COMBO_ENABLE` and `RETRO_SHIFT`. -/

namespace QmkSonix.Tapping

open QmkSonix.Keyboard

/-- `action_t`, by its code. -/
abbrev Action := BitVec 16

namespace Action

/-- `kind.id` -/
def kindId (action : Action) : BitVec 4 := action.extractLsb' 12 4

/-- `key.mods`, where `func.opt` lies too. -/
def mods (action : Action) : BitVec 4 := action.extractLsb' 8 4

/-- `key.code`, where `layer_tap.code` and `swap.code` lie too. -/
def code (action : Action) : BitVec 8 := action.extractLsb' 0 8

end Action

def actLmods : BitVec 4 := 0b0000
def actRmods : BitVec 4 := 0b0001
def actLmodsTap : BitVec 4 := 0b0010
def actRmodsTap : BitVec 4 := 0b0011
def actUsage : BitVec 4 := 0b0100
def actSwapHands : BitVec 4 := 0b0110
def actLayerTap : BitVec 4 := 0b1010
def actLayerTapExt : BitVec 4 := 0b1011
def actMacro : BitVec 4 := 0b1100
def actFunction : BitVec 4 := 0b1111

def modsOneshot : BitVec 8 := 0x00
def modsTapToggle : BitVec 8 := 0x01
def opTapToggle : BitVec 8 := 0xF0
def opOneshot : BitVec 8 := 0xF4
def opShToggle : BitVec 8 := 0xF0
def opShTapToggle : BitVec 8 := 0xF1
def opShOneshot : BitVec 8 := 0xF6
def funcTap : BitVec 4 := 0x8
def kcLeftCtrl : BitVec 8 := 0xE0
def kcRightGui : BitVec 8 := 0xE7

/-- `IS_MOD` -/
def isMod (code : BitVec 8) : Bool := kcLeftCtrl ≤ code ∧ code ≤ kcRightGui

/-- `is_tap_action` -/
def isTapAction (action : Action) : Bool :=
  if action.kindId ∈ [actLmodsTap, actRmodsTap, actLayerTap, actLayerTapExt] then
    action.code ≤ kcRightGui ∨ action.code = opTapToggle ∨ action.code = opOneshot
  else if action.kindId = actSwapHands then
    action.code ≤ kcRightGui ∨ action.code = opShTapToggle
  else if action.kindId = actMacro ∨ action.kindId = actFunction then
    action.mods &&& funcTap ≠ 0
  else false

/-- `IS_NOEVENT` -/
def isNoEvent (event : KeyEvent) : Bool :=
  event.time = 0 ∨ (event.key.row = 255 ∧ event.key.col = 255)

/-- `(keyrecord_t){}` -/
def noRecord : KeyRecord := { event := { key := { row := 0, col := 0 }, pressed := false, time := 0 } }

/-- What tapping reads from the rest of the firmware and does to it: layers and
keymap, the user's hooks, the oneshot state, and the effects of an action. -/
structure Firmware (World : Type*) where
  layerSwitchGetAction : World → KeyPos → Action
  storeOrGetAction : World → Bool → KeyPos → Action × World
  processRecordQuantum : World → KeyRecord → Bool × World
  postProcessRecordQuantum : World → KeyRecord → World
  processRecordTapHint : World → KeyRecord → World
  /-- Everything `process_action` does except to the record. -/
  perform : World → KeyRecord → Action → World
  isOneshotLayerActive : World → Bool
  /-- `get_oneshot_layer_state() & ONESHOT_PRESSED` -/
  oneshotPressed : World → Bool
  oneshotDisable : World → Bool
  /-- `clear_oneshot_layer_state(ONESHOT_OTHER_KEY_PRESSED)` -/
  clearOneshotLayerState : World → World
  /-- `layer_on(get_oneshot_layer())` -/
  oneshotLayerOn : World → World
  /-- `layer_off(get_oneshot_layer())` -/
  oneshotLayerOff : World → World
  /-- Whether `ONESHOT_TAP_TOGGLE` is defined above 1. -/
  oneshotTapToggle : Bool
  clearKeyboard : World → World
  /-- `get_tapping_term` of the tapping key's keycode and a record. -/
  getTappingTerm : World → KeyRecord → KeyRecord → BitVec 16
  getPermissiveHold : World → KeyRecord → KeyRecord → Bool
  getHoldOnOtherKeyPress : World → KeyRecord → KeyRecord → Bool
  getTappingForceHold : World → KeyRecord → KeyRecord → Bool
  getIgnoreModTapInterrupt : World → KeyRecord → Bool

/-- A call of `process_record`: the world it meets and the record it is given. -/
structure Call (World : Type*) where
  world : World
  record : KeyRecord

/-- What a call of `process_record` leaves: the world, the record it was given a
pointer to, and the calls made, itself included. -/
structure Processed (World : Type*) where
  world : World
  record : KeyRecord
  calls : List (Call World)

namespace Firmware

variable {World : Type*} (fw : Firmware World)

/-- The key typed with a mod-tap was interrupted, so that `process_action` sets
the count of its tap to 0. -/
def cancelsTap (world : World) (record : KeyRecord) (action : Action) : Bool :=
  (action.kindId = actLmodsTap ∨ action.kindId = actRmodsTap) ∧
    action.code ≠ modsOneshot ∧ action.code ≠ modsTapToggle ∧
    record.pressed ∧ 0 < record.tap.count ∧ record.tap.interrupted ∧
    fw.getIgnoreModTapInterrupt world record = false

/-- `*record = (keyrecord_t){}` for the release of a tapped swap-hands key. -/
def resetsTap (record : KeyRecord) (action : Action) : Bool :=
  action.kindId = actSwapHands ∧ (action.code < opShToggle ∨ opShOneshot < action.code) ∧
    record.pressed = false ∧ 0 < record.tap.count

/-- What the switch of `process_action` leaves of the record. -/
def leaveRecord (world : World) (record : KeyRecord) (action : Action) : KeyRecord :=
  if fw.cancelsTap world record action then
    { record with tap := { record.tap with count := 0 } }
  else if resetsTap record action then noRecord
  else record

/-- Whether the press uses up the oneshot layer. -/
def usesOneshotLayer (world : World) (record : KeyRecord) (action : Action) : Bool :=
  fw.isOneshotLayerActive world ∧ record.pressed ∧
    (action.kindId = actUsage ∨ ¬isMod action.code) ∧
    ¬(action.kindId = actSwapHands ∧ action.code = opShOneshot) ∧ ¬fw.oneshotDisable world

/-- A layer-tap oneshot key keeps its own layer with `ONESHOT_TAP_TOGGLE`. -/
def keepsOneshotLayer (world : World) (action : Action) : Bool :=
  fw.oneshotTapToggle ∧ (action.kindId = actLayerTap ∨ action.kindId = actLayerTapExt) ∧
    action.code = opOneshot ∧ ¬fw.oneshotDisable world

/-- `process_action`. `again` is the call of `process_record` that it ends with. -/
def processAction (again : World → KeyRecord → Processed World) (world : World)
    (record : KeyRecord) (action : Action) : Processed World :=
  let uses := fw.usesOneshotLayer world record action
  let cleared := if uses then fw.clearOneshotLayerState world else world
  let doReleaseOneshot := uses && !fw.isOneshotLayerActive cleared &&
    !fw.keepsOneshotLayer cleared action
  let left := fw.leaveRecord cleared record action
  let performed := fw.perform cleared record action
  if doReleaseOneshot && !fw.oneshotPressed performed then
    let released := again (fw.oneshotLayerOn performed)
      { left with event := { left.event with pressed := false } }
    { released with world := fw.oneshotLayerOff released.world }
  else { world := performed, record := left, calls := [] }

/-- `process_record_handler` -/
def processRecordHandler (again : World → KeyRecord → Processed World) (world : World)
    (record : KeyRecord) : Processed World :=
  let stored := fw.storeOrGetAction world record.pressed record.key
  fw.processAction again stored.2 record stored.1

/-- The body of `process_record`. -/
def processRecordBody (again : World → KeyRecord → Processed World) (world : World)
    (record : KeyRecord) : Processed World :=
  if isNoEvent record.event then { world := world, record := record, calls := [] }
  else
    let quantum := fw.processRecordQuantum world record
    if quantum.1 then
      let handled := fw.processRecordHandler again quantum.2 record
      { handled with
        world := fw.postProcessRecordQuantum handled.world handled.record
        calls := { world := world, record := record } :: handled.calls }
    else
      let clears := fw.isOneshotLayerActive quantum.2 && record.pressed &&
        !fw.oneshotDisable quantum.2
      { world := if clears then fw.clearOneshotLayerState quantum.2 else quantum.2
        record := record
        calls := [{ world := world, record := record }] }

/-- `process_record`. It calls itself for a press that uses up a oneshot layer,
with the record of a release, which does not call it again. -/
def processRecord (world : World) (record : KeyRecord) : Processed World :=
  fw.processRecordBody (fw.processRecordBody fun world record =>
    { world := world, record := record, calls := [] }) world record

end Firmware

end QmkSonix.Tapping
