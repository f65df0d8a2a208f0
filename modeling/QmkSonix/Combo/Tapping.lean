import QmkSonix.Lib.Traced
import QmkSonix.Tapping.Model
import QmkSonix.Combo.Model

/-! Tapping and actions with `COMBO_ENABLE`: `action_tapping.c` and what
`process_record` of `action.c` does with a record that may carry a keycode of its
own. Every program leaves a trace of the key positions with which it looks up
`keymaps`. -/

namespace QmkSonix.Combo

open QmkSonix.Keyboard QmkSonix.Lib
open QmkSonix.Tapping (Action isNoEvent isPressed isReleased isTapAction isMod actLmods actRmods
  actLmodsTap actRmodsTap actUsage actSwapHands actLayerTap actLayerTapExt modsOneshot modsTapToggle
  opOneshot opShOneshot waitingBufferSize)

/-- The size of the matrix, and which functions are chosen per key. -/
structure Build where
  matrixRows : Nat
  matrixCols : Nat
  /-- Any of `TAPPING_TERM_PER_KEY`, `PERMISSIVE_HOLD_PER_KEY`, `TAPPING_FORCE_HOLD_PER_KEY`
  and `HOLD_ON_OTHER_KEY_PRESS_PER_KEY`. -/
  tappingPerKey : Bool := false
  tappingTermPerKey : Bool := false
  ignoreModTapInterruptPerKey : Bool := false
  retroTappingPerKey : Bool := false
  /-- `ONESHOT_TAP_TOGGLE` is defined above 1. -/
  oneshotTapToggle : Bool := false
  rowed : 0 < matrixRows := by decide
  coled : 0 < matrixCols := by decide

/-- A position of the keymap. -/
def Build.Inside (build : Build) (key : KeyPos) : Prop :=
  key.row.toNat < build.matrixRows ∧ key.col.toNat < build.matrixCols

instance (build : Build) (key : KeyPos) : Decidable (build.Inside key) :=
  inferInstanceAs (Decidable (_ ∧ _))

/-- What the code reads from the rest of the firmware and does to it. The keymap
is read by position; which layers are on is part of the world. -/
structure Firmware (World : Type) where
  layerSwitchGetAction : World → KeyPos → Action
  actionForKeycode : World → BitVec 16 → Action
  storeOrGetAction : World → Bool → KeyPos → Action × World
  /-- `get_event_keycode` for a press that updates the layer cache, and otherwise. -/
  pressedKeycode : World → KeyPos → BitVec 16 × World
  cachedKeycode : World → KeyPos → BitVec 16
  processRecordQuantum : World → Record → BitVec 16 → Bool × World
  postProcessRecordQuantum : World → Record → BitVec 16 → World
  /-- What `process_record_tap_hint` does with the action of the key. -/
  tapHint : World → Action → World
  /-- Everything `process_action` does except to the record. -/
  perform : World → Record → Action → World
  /-- `RETRO_TAPPING_PER_KEY`, by the keycode. -/
  retroTap : World → Record → BitVec 16 → Action → World
  /-- By the keycode with `IGNORE_MOD_TAP_INTERRUPT_PER_KEY`, else by the build. -/
  getIgnoreModTapInterrupt : World → Record → BitVec 16 → Bool
  isOneshotLayerActive : World → Bool
  oneshotPressed : World → Bool
  oneshotDisable : World → Bool
  clearOneshotLayerState : World → World
  oneshotLayerOn : World → World
  oneshotLayerOff : World → World
  clearKeyboard : World → World
  getTappingTerm : World → Record → Record → BitVec 16
  getPermissiveHold : World → Record → Record → Bool
  getHoldOnOtherKeyPress : World → Record → Record → Bool
  getTappingForceHold : World → Record → Record → Bool
  /-- What `action_exec` does before tapping. -/
  actionExecBegins : World → KeyEvent → World
  processComboEvent : World → Nat → Bool → World

/-- `(keyrecord_t){}` -/
def noRecord : Record := { Tapping.noRecord with }

/-- The statics of `action_tapping.c`, and the rest of the firmware. -/
structure Statics (World : Type) where
  world : World
  tappingKey : Record := noRecord
  waitingBuffer : List Record := []

/-- What a trace tells: a position with which `keymaps` is looked up, and the
calls of `process_tapping` and `process_action`. -/
inductive Mark (World : Type) where
  | lookup (key : KeyPos)
  | processTapping (state : Statics World) (keyp : Record)
  | processAction (record : Record) (action : Action)

/-- A program over the tapping state. -/
abbrev Prog (World Value : Type) : Type := Traced (Statics World) (Mark World) Value

section Primitives

variable {World Value : Type}

def mark (access : Mark World) : Prog World Unit := fun s => ((), s, [access])

def getState : Prog World (Statics World) := fun s => (s, s, [])

def modify (change : Statics World → Statics World) : Prog World Unit :=
  fun s => ((), change s, [])

def ask (reads : World → Value) : Prog World Value := fun s => (reads s.world, s, [])

def change (does : World → World) : Prog World Unit :=
  modify fun s => { s with world := does s.world }

def call (does : World → Value × World) : Prog World Value :=
  fun s => ((does s.world).1, { s with world := (does s.world).2 }, [])

end Primitives

namespace Statics

variable {World : Type} (s : Statics World)

/-- `IS_TAPPING_PRESSED` -/
def isTappingPressed : Bool := !isNoEvent s.tappingKey.event && s.tappingKey.pressed

/-- `IS_TAPPING_RELEASED` -/
def isTappingReleased : Bool := !isNoEvent s.tappingKey.event && !s.tappingKey.pressed

/-- `IS_TAPPING_KEY` -/
def isTappingKey (key : KeyPos) : Bool := !isNoEvent s.tappingKey.event && s.tappingKey.key = key

/-- `IS_TAPPING_RECORD` -/
def isTappingRecord (record : Record) : Bool :=
  s.isTappingKey record.key && s.tappingKey.keycode = record.keycode

/-- `waiting_buffer_typed` -/
def waitingBufferTyped (event : KeyEvent) : Bool :=
  s.waitingBuffer.any fun waiting => event.key = waiting.key && event.pressed != waiting.pressed

/-- `tapping_key.tap.interrupted = true` -/
def interrupt : Statics World :=
  { s with tappingKey := { s.tappingKey with tap := { s.tappingKey.tap with interrupted := true } } }

end Statics

namespace Firmware

variable {World : Type} (build : Build) (fw : Firmware World)

/-- `layer_switch_get_action` -/
def lookUpAction (key : KeyPos) : Prog World Action := do
  mark (.lookup key)
  ask fun world => fw.layerSwitchGetAction world key

/-- `get_event_keycode` -/
def getEventKeycode (event : KeyEvent) (updateLayerCache : Bool) : Prog World (BitVec 16) := do
  mark (.lookup event.key)
  if event.pressed && updateLayerCache then call fun world => fw.pressedKeycode world event.key
  else ask fun world => fw.cachedKeycode world event.key

/-- `get_record_keycode` -/
def getRecordKeycode (record : Record) (updateLayerCache : Bool) : Prog World (BitVec 16) :=
  if record.keycode ≠ 0 then pure record.keycode
  else fw.getEventKeycode record.event updateLayerCache

/-- The action that `is_tap_record` takes for a record. -/
def switchedAction (record : Record) : Prog World Action :=
  if record.keycode ≠ 0 then ask fun world => fw.actionForKeycode world record.keycode
  else fw.lookUpAction record.key

/-- `is_tap_record` -/
def isTapRecord (record : Record) : Prog World Bool := do
  let action ← fw.switchedAction record
  pure (isTapAction action)

/-- The press of a mod-tap key that counts as a tap. -/
def isModTapPress (record : Record) (action : Action) : Bool :=
  (action.kindId = actLmodsTap ∨ action.kindId = actRmodsTap) ∧
    action.code ≠ modsOneshot ∧ action.code ≠ modsTapToggle ∧ record.pressed ∧ 0 < record.tap.count

/-- The keycode that `get_ignore_mod_tap_interrupt` is given, if it is called. -/
def modTapKeycode (record : Record) : Prog World (BitVec 16) :=
  if build.ignoreModTapInterruptPerKey then fw.getEventKeycode record.event false else pure 0

/-- What the switch of `process_action` leaves of the record. -/
def leaveRecord (record : Record) (action : Action) : Prog World Record :=
  if isModTapPress record action then do
    let keycode ← fw.modTapKeycode build record
    let ignores ← ask fun world => fw.getIgnoreModTapInterrupt world record keycode
    pure (if !ignores && record.tap.interrupted then
      { record with tap := { record.tap with count := 0 } } else record)
  else
    pure (if Tapping.Firmware.resetsTap record.toKeyRecord action then noRecord else record)

/-- The release of a tap key that was not tapped. -/
def isRetroTap (record : Record) (action : Action) : Bool :=
  isTapAction action && !record.pressed && record.tap.count = 0

/-- `process_action` with `RETRO_TAPPING_PER_KEY`, behind its switch. -/
def retroTapping (record left : Record) (action : Action) : Prog World Unit :=
  if build.retroTappingPerKey && isRetroTap record action then do
    let keycode ← fw.getEventKeycode left.event false
    change fun world => fw.retroTap world left keycode action
  else pure ()

/-- Whether the press uses up the oneshot layer. -/
def usesOneshotLayer (world : World) (record : Record) (action : Action) : Bool :=
  fw.isOneshotLayerActive world ∧ record.pressed ∧
    (action.kindId = actUsage ∨ ¬isMod action.code) ∧
    ¬(action.kindId = actSwapHands ∧ action.code = opShOneshot) ∧ ¬fw.oneshotDisable world

/-- A layer-tap oneshot key keeps its own layer with `ONESHOT_TAP_TOGGLE`. -/
def keepsOneshotLayer (world : World) (action : Action) : Bool :=
  build.oneshotTapToggle ∧ (action.kindId = actLayerTap ∨ action.kindId = actLayerTapExt) ∧
    action.code = opOneshot ∧ ¬fw.oneshotDisable world

/-- The key of a oneshot layer is released before the layer is left. -/
def releaseOneshot (again : Record → Prog World Record) (doReleaseOneshot : Bool)
    (left : Record) : Prog World Record := do
  let pressed ← ask fw.oneshotPressed
  if doReleaseOneshot && !pressed then do
    change fw.oneshotLayerOn
    let released ← again { left with event := { left.event with pressed := false } }
    change fw.oneshotLayerOff
    pure released
  else pure left

/-- `process_action`. `again` is the call of `process_record` that it ends with. -/
def processAction (again : Record → Prog World Record) (record : Record) (action : Action) :
    Prog World Record := do
  mark (.processAction record action)
  let uses ← ask fun world => fw.usesOneshotLayer world record action
  change fun world => if uses then fw.clearOneshotLayerState world else world
  let doReleaseOneshot ← ask fun world =>
    uses && !fw.isOneshotLayerActive world && !fw.keepsOneshotLayer build world action
  let left ← fw.leaveRecord build record action
  change fun world => fw.perform world record action
  fw.retroTapping build record left action
  fw.releaseOneshot again doReleaseOneshot left

/-- The action of `process_record_handler`. -/
def storedAction (record : Record) : Prog World Action :=
  if record.keycode ≠ 0 then ask fun world => fw.actionForKeycode world record.keycode
  else do
    mark (.lookup record.key)
    call fun world => fw.storeOrGetAction world record.pressed record.key

/-- `process_record_handler` -/
def processRecordHandler (again : Record → Prog World Record) (record : Record) :
    Prog World Record := do
  let action ← fw.storedAction record
  fw.processAction build again record action

/-- The body of `process_record`. -/
def processRecordBody (again : Record → Prog World Record) (record : Record) :
    Prog World Record :=
  if isNoEvent record.event then pure record
  else do
    let keycode ← fw.getRecordKeycode record true
    let passOn ← call fun world => fw.processRecordQuantum world record keycode
    if passOn then do
      let left ← fw.processRecordHandler build again record
      let keycode ← fw.getRecordKeycode left false
      change fun world => fw.postProcessRecordQuantum world left keycode
      pure left
    else do
      change fun world =>
        if fw.isOneshotLayerActive world && record.pressed && !fw.oneshotDisable world then
          fw.clearOneshotLayerState world
        else world
      pure record

/-- `process_record`. It calls itself for a press that uses up a oneshot layer,
with the record of a release, which does not call it again. -/
def processRecord (record : Record) : Prog World Record :=
  fw.processRecordBody build (fw.processRecordBody build pure) record

/-- `process_record_tap_hint` -/
def processRecordTapHint (record : Record) : Prog World Unit := do
  let action ← fw.lookUpAction record.key
  change fun world => fw.tapHint world action

/-- The comparison of `WITHIN_TAPPING_TERM`. -/
def isWithinTerm (s : Statics World) (event : KeyEvent) : Bool :=
  event.time - s.tappingKey.event.time < fw.getTappingTerm s.world s.tappingKey s.tappingKey

/-- The keycode of the tapping key, where it is asked for. -/
def tappingKeycode (asked : Bool) : Prog World Unit := do
  let s ← getState
  if asked then do
    let _ ← fw.getRecordKeycode s.tappingKey false
    pure ()
  else pure ()

/-- `WITHIN_TAPPING_TERM` -/
def withinTappingTerm (event : KeyEvent) : Prog World Bool := do
  fw.tappingKeycode build.tappingTermPerKey
  let s ← getState
  pure (fw.isWithinTerm s event)

/-- `process_record(&tapping_key)` -/
def processTappingKey : Prog World Unit := do
  let s ← getState
  let left ← fw.processRecord build s.tappingKey
  modify fun s => { s with tappingKey := left }

/-- The tapping key counts as tapped once and is processed. -/
def tapOnce : Prog World Unit := do
  modify fun s =>
    { s with tappingKey := { s.tappingKey with tap := { s.tappingKey.tap with count := 1 } } }
  fw.processTappingKey build

/-- The tapping key is processed as it is and given up. -/
def endTapping : Prog World Unit := do
  fw.processTappingKey build
  modify fun s => { s with tappingKey := noRecord }

/-- A waiting record is the release of the tapping key, inside its term. -/
def isTapRelease (waiting : Record) : Prog World Bool := do
  let s ← getState
  if s.isTappingKey waiting.key && !waiting.pressed then fw.withinTappingTerm build waiting.event
  else pure false

/-- The loop of `waiting_buffer_scan_tap`, with the buffer in which the record it
finds counts as a tap. -/
def scanTap : List Record → Prog World (Option (List Record))
  | [] => pure none
  | waiting :: rest => do
    let found ← fw.isTapRelease build waiting
    if found then
      pure (some ({ waiting with tap := { waiting.tap with count := 1 } } :: rest))
    else do
      let counted ← scanTap rest
      pure (counted.map (waiting :: ·))

/-- `waiting_buffer_scan_tap` -/
def waitingBufferScanTap : Prog World Unit := do
  let s ← getState
  if 0 < s.tappingKey.tap.count || !s.tappingKey.pressed then pure ()
  else do
    match ← fw.scanTap build s.waitingBuffer with
    | none => pure ()
    | some counted => do
      modify fun s => { s with waitingBuffer := counted }
      fw.tapOnce build

/-- A new tapping key takes over. -/
def startTapping (keyp : Record) : Prog World Unit := do
  modify fun s => { s with tappingKey := keyp }
  fw.waitingBufferScanTap build

/-- A key typed inside the tapping key's term makes it a hold. -/
def nestedHold (s : Statics World) (keyp : Record) : Bool :=
  (500 ≤ fw.getTappingTerm s.world s.tappingKey keyp ||
    fw.getPermissiveHold s.world s.tappingKey keyp) &&
    isReleased keyp.event && s.waitingBufferTyped keyp.event

/-- The release of a modifier is retained till the end of the tapping. -/
def retainsModifier (keyp : Record) (action : Action) : Bool :=
  if action.kindId = actLmods ∨ action.kindId = actRmods then
    (action.mods ≠ 0 ∧ action.code = 0) ∨ isMod action.code
  else if action.kindId = actLmodsTap ∨ action.kindId = actRmodsTap then
    (action.mods ≠ 0 ∧ keyp.tap.count = 0) ∨ isMod action.code
  else false

/-- `process_record(keyp)`, behind which the event is consumed. -/
def consume (keyp : Record) : Prog World (Record × Bool) := do
  let left ← fw.processRecord build keyp
  pure (left, true)

/-- `process_tapping` while the tapping key is pressed, within its term and not
yet counted as a tap. The value is the record that is left and whether the event
is processed or consumed. -/
def processUnresolved (keyp : Record) : Prog World (Record × Bool) := do
  let s ← getState
  if s.isTappingRecord keyp && !keyp.pressed then do
    fw.tapOnce build
    let tapped ← getState
    pure ({ keyp with tap := tapped.tappingKey.tap }, false)
  else if fw.nestedHold s keyp then do
    fw.endTapping build
    pure (keyp, false)
  else if isReleased keyp.event && !s.waitingBufferTyped keyp.event then do
    let action ← fw.lookUpAction keyp.key
    if retainsModifier keyp action then pure (keyp, false) else fw.consume build keyp
  else if keyp.pressed then do
    modify Statics.interrupt
    if fw.getHoldOnOtherKeyPress s.world s.interrupt.tappingKey keyp then do
      fw.endTapping build
      pure (keyp, false)
    else pure (keyp, false)
  else pure (keyp, false)

/-- The release of a tapping key whose tap counts above 1, made up for the press
of another tap key. -/
def lastTapRelease (s : Statics World) (keyp : Record) : Record :=
  { tap := s.tappingKey.tap
    event := { key := s.tappingKey.key, time := keyp.event.time, pressed := false }
    keycode := s.tappingKey.keycode }

/-- The last tap is released if it counts above 1. -/
def releaseLastTap (s : Statics World) (keyp : Record) : Prog World Unit :=
  if 1 < s.tappingKey.tap.count then do
    let _ ← fw.processRecord build (lastTapRelease s keyp)
    pure ()
  else pure ()

/-- `process_tapping` while the tapping key is pressed and counted as a tap. -/
def processTapped (within : Bool) (keyp : Record) : Prog World (Record × Bool) := do
  let s ← getState
  if s.isTappingRecord keyp && !keyp.pressed then do
    let left ← fw.processRecord build { keyp with tap := s.tappingKey.tap }
    modify fun s => { s with tappingKey := if within then left else noRecord }
    pure (left, true)
  else do
    let taps ← fw.isTapRecord keyp
    if taps && keyp.pressed then do
      fw.releaseLastTap build s keyp
      fw.startTapping build keyp
      pure (keyp, true)
    else fw.consume build keyp

/-- The press of the released tapping key continues its taps. -/
def isSequentialTap (s : Statics World) (keyp : Record) : Bool :=
  !fw.getTappingForceHold s.world s.tappingKey keyp && !s.tappingKey.tap.interrupted &&
    0 < s.tappingKey.tap.count

/-- `process_tapping` while the tapping key is released and within its term. -/
def processReleased (keyp : Record) : Prog World (Record × Bool) := do
  let s ← getState
  if keyp.pressed then
    if s.isTappingRecord keyp then
      if fw.isSequentialTap s keyp then do
        let tap := s.tappingKey.tap
        let left ← fw.processRecord build
          { keyp with tap := if tap.count < 15 then { tap with count := tap.count + 1 } else tap }
        modify fun s => { s with tappingKey := left }
        pure (left, true)
      else do
        modify fun s => { s with tappingKey := keyp }
        pure (keyp, true)
    else do
      let taps ← fw.isTapRecord keyp
      if taps then do
        fw.startTapping build keyp
        pure (keyp, true)
      else do
        modify Statics.interrupt
        fw.consume build keyp
  else fw.consume build keyp

/-- `process_tapping` with no tapping key. -/
def processNotTapping (keyp : Record) : Prog World (Record × Bool) :=
  if keyp.pressed then do
    let taps ← fw.isTapRecord keyp
    if taps then do
      modify fun s => { s with tappingKey := keyp }
      fw.processRecordTapHint keyp
      fw.waitingBufferScanTap build
      pure (keyp, true)
    else fw.consume build keyp
  else fw.consume build keyp

/-- `process_tapping` -/
def processTapping (keyp : Record) : Prog World (Record × Bool) := do
  let s ← getState
  mark (.processTapping s keyp)
  fw.tappingKeycode build.tappingPerKey
  if s.isTappingPressed then do
    let within ← fw.withinTappingTerm build keyp.event
    if s.tappingKey.tap.count = 0 then
      if within then fw.processUnresolved build keyp
      else do
        fw.endTapping build
        pure (keyp, false)
    else fw.processTapped build within keyp
  else if s.isTappingReleased then do
    let within ← fw.withinTappingTerm build keyp.event
    if within then fw.processReleased build keyp
    else do
      modify fun s => { s with tappingKey := noRecord }
      pure (keyp, false)
  else fw.processNotTapping build keyp

/-- `waiting_buffer_enq`, with what `action_tapping_process` does when it fails. -/
def waitingBufferEnq (s : Statics World) (record : Record) : Statics World :=
  if isNoEvent record.event then s
  else if s.waitingBuffer.length + 1 = waitingBufferSize then
    { s with world := fw.clearKeyboard s.world, waitingBuffer := [], tappingKey := noRecord }
  else { s with waitingBuffer := s.waitingBuffer ++ [record] }

/-- The loop of `action_tapping_process` over the waiting buffer. The record
stays in the buffer while it is processed, and what is done to it is done there. -/
def drain : Nat → Prog World Unit
  | 0 => pure ()
  | steps + 1 => do
    let s ← getState
    match s.waitingBuffer with
    | [] => pure ()
    | waiting :: _ => do
      let verdict ← fw.processTapping build waiting
      if verdict.2 then do
        modify fun s => { s with waitingBuffer := s.waitingBuffer.tail }
        drain steps
      else modify fun s => { s with waitingBuffer := verdict.1 :: s.waitingBuffer.tail }

/-- `action_tapping_process` -/
def actionTappingProcess (record : Record) : Prog World Unit := do
  let verdict ← fw.processTapping build record
  modify fun s => if verdict.2 then s else fw.waitingBufferEnq s verdict.1
  let s ← getState
  fw.drain build s.waitingBuffer.length

end Firmware

end QmkSonix.Combo
