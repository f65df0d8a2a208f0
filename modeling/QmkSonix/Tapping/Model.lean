import QmkSonix.Lib.Run
import QmkSonix.Tapping.Action

/-! The tapping state machine of `action_tapping.c`: the tapping key, the waiting
buffer and what one event makes of them. -/

namespace QmkSonix.Tapping

open QmkSonix.Keyboard QmkSonix.Lib

/-- `WAITING_BUFFER_SIZE` -/
def waitingBufferSize : Nat := 8

/-- The statics of `action_tapping.c`, the rest of the firmware, and the calls of
`process_record` made so far. The waiting buffer is what lies between its tail
and its head, oldest record first. -/
structure State (World : Type*) where
  world : World
  tappingKey : KeyRecord := noRecord
  waitingBuffer : List KeyRecord := []
  calls : List (Call World) := []

/-- What `process_tapping` leaves: the state, the record it was given a pointer
to, and whether the event is processed or consumed. -/
structure Verdict (World : Type*) where
  state : State World
  keyp : KeyRecord
  done : Bool

namespace State

variable {World : Type*} (s : State World)

/-- `IS_TAPPING_PRESSED` -/
def isTappingPressed : Bool := !isNoEvent s.tappingKey.event && s.tappingKey.pressed

/-- `IS_TAPPING_RELEASED` -/
def isTappingReleased : Bool := !isNoEvent s.tappingKey.event && !s.tappingKey.pressed

/-- `IS_TAPPING_KEY`, and `IS_TAPPING_RECORD` of a record with that key. -/
def isTappingKey (key : KeyPos) : Bool := !isNoEvent s.tappingKey.event && s.tappingKey.key = key

/-- The tapping key is pressed and not yet counted as a tap. -/
def unresolved : Bool := s.isTappingPressed && s.tappingKey.tap.count = 0

/-- The records that have reached `process_record`. -/
def delivered : List KeyRecord := s.calls.map Call.record

/-- The tapping key while it waits to be processed. -/
def front : List KeyRecord := if s.unresolved then [s.tappingKey] else []

/-- `waiting_buffer_typed` -/
def waitingBufferTyped (event : KeyEvent) : Bool :=
  s.waitingBuffer.any fun waiting => event.key = waiting.key && event.pressed != waiting.pressed

/-- `tapping_key.tap.interrupted = true` -/
def interrupt : State World :=
  { s with tappingKey := { s.tappingKey with tap := { s.tappingKey.tap with interrupted := true } } }

end State

/-- `IS_PRESSED` -/
def isPressed (event : KeyEvent) : Bool := !isNoEvent event && event.pressed

/-- `IS_RELEASED` -/
def isReleased (event : KeyEvent) : Bool := !isNoEvent event && !event.pressed

/-- Give the first record that meets a condition the tap count 1. -/
def countFirst (wanted : KeyRecord → Bool) : List KeyRecord → Option (List KeyRecord)
  | [] => none
  | record :: rest =>
    if wanted record then some ({ record with tap := { record.tap with count := 1 } } :: rest)
    else (countFirst wanted rest).map (record :: ·)

namespace Firmware

variable {World : Type*} (fw : Firmware World)

/-- `is_tap_record` -/
def isTapRecord (world : World) (record : KeyRecord) : Bool :=
  isTapAction (fw.layerSwitchGetAction world record.key)

/-- `WITHIN_TAPPING_TERM` -/
def withinTappingTerm (s : State World) (event : KeyEvent) : Bool :=
  event.time - s.tappingKey.event.time < fw.getTappingTerm s.world s.tappingKey s.tappingKey

/-- `process_record(keyp)` for a record that is not the tapping key. -/
def process (s : State World) (record : KeyRecord) : State World × KeyRecord :=
  let processed := fw.processRecord s.world record
  ({ s with world := processed.world, calls := s.calls ++ processed.calls }, processed.record)

/-- `process_record(&tapping_key)` -/
def processTappingKey (s : State World) : State World :=
  let processed := fw.process s s.tappingKey
  { processed.1 with tappingKey := processed.2 }

/-- The tapping key counts as tapped once and is processed. -/
def tapOnce (s : State World) : State World :=
  fw.processTappingKey
    { s with tappingKey := { s.tappingKey with tap := { s.tappingKey.tap with count := 1 } } }

/-- The tapping key is processed as it is and given up. -/
def endTapping (s : State World) : State World :=
  { fw.processTappingKey s with tappingKey := noRecord }

/-- `waiting_buffer_scan_tap` -/
def waitingBufferScanTap (s : State World) : State World :=
  if 0 < s.tappingKey.tap.count || !s.tappingKey.pressed then s
  else
    match countFirst (fun waiting => s.isTappingKey waiting.key && !waiting.pressed &&
        fw.withinTappingTerm s waiting.event) s.waitingBuffer with
    | none => s
    | some counted => fw.tapOnce { s with waitingBuffer := counted }

/-- A new tapping key takes over. -/
def startTapping (s : State World) (keyp : KeyRecord) : State World :=
  fw.waitingBufferScanTap { s with tappingKey := keyp }

/-- A key typed inside the tapping key's term makes it a hold. -/
def nestedHold (s : State World) (keyp : KeyRecord) : Bool :=
  (500 ≤ fw.getTappingTerm s.world s.tappingKey keyp ||
    fw.getPermissiveHold s.world s.tappingKey keyp) &&
    isReleased keyp.event && s.waitingBufferTyped keyp.event

/-- The release of a modifier is retained till the end of the tapping. -/
def retainsModifier (s : State World) (keyp : KeyRecord) : Bool :=
  let action := fw.layerSwitchGetAction s.world keyp.key
  if action.kindId = actLmods ∨ action.kindId = actRmods then
    (action.mods ≠ 0 ∧ action.code = 0) ∨ isMod action.code
  else if action.kindId = actLmodsTap ∨ action.kindId = actRmodsTap then
    (action.mods ≠ 0 ∧ keyp.tap.count = 0) ∨ isMod action.code
  else false

/-- `process_tapping` while the tapping key is pressed, within its term and not
yet counted as a tap. -/
def processUnresolved (s : State World) (keyp : KeyRecord) : Verdict World :=
  if s.isTappingKey keyp.key && !keyp.pressed then
    let tapped := fw.tapOnce s
    { state := tapped, keyp := { keyp with tap := tapped.tappingKey.tap }, done := false }
  else if fw.nestedHold s keyp then
    { state := fw.endTapping s, keyp := keyp, done := false }
  else if isReleased keyp.event && !s.waitingBufferTyped keyp.event then
    if fw.retainsModifier s keyp then { state := s, keyp := keyp, done := false }
    else
      let processed := fw.process s keyp
      { state := processed.1, keyp := processed.2, done := true }
  else if keyp.pressed then
    if fw.getHoldOnOtherKeyPress s.world s.interrupt.tappingKey keyp then
      { state := fw.endTapping s.interrupt, keyp := keyp, done := false }
    else { state := s.interrupt, keyp := keyp, done := false }
  else { state := s, keyp := keyp, done := false }

/-- The release of a tapping key whose tap counts above 1, made up for the press
of another tap key. -/
def lastTapRelease (s : State World) (keyp : KeyRecord) : KeyRecord :=
  { tap := s.tappingKey.tap
    event := { key := s.tappingKey.key, time := keyp.event.time, pressed := false } }

/-- `process_tapping` while the tapping key is pressed and counted as a tap. -/
def processTapped (s : State World) (keyp : KeyRecord) : Verdict World :=
  if s.isTappingKey keyp.key && !keyp.pressed then
    let processed := fw.process s { keyp with tap := s.tappingKey.tap }
    { state := { processed.1 with
        tappingKey := if fw.withinTappingTerm s keyp.event then processed.2 else noRecord }
      keyp := processed.2
      done := true }
  else if fw.isTapRecord s.world keyp && keyp.pressed then
    let released := if 1 < s.tappingKey.tap.count then (fw.process s (lastTapRelease s keyp)).1 else s
    { state := fw.startTapping released keyp, keyp := keyp, done := true }
  else
    let processed := fw.process s keyp
    { state := processed.1, keyp := processed.2, done := true }

/-- The press of the released tapping key continues its taps. -/
def isSequentialTap (s : State World) (keyp : KeyRecord) : Bool :=
  !fw.getTappingForceHold s.world s.tappingKey keyp && !s.tappingKey.tap.interrupted &&
    0 < s.tappingKey.tap.count

/-- `process_tapping` while the tapping key is released and within its term. -/
def processReleased (s : State World) (keyp : KeyRecord) : Verdict World :=
  if keyp.pressed then
    if s.isTappingKey keyp.key then
      if fw.isSequentialTap s keyp then
        let tap := s.tappingKey.tap
        let processed := fw.process s
          { keyp with tap := if tap.count < 15 then { tap with count := tap.count + 1 } else tap }
        { state := { processed.1 with tappingKey := processed.2 }, keyp := processed.2, done := true }
      else { state := { s with tappingKey := keyp }, keyp := keyp, done := true }
    else if fw.isTapRecord s.world keyp then
      { state := fw.startTapping s keyp, keyp := keyp, done := true }
    else
      let processed := fw.process s.interrupt keyp
      { state := processed.1, keyp := processed.2, done := true }
  else
    let processed := fw.process s keyp
    { state := processed.1, keyp := processed.2, done := true }

/-- `process_tapping` with no tapping key. -/
def processNotTapping (s : State World) (keyp : KeyRecord) : Verdict World :=
  if keyp.pressed && fw.isTapRecord s.world keyp then
    let hinted := { s with tappingKey := keyp, world := fw.processRecordTapHint s.world keyp }
    { state := fw.waitingBufferScanTap hinted, keyp := keyp, done := true }
  else
    let processed := fw.process s keyp
    { state := processed.1, keyp := processed.2, done := true }

/-- `process_tapping` -/
def processTapping (s : State World) (keyp : KeyRecord) : Verdict World :=
  if s.isTappingPressed then
    if s.tappingKey.tap.count = 0 then
      if fw.withinTappingTerm s keyp.event then fw.processUnresolved s keyp
      else { state := fw.endTapping s, keyp := keyp, done := false }
    else fw.processTapped s keyp
  else if s.isTappingReleased then
    if fw.withinTappingTerm s keyp.event then fw.processReleased s keyp
    else { state := { s with tappingKey := noRecord }, keyp := keyp, done := false }
  else fw.processNotTapping s keyp

/-- `waiting_buffer_enq`, with what `action_tapping_process` does when it fails. -/
def waitingBufferEnq (s : State World) (record : KeyRecord) : State World :=
  if isNoEvent record.event then s
  else if s.waitingBuffer.length + 1 = waitingBufferSize then
    { s with world := fw.clearKeyboard s.world, waitingBuffer := [], tappingKey := noRecord }
  else { s with waitingBuffer := s.waitingBuffer ++ [record] }

/-- The loop of `action_tapping_process` over the waiting buffer. The record
stays in the buffer while it is processed, and what is done to it is done there. -/
def drain : Nat → State World → State World
  | 0, s => s
  | steps + 1, s =>
    match s.waitingBuffer with
    | [] => s
    | waiting :: _ =>
      let verdict := fw.processTapping s waiting
      let behind := verdict.state.waitingBuffer.tail
      if verdict.done then drain steps { verdict.state with waitingBuffer := behind }
      else { verdict.state with waitingBuffer := verdict.keyp :: behind }

/-- `action_tapping_process` before its loop. -/
def admitRecord (s : State World) (record : KeyRecord) : State World :=
  let verdict := fw.processTapping s record
  if verdict.done then verdict.state else fw.waitingBufferEnq verdict.state verdict.keyp

/-- `action_tapping_process` -/
def actionTappingProcess (s : State World) (record : KeyRecord) : State World :=
  let admitted := fw.admitRecord s record
  fw.drain admitted.waitingBuffer.length admitted

end Firmware

/-- What tapping is fed: a key event, a TICK, or something else of the firmware
that runs in between. -/
inductive Input (World : Type*) where
  | key (event : { event : KeyEvent // isNoEvent event = false })
  | tick (time : BitVec 16)
  | meanwhile (change : World → World)

/-- The event fed to `action_tapping_process`, if any. -/
def Input.event? {World : Type*} : Input World → Option KeyEvent
  | .key event => some event
  | .tick time => some (tickEvent time)
  | .meanwhile _ => none

/-- `action_exec`, as far as tapping sees it. -/
def Firmware.exec {World : Type*} (fw : Firmware World) (s : State World) :
    Input World → State World
  | .key event => fw.actionTappingProcess s { event := event.val }
  | .tick time => fw.actionTappingProcess s { event := tickEvent time }
  | .meanwhile change => { s with world := change s.world }

end QmkSonix.Tapping
