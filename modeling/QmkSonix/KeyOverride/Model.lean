import Mathlib
import QmkSonix.Lib.Run

/-! Key overrides, as `process_key_override.c` activates and deactivates them, with the one
keycode that waits to be registered. -/

namespace QmkSonix.KeyOverride

def kcNo : BitVec 16 := 0x0000

/-- `SAFE_RANGE`; custom keycodes start here. -/
def safeRange : BitVec 16 := 0x5DA6

/-- `KEY_OVERRIDE_TOGGLE` -/
def keyOverrideToggle : BitVec 16 := 0x5D5F

/-- `KEY_OVERRIDE_ON` -/
def keyOverrideOn : BitVec 16 := 0x5D60

/-- `KEY_OVERRIDE_OFF` -/
def keyOverrideOff : BitVec 16 := 0x5D61

/-- `KEY_OVERRIDE_REPEAT_DELAY` -/
def keyOverrideRepeatDelay : BitVec 32 := 500

/-- `IS_KEY` -/
def isKey (keycode : BitVec 16) : Bool := 0x04 ≤ keycode && keycode ≤ 0xA4

/-- `IS_MOD` -/
def isMod (keycode : BitVec 16) : Bool := 0xE0 ≤ keycode && keycode ≤ 0xE7

/-- `MOD_BIT` -/
def modBit (keycode : BitVec 16) : BitVec 8 := 1 <<< (keycode.toNat % 8)

/-- `clear_mods_from` -/
def clearModsFrom (keycode : BitVec 16) : BitVec 16 :=
  if 0x0100 ≤ keycode ∧ keycode ≤ 0x1FFF then keycode &&& ~~~0x1F00 else keycode

/-- `ko_option_activation_trigger_down`, the first of the options of `ko_option_t`. -/
def activationTriggerDown : BitVec 8 := 0x01

def activationRequiredModDown : BitVec 8 := 0x02

def activationNegativeModUp : BitVec 8 := 0x04

def allActivations : BitVec 8 := 0x07

def oneMod : BitVec 8 := 0x08

def noReregisterTrigger : BitVec 8 := 0x10

def noUnregisterOnOtherKeyDown : BitVec 8 := 0x20

/-- `key_override_t`. A custom action may change the firmware, which `enabled` may read. -/
structure Override (World : Type*) where
  trigger : BitVec 16
  triggerMods : BitVec 8
  layers : BitVec 32
  negativeModMask : BitVec 8
  suppressedMods : BitVec 8
  replacement : BitVec 16
  options : BitVec 8
  customAction : Option (Bool → World → World × Bool)
  enabled : Option (World → Bool)

/-- The array `key_overrides` of pointers, and what they point to. -/
structure Table (World : Type*) where
  keyOverrides : List Nat
  override : Nat → Override World

/-- What the key overrides call, and how the rest of the firmware handles a key event.
`effectiveMods` puts the modifiers of `get_mods` and the one-shot modifiers together, and
`setWeakOverrideMods` extracts the modifiers of a keycode. -/
structure Host (World : Type*) where
  effectiveMods : World → BitVec 8
  setSuppressedOverrideMods : BitVec 8 → World → World
  clearSuppressedOverrideMods : World → World
  setWeakOverrideMods : BitVec 16 → World → World
  clearWeakOverrideMods : World → World
  addKey : BitVec 16 → World → World
  delKey : BitVec 16 → World → World
  registerCode : BitVec 8 → World → World
  unregisterCode : BitVec 8 → World → World
  registerCode16 : BitVec 16 → World → World
  sendKeyboardReport : World → World
  processAction : BitVec 16 → Bool → World → World

/-- The statics of `process_key_override.c`, and the firmware around them. An active
override is its pointer. `deferredTrigger` says that the deferred keycode is a trigger to
be registered again, and no replacement. -/
structure State (World : Type*) where
  activeOverride : Option Nat := none
  triggerIsDown : Bool := false
  lastKeyDown : BitVec 16 := 0
  lastKeyDownTime : BitVec 32 := 0
  deferReferenceTime : BitVec 32 := 0
  deferDelay : BitVec 32 := 0
  deferredRegister : BitVec 16 := 0
  deferredTrigger : Bool := false
  enabled : Bool := true
  world : World

section Functions

variable {World : Type*} (table : Table World) (host : Host World)

/-- The modifiers of one side that a mask asks for. -/
def oneSided (mods : BitVec 8) : BitVec 8 := (mods &&& 0x0F) ||| (mods >>> 4)

/-- `key_override_matches_active_modifiers` -/
def Override.matchesMods (override : Override World) (mods : BitVec 8) : Bool :=
  if override.negativeModMask &&& mods ≠ 0 then false
  else if override.triggerMods = 0 then true
  else if override.options &&& oneMod ≠ 0 then override.triggerMods &&& mods ≠ 0
  else oneSided (override.triggerMods &&& mods) = oneSided override.triggerMods

/-- `schedule_deferred_register` -/
def scheduleDeferredRegister (s : State World) (keycode : BitVec 16) (trigger : Bool)
    (now : BitVec 32) : State World :=
  if now - s.lastKeyDownTime < keyOverrideRepeatDelay then
    { s with
      deferReferenceTime := s.lastKeyDownTime
      deferDelay := keyOverrideRepeatDelay
      deferredRegister := keycode
      deferredTrigger := trigger }
  else
    { s with
      deferReferenceTime := now
      deferDelay := 50
      deferredRegister := keycode
      deferredTrigger := trigger }

/-- Whether a replacement is a keycode that can be registered, and the custom action, which
is called in any case, wants it to be. -/
def Override.fires (override : Override World) (activated : Bool) (modFree : BitVec 16)
    (world : World) : World × Bool :=
  let wanted : Bool := modFree ≠ kcNo ∧ modFree < safeRange
  match override.customAction with
  | none => (world, wanted)
  | some action => ((action activated world).1, wanted && (action activated world).2)

/-- Whether the trigger of an override is registered again when it is deactivated. -/
def Override.reregisters (override : Override World) (triggerIsDown : Bool) : Bool :=
  override.options &&& noReregisterTrigger = 0 ∧ triggerIsDown ∧ override.trigger ≠ kcNo ∧
    override.trigger < safeRange

/-- `clear_active_override` -/
def clearActiveOverride (s : State World) (allowReregister : Bool) (now : BitVec 32) :
    State World :=
  match s.activeOverride with
  | none => s
  | some pointer =>
    let override := table.override pointer
    let cleared := host.clearWeakOverrideMods (host.clearSuppressedOverrideMods s.world)
    -- `mod_free_replacement` is a `uint8_t` here.
    let modFree : BitVec 16 := ((clearModsFrom override.replacement).setWidth 8).setWidth 16
    let fired := override.fires false modFree cleared
    let unregistered :=
      if fired.2 then
        if isKey modFree then host.delKey modFree fired.1
        else host.unregisterCode (modFree.setWidth 8) (host.sendKeyboardReport fired.1)
      else fired.1
    let emptied : State World := { s with deferredRegister := 0, world := unregistered }
    let scheduled :=
      if allowReregister && override.reregisters s.triggerIsDown then
        scheduleDeferredRegister emptied override.trigger true now
      else emptied
    { scheduled with
      activeOverride := none
      triggerIsDown := false
      world := host.sendKeyboardReport scheduled.world }

/-- `check_activation_event` -/
def Override.checkActivationEvent (override : Override World) (keyDown mod : Bool) : Bool :=
  let options := if override.options &&& allActivations = 0 then allActivations else override.options
  if mod then
    if keyDown then options &&& activationRequiredModDown ≠ 0
    else options &&& activationNegativeModUp ≠ 0
  else if keyDown then options &&& activationTriggerDown ≠ 0
  else false

/-- The checks of the loop of `try_activating_override` for one override. -/
def State.activates (s : State World) (keycode : BitVec 16) (layer : Nat) (keyDown mod : Bool)
    (activeMods : BitVec 8) (pointer : Nat) : Bool :=
  let override := table.override pointer
  !(activeMods = 0 && override.triggerMods ≠ 0) &&
    override.layers.getLsbD layer &&
    override.checkActivationEvent keyDown mod &&
    !(override.trigger = keycode && !keyDown) &&
    !(some pointer = s.activeOverride) &&
    (match override.enabled with
    | none => true
    | some enabled => enabled s.world) &&
    override.matchesMods activeMods &&
    (override.trigger = kcNo || (override.trigger = keycode && keyDown) ||
      s.lastKeyDown = override.trigger)

/-- The rest of the loop, for the override that activates. The answer says whether the key
action is sent. -/
def activate (s : State World) (keycode : BitVec 16) (keyDown mod : Bool) (now : BitVec 32)
    (pointer : Nat) : State World × Bool :=
  let override := table.override pointer
  let triggerDown := override.trigger = keycode && keyDown
  let cleared := clearActiveOverride table host s false now
  let suppressed := host.setSuppressedOverrideMods override.suppressedMods cleared.world
  let removed :=
    if !triggerDown && override.trigger ≠ kcNo then
      if isKey override.trigger then host.delKey override.trigger suppressed
      else host.unregisterCode (override.trigger.setWidth 8) suppressed
    else suppressed
  let modFree := clearModsFrom override.replacement
  let fired := override.fires true modFree removed
  let active : State World :=
    { cleared with activeOverride := some pointer, triggerIsDown := true, world := fired.1 }
  if fired.2 then
    let weak := host.setWeakOverrideMods override.replacement fired.1
    if mod then
      let scheduled := scheduleDeferredRegister active modFree false now
      ({ scheduled with world := host.sendKeyboardReport weak }, !triggerDown)
    else if isKey modFree then ({ active with world := host.addKey modFree weak }, !triggerDown)
    else
      ({ active with
        world := host.registerCode (modFree.setWidth 8) (host.sendKeyboardReport weak) }, !triggerDown)
  else ({ active with world := host.sendKeyboardReport fired.1 }, !triggerDown)

/-- The override that `try_activating_override` finds. Its `uint8_t` reaches the first 256
pointers. -/
def State.findOverride (s : State World) (keycode : BitVec 16) (layer : Nat) (keyDown mod : Bool)
    (activeMods : BitVec 8) : Option Nat :=
  (table.keyOverrides.take 256).find? (s.activates table keycode layer keyDown mod activeMods)

/-- `try_activating_override`: the state, the key action to be sent, and whether an override
has been activated. The loop never ends if there are 256 pointers and none activates. -/
def tryActivatingOverride (s : State World) (keycode : BitVec 16) (layer : Nat)
    (keyDown mod : Bool) (activeMods : BitVec 8) (now : BitVec 32) :
    Option ((State World × Bool) × Bool) :=
  match s.findOverride table keycode layer keyDown mod activeMods with
  | some pointer => some (activate table host s keycode keyDown mod now pointer, true)
  | none => if 256 ≤ table.keyOverrides.length then none else some ((s, true), false)

/-- `key_override_off` -/
def turnOff (s : State World) (now : BitVec 32) : State World :=
  clearActiveOverride table host { s with enabled := false } false now

/-- The commands of `process_key_override`, if a press is one. -/
def command (s : State World) (keycode : BitVec 16) (now : BitVec 32) : Option (State World) :=
  if keycode = keyOverrideToggle then
    some (if s.enabled then turnOff table host s now else { s with enabled := true })
  else if keycode = keyOverrideOn then some { s with enabled := true }
  else if keycode = keyOverrideOff then some (turnOff table host s now)
  else none

/-- The modifiers behind a key event. -/
def modsBehind (mods : BitVec 8) (keycode : BitVec 16) (keyDown : Bool) : BitVec 8 :=
  if isMod keycode then
    if keyDown then mods ||| modBit keycode else mods &&& ~~~modBit keycode
  else mods

/-- The last key that is down, behind an event of a key that is no modifier. -/
def track (s : State World) (keycode : BitVec 16) (keyDown : Bool) (now : BitVec 32) :
    State World :=
  if isMod keycode then s
  else if keyDown then
    { s with lastKeyDown := keycode, lastKeyDownTime := now, deferredRegister := 0 }
  else if keycode = s.lastKeyDown then
    { s with lastKeyDown := 0, lastKeyDownTime := 0, deferredRegister := 0 }
  else s

/-- The deactivation at the end of `process_key_override`. -/
def deactivate (s : State World) (keycode : BitVec 16) (keyDown : Bool) (mods : BitVec 8)
    (now : BitVec 32) : State World :=
  match s.activeOverride with
  | none => s
  | some pointer =>
    let override := table.override pointer
    if isMod keycode then
      if override.matchesMods mods then s else clearActiveOverride table host s true now
    else
      let lifted := keycode = override.trigger ∧ ¬keyDown
      let released : State World := if lifted then { s with triggerIsDown := false } else s
      if lifted ∨ (keyDown ∧ override.options &&& noUnregisterOnOtherKeyDown = 0) then
        clearActiveOverride table host released false now
      else released

/-- `process_key_override`, where it returns. The answer says whether the key event is
processed further. -/
def processKeyOverride (s : State World) (keycode : BitVec 16) (layer : Nat) (keyDown : Bool)
    (now : BitVec 32) : Option (State World × Bool) :=
  match if keyDown then command table host s keycode now else none with
  | some commanded => some (commanded, false)
  | none =>
    if !s.enabled then some (s, true)
    else
      let mods := modsBehind (host.effectiveMods s.world) keycode keyDown
      let tracked := track s keycode keyDown now
      if isMod keycode || keyDown then
        (tryActivatingOverride table host tracked keycode layer keyDown (isMod keycode) mods now).map
          fun tried =>
            let sent : State World :=
              if tried.1.2 then tried.1.1
              else { tried.1.1 with world := host.sendKeyboardReport tried.1.1.world }
            (if tried.2 then sent else deactivate table host sent keycode keyDown mods now, tried.1.2)
      else some (deactivate table host tracked keycode keyDown mods now, true)

/-- The trigger that `key_override_task` registers, if it registers one. -/
def State.taskTrigger (s : State World) (now : BitVec 32) : Option (BitVec 16) :=
  if s.deferredRegister ≠ 0 ∧ s.deferDelay ≤ now - s.deferReferenceTime ∧ s.deferredTrigger then
    some s.deferredRegister
  else none

/-- `key_override_task` -/
def keyOverrideTask (s : State World) (now : BitVec 32) : State World :=
  if s.deferredRegister = 0 then s
  else if s.deferDelay ≤ now - s.deferReferenceTime then
    { s with
      deferredRegister := 0
      deferReferenceTime := 0
      deferDelay := 0
      world := host.registerCode16 s.deferredRegister s.world }
  else s

/-- A key event, with the layer that its key was pressed on, or a call of
`key_override_task`, at a time. -/
inductive Event where
  | key (now : BitVec 32) (keycode : BitVec 16) (layer : Nat) (pressed : Bool)
  | task (now : BitVec 32)
  deriving DecidableEq

/-- The firmware, the keys that are physically down, and the triggers that
`key_override_task` has registered and no release has unregistered. -/
structure Board (World : Type*) where
  firmware : State World
  held : List (BitVec 16) := []
  registered : List (BitVec 16) := []

/-- What happens with an event, if it ever ends. -/
def Board.exec (board : Board World) : Event → Option (Board World)
  | .task now =>
    some { board with
      firmware := keyOverrideTask host board.firmware now
      registered := (board.firmware.taskTrigger now).toList ++ board.registered }
  | .key now keycode layer pressed =>
    (processKeyOverride table host board.firmware keycode layer pressed now).map fun processed =>
      { firmware :=
          if processed.2 then
            { processed.1 with world := host.processAction keycode pressed processed.1.world }
          else processed.1
        held := if pressed then keycode :: board.held else board.held.erase keycode
        registered :=
          if processed.2 ∧ ¬pressed then board.registered.filter (· ≠ keycode)
          else board.registered }

end Functions

end QmkSonix.KeyOverride
