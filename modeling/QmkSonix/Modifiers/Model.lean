import QmkSonix.Oneshot.Typing

/-! The modifiers of `action_util.c` and what `process_action` does to them and to the
report. Built without `ONESHOT_TIMEOUT`, `KEY_OVERRIDE_ENABLE`, `LOCKING_SUPPORT_ENABLE`
and `COMMAND_ENABLE`, and with a report that has room for every key. -/

namespace QmkSonix.Modifiers

open Keyboard (KeyRecord Tap)
open Layer (Byte Config)
open Oneshot (Build actLayerMods isOneshotLayerKey)
open Tapping (Action actLmods actRmods actLmodsTap actRmodsTap modsOneshot modsTapToggle isMod)

/-- What the host gets. -/
structure Report where
  mods : Byte
  keys : Finset Byte

/-- The statics of `action_util.c`, the keys of `keyboard_report`, the reports that have
been sent, and `keymap_config.oneshot_disable`. -/
structure State where
  realMods : Byte := 0
  weakMods : Byte := 0
  macroMods : Byte := 0
  oneshotMods : Byte := 0
  oneshotLockedMods : Byte := 0
  oneshotDisable : Bool := false
  keys : Finset Byte := ∅
  sent : List Report := []

/-- `IS_KEY` -/
def isKey (code : Byte) : Bool := 0x04 ≤ code ∧ code ≤ 0xA4

/-- `MOD_BIT` -/
def modBit (code : Byte) : Byte := 1 <<< (code &&& 0x07).toNat

/-- `key.mods` of an action for the left hand or the right hand. -/
def modsOf (action : Action) : Byte :=
  if action.kindId = actLmods ∨ action.kindId = actLmodsTap then action.mods.setWidth 8
  else action.mods.setWidth 8 <<< 4

section Functions

def addMods (mods : Byte) (s : State) : State := { s with realMods := s.realMods ||| mods }

def delMods (mods : Byte) (s : State) : State := { s with realMods := s.realMods &&& ~~~mods }

def addWeakMods (mods : Byte) (s : State) : State := { s with weakMods := s.weakMods ||| mods }

def delWeakMods (mods : Byte) (s : State) : State := { s with weakMods := s.weakMods &&& ~~~mods }

def addKey (code : Byte) (s : State) : State := { s with keys := insert code s.keys }

def delKey (code : Byte) (s : State) : State := { s with keys := s.keys.erase code }

/-- `set_oneshot_mods`. The hook has its weak definition. -/
def setOneshotMods (mods : Byte) (s : State) : State :=
  if !s.oneshotDisable ∧ s.oneshotMods ≠ mods then { s with oneshotMods := mods } else s

def clearOneshotMods (s : State) : State :=
  if s.oneshotMods ≠ 0 then { s with oneshotMods := 0 } else s

def setOneshotLockedMods (mods : Byte) (s : State) : State :=
  if mods ≠ s.oneshotLockedMods then { s with oneshotLockedMods := mods } else s

def clearOneshotLockedMods (s : State) : State :=
  if s.oneshotLockedMods ≠ 0 then { s with oneshotLockedMods := 0 } else s

/-- `send_keyboard_report` -/
def sendKeyboardReport (s : State) : State :=
  let mods := s.realMods ||| s.weakMods ||| s.macroMods
  if s.oneshotMods ≠ 0 then
    let report : Report := { mods := mods ||| s.oneshotMods, keys := s.keys }
    let s := if s.keys.Nonempty then clearOneshotMods s else s
    { s with sent := s.sent ++ [report] }
  else { s with sent := s.sent ++ [{ mods, keys := s.keys }] }

def registerMods (mods : Byte) (s : State) : State :=
  if mods ≠ 0 then sendKeyboardReport (addMods mods s) else s

def unregisterMods (mods : Byte) (s : State) : State :=
  if mods ≠ 0 then sendKeyboardReport (delMods mods s) else s

/-- `register_code`. Other codes change neither modifiers nor keys. -/
def registerCode (code : Byte) (s : State) : State :=
  if code = 0 then s
  else if isKey code then
    let s := if code ∈ s.keys then sendKeyboardReport (delKey code s) else s
    sendKeyboardReport (addKey code s)
  else if isMod code then sendKeyboardReport (addMods (modBit code) s)
  else s

/-- `unregister_code` -/
def unregisterCode (code : Byte) (s : State) : State :=
  if code = 0 then s
  else if isKey code then sendKeyboardReport (delKey code s)
  else if isMod code then sendKeyboardReport (delMods (modBit code) s)
  else s

/-- The body of `ACT_LMODS` and `ACT_RMODS`, and that of a one-shot key while one-shot
keys are switched off. -/
def modsKey (pressed : Bool) (code mods : Byte) (s : State) : State :=
  let strong := isMod code ∨ code = 0
  if pressed then
    let s :=
      if mods ≠ 0 then
        sendKeyboardReport (if strong then addMods mods s else addWeakMods mods s)
      else s
    registerCode code s
  else
    let s := unregisterCode code s
    if mods ≠ 0 then
      sendKeyboardReport (if strong then delMods mods s else delWeakMods mods s)
    else s

end Functions

section Switch

variable {cfg : Config} (build : Build cfg)

/-- `MODS_ONESHOT` -/
def oneshotModsKey (record : KeyRecord) (mods : Byte) (s : State) : State :=
  if s.oneshotDisable then modsKey record.pressed modsOneshot mods s
  else if record.pressed then
    if record.tap.count = 0 then registerMods (mods ||| s.oneshotMods) s
    else if record.tap.count = 1 then setOneshotMods (mods ||| s.oneshotMods) s
    else if build.oneshotTapToggle = some record.tap.count then
      registerMods mods (setOneshotLockedMods mods (clearOneshotMods s))
    else registerMods (mods ||| s.oneshotMods) s
  else if record.tap.count = 0 then unregisterMods mods (clearOneshotMods s)
  else if record.tap.count = 1 then
    if build.oneshotTapToggle.isSome ∧ mods &&& s.realMods ≠ 0 then
      unregisterMods mods (clearOneshotMods (clearOneshotLockedMods s))
    else s
  else if build.oneshotTapToggle = some record.tap.count then s
  else unregisterMods mods (clearOneshotMods s)

/-- `MODS_TAP_TOGGLE` -/
def tapToggleKey (record : KeyRecord) (mods : Byte) (s : State) : State :=
  if record.pressed then
    if record.tap.count ≤ build.tappingToggle then registerMods mods s else s
  else if record.tap.count < build.tappingToggle then unregisterMods mods s
  else s

/-- The other mod-tap keys. -/
def modTapKey (record : KeyRecord) (code mods : Byte) (s : State) : State :=
  if record.pressed then
    if 0 < record.tap.count then
      if !build.getIgnoreModTapInterrupt record ∧ record.tap.interrupted then registerMods mods s
      else registerCode code s
    else registerMods mods s
  else if 0 < record.tap.count then unregisterCode code s
  else unregisterMods mods s

/-- With `ONESHOT_TAP_TOGGLE` a one-shot layer key lifts the locked modifiers while it
is down. -/
def oneshotLayerMods (toggle : ℕ) (record : KeyRecord) (s : State) : State :=
  if record.pressed then delMods s.oneshotLockedMods s
  else
    let s := addMods s.oneshotLockedMods s
    if toggle ≤ record.tap.count then clearOneshotLockedMods s else s

/-- The calls of `register_code` and `unregister_code`. -/
def codeKey (record : KeyRecord) (action : Action) (s : State) : State :=
  (build.codeCalls record action).foldl
    (fun s call => if call.2 then registerCode call.1 s else unregisterCode call.1 s) s

/-- The switch of `process_action` -/
def perform (record : KeyRecord) (action : Action) (s : State) : State :=
  if action.kindId = actLmods ∨ action.kindId = actRmods then
    modsKey record.pressed action.code (modsOf action) s
  else if action.kindId = actLmodsTap ∨ action.kindId = actRmodsTap then
    if action.code = modsOneshot then oneshotModsKey build record (modsOf action) s
    else if action.code = modsTapToggle then tapToggleKey build record (modsOf action) s
    else modTapKey build record action.code (modsOf action) s
  else if action.kindId = actLayerMods then
    if record.pressed then registerMods action.code s else unregisterMods action.code s
  else if isOneshotLayerKey action then
    match build.oneshotTapToggle with
    | some toggle => if s.oneshotDisable then s else oneshotLayerMods toggle record s
    | none => s
  else codeKey build record action s

/-- The tap of the record behind the switch: a typed mod-tap that was interrupted is
taken back. -/
def leftTap (record : KeyRecord) (action : Action) : Tap :=
  if (action.kindId = actLmodsTap ∨ action.kindId = actRmodsTap) ∧
      action.code ≠ modsOneshot ∧ action.code ≠ modsTapToggle ∧ record.pressed ∧
      0 < record.tap.count ∧ !build.getIgnoreModTapInterrupt record ∧ record.tap.interrupted then
    { record.tap with count := 0 }
  else record.tap

end Switch

end QmkSonix.Modifiers
