import QmkSonix.Oneshot.Typing

/-! From keycodes to actions: `keycode_config.c`, and `action_for_keycode` of
`keymap_common.c` with the macros it is written in. -/

namespace QmkSonix.Keycodes

open Layer (Byte actionTransparent)
open Oneshot (actLayer actLayerMods opOnOff opBitXor)
open Tapping (Action actLmods actLmodsTap actUsage actSwapHands actLayerTap actMacro funcTap
  modsOneshot opTapToggle opOneshot)

abbrev Keycode := BitVec 16

/-- The bits of `keymap_config` that change keycodes and modifiers. -/
structure KeymapConfig where
  swapControlCapslock : Bool := false
  capslockToControl : Bool := false
  swapLaltLgui : Bool := false
  swapRaltRgui : Bool := false
  noGui : Bool := false
  swapGraveEsc : Bool := false
  swapBackslashBackspace : Bool := false
  swapLctlLgui : Bool := false
  swapRctlRgui : Bool := false

/-- The options that `action_for_keycode` is built with. `fnActions` is `fn_actions`, and
none with `NO_ACTION_FUNCTION`; `actionLayer` and its like stand for the absence of
`NO_ACTION_LAYER` and its like. -/
structure Options where
  extrakeyEnable : Bool := true
  mousekeyEnable : Bool := true
  viaEnable : Bool := false
  swapHandsEnable : Bool := true
  actionMacro : Bool := true
  actionLayer : Bool := true
  actionOneshot : Bool := true
  actionTapping : Bool := true
  fnActions : Option (BitVec 16 → Action) := none

def kcEscape : Keycode := 0x29
def kcBackspace : Keycode := 0x2A
def kcBackslash : Keycode := 0x31
def kcGrave : Keycode := 0x35
def kcCapsLock : Keycode := 0x39
def kcLockingCapsLock : Keycode := 0x82
def kcLeftCtrl : Keycode := 0xE0
def kcLeftAlt : Keycode := 0xE2
def kcLeftGui : Keycode := 0xE3
def kcRightCtrl : Keycode := 0xE4
def kcRightAlt : Keycode := 0xE6
def kcRightGui : Keycode := 0xE7

def modLctl : Byte := 0x01
def modLalt : Byte := 0x04
def modLgui : Byte := 0x08
def modRctl : Byte := 0x11
def modRalt : Byte := 0x14
def modRgui : Byte := 0x18

/-! ### `keycode_config.c` -/

section Config

variable (config : KeymapConfig)

/-- `keycode_config` -/
def keycodeConfig (keycode : Keycode) : Keycode :=
  let unlessNoGui (gui : Keycode) := if config.noGui then 0 else gui
  if keycode = kcCapsLock ∨ keycode = kcLockingCapsLock then
    if config.swapControlCapslock ∨ config.capslockToControl then kcLeftCtrl else keycode
  else if keycode = kcLeftCtrl then
    if config.swapControlCapslock then kcCapsLock
    else if config.swapLctlLgui then unlessNoGui kcLeftGui
    else kcLeftCtrl
  else if keycode = kcLeftAlt then
    if config.swapLaltLgui then unlessNoGui kcLeftGui else kcLeftAlt
  else if keycode = kcLeftGui then
    if config.swapLaltLgui then kcLeftAlt
    else if config.swapLctlLgui then kcLeftCtrl
    else unlessNoGui kcLeftGui
  else if keycode = kcRightCtrl then
    if config.swapRctlRgui then unlessNoGui kcRightGui else kcRightCtrl
  else if keycode = kcRightAlt then
    if config.swapRaltRgui then unlessNoGui kcRightGui else kcRightAlt
  else if keycode = kcRightGui then
    if config.swapRaltRgui then kcRightAlt
    else if config.swapRctlRgui then kcRightCtrl
    else unlessNoGui kcRightGui
  else if keycode = kcGrave then if config.swapGraveEsc then kcEscape else kcGrave
  else if keycode = kcEscape then if config.swapGraveEsc then kcGrave else kcEscape
  else if keycode = kcBackslash then
    if config.swapBackslashBackspace then kcBackspace else kcBackslash
  else if keycode = kcBackspace then
    if config.swapBackslashBackspace then kcBackslash else kcBackspace
  else keycode

/-- One of the four swaps of `mod_config`: GUI and another modifier of one hand. The
masks are those of the right hand for both hands. -/
def swapMods (swap : Bool) (gui other otherMask mod : Byte) : Byte :=
  if !swap then mod
  else if mod &&& modRgui = gui then (mod &&& ~~~gui) ||| other
  else if mod &&& otherMask = other then (mod &&& ~~~other) ||| gui
  else mod

/-- `mod_config` -/
def modConfig (mod : Byte) : Byte :=
  let mod := swapMods config.swapLaltLgui modLgui modLalt modRalt mod
  let mod := swapMods config.swapRaltRgui modRgui modRalt modRalt mod
  let mod := swapMods config.swapLctlLgui modLgui modLctl modRctl mod
  let mod := swapMods config.swapRctlRgui modRgui modRctl modRctl mod
  if config.noGui then mod &&& ~~~modLgui &&& ~~~modRgui else mod

end Config

/-! ### `action_code.h` -/

def actMousekey : BitVec 4 := 0b0101

def opBitSet : BitVec 2 := 3
def onPress : BitVec 16 := 1
def onRelease : BitVec 16 := 2
def pageSystem : BitVec 16 := 0
def pageConsumer : BitVec 16 := 1
def actionNo : Action := 0

/-- `ACTION` -/
def action (kind : BitVec 4) (param : BitVec 16) : Action := kind.setWidth 16 <<< 12 ||| param

/-- `ACTION_MODS_KEY` and `ACTION_MODS_TAP_KEY`, by the kind. -/
def actionModsKey (kind : BitVec 4) (mods : BitVec 16) (key : BitVec 16) : Action :=
  action kind ((mods &&& 0x1F) <<< 8 ||| key)

/-- `ACTION_LAYER_BITOP` -/
def actionLayerBitop (op : BitVec 2) (part bits on : BitVec 16) : Action :=
  action actLayer (op.setWidth 16 <<< 10 ||| on <<< 8 ||| part <<< 5 ||| (bits &&& 0x1F))

/-- `ACTION_LAYER_TAP` -/
def actionLayerTap (layer key : BitVec 16) : Action := action actLayerTap (layer <<< 8 ||| key)

/-- `ACTION_LAYER_SET`, and `ACTION_DEFAULT_LAYER_SET` with an `on` of zero. -/
def actionLayerSet (layer : Byte) (on : BitVec 16) : Action :=
  actionLayerBitop opBitSet ((layer / 4).setWidth 16) ((1 : BitVec 16) <<< (layer % 4).toNat) on

/-- `ACTION_LAYER_INVERT` -/
def actionLayerInvert (layer : Byte) (on : BitVec 16) : Action :=
  actionLayerBitop opBitXor ((layer / 4).setWidth 16) ((1 : BitVec 16) <<< (layer % 4).toNat) on

/-- `KEYCODE2SYSTEM` -/
def keycode2System (key : Keycode) : BitVec 16 :=
  if key = 0xA5 then 0x81 else if key = 0xA6 then 0x82 else if key = 0xA7 then 0x83 else 0

/-- The usages of `KEYCODE2CONSUMER`, from `KC_AUDIO_MUTE` on. -/
def consumerUsages : List (BitVec 16) :=
  [0x0E2, 0x0E9, 0x0EA, 0x0B5, 0x0B6, 0x0B7, 0x0CD, 0x183, 0x0CC, 0x18A, 0x192, 0x194, 0x221,
    0x223, 0x224, 0x225, 0x226, 0x227, 0x22A, 0x0B3, 0x0B4, 0x06F, 0x070]

/-- `KEYCODE2CONSUMER` -/
def keycode2Consumer (key : Keycode) : BitVec 16 :=
  if 0xA8 ≤ key then consumerUsages.getD (key.toNat - 0xA8) 0 else 0

/-! ### `keymap_common.c` -/

/-- `case first ... last` -/
def among (keycode first last : Keycode) : Bool := first ≤ keycode ∧ keycode ≤ last

section Translation

variable (options : Options) (config : KeymapConfig)

/-- `KC_MS_UP` -/
def Options.kcMsUp : Keycode := if options.viaEnable then 0xF0 else 0xED

/-- The cases of `action_for_keycode` from `QK_LAYER_TAP` on. A keycode without its case,
because the option is off, is the default. -/
def translateHigh (keycode : Keycode) : Action :=
  let low := keycode &&& 0xFF
  if options.actionLayer ∧ among keycode 0x4000 0x4FFF then
    actionLayerTap (keycode >>> 8 &&& 0xF) low
  else if options.actionLayer ∧ among keycode 0x5000 0x50FF then
    actionLayerSet ((keycode &&& 0xF).setWidth 8) (keycode >>> 4 &&& 0x3)
  else if options.actionLayer ∧ among keycode 0x5100 0x51FF then
    actionLayerTap low (opOnOff.setWidth 16)
  else if options.actionLayer ∧ among keycode 0x5200 0x52FF then actionLayerSet (low.setWidth 8) 0
  else if options.actionLayer ∧ among keycode 0x5300 0x53FF then
    actionLayerInvert (low.setWidth 8) onRelease
  else if options.actionOneshot ∧ among keycode 0x5400 0x54FF then
    actionLayerTap low (opOneshot.setWidth 16)
  else if options.actionOneshot ∧ among keycode 0x5500 0x55FF then
    actionModsKey actLmodsTap ((modConfig config (low.setWidth 8)).setWidth 16)
      (modsOneshot.setWidth 16)
  else if options.actionLayer ∧ among keycode 0x5800 0x58FF then
    actionLayerTap low (opTapToggle.setWidth 16)
  else if options.actionLayer ∧ among keycode 0x5900 0x59FF then
    action actLayerMods ((keycode >>> 4 &&& 0xF) <<< 8 |||
      (modConfig config ((keycode &&& 0xF).setWidth 8)).setWidth 16)
  else if options.actionTapping ∧ among keycode 0x6000 0x7FFF then
    actionModsKey actLmodsTap
      ((modConfig config ((keycode >>> 8 &&& 0x1F).setWidth 8)).setWidth 16) low
  else if options.swapHandsEnable ∧ among keycode 0x5600 0x56FF then action actSwapHands low
  else actionNo

/-- The switch of `action_for_keycode`. -/
def translate (keycode : Keycode) : Action :=
  let low := keycode &&& 0xFF
  if among keycode 0x04 0xA4 ∨ among keycode kcLeftCtrl kcRightGui then action actLmods keycode
  else if options.extrakeyEnable ∧ among keycode 0xA5 0xA7 then
    action actUsage (pageSystem <<< 10 ||| keycode2System keycode)
  else if options.extrakeyEnable ∧ among keycode 0xA8 0xBE then
    action actUsage (pageConsumer <<< 10 ||| keycode2Consumer keycode)
  else if options.mousekeyEnable ∧ among keycode options.kcMsUp 0xFF then
    action actMousekey keycode
  else if keycode = 0x01 then actionTransparent
  else if among keycode 0x0100 0x1FFF then actionModsKey actLmods (keycode >>> 8) low
  else if options.fnActions.isSome ∧ among keycode 0xC0 0xDF then
    (options.fnActions.getD fun _ => 0) (keycode - 0xC0)
  else if options.fnActions.isSome ∧ among keycode 0x2000 0x2FFF then
    (options.fnActions.getD fun _ => 0) (keycode &&& 0xFFF)
  else if options.actionMacro ∧ among keycode 0x3000 0x3FFF then
    if keycode &&& 0x800 ≠ 0 then action actMacro (funcTap.setWidth 16 <<< 8 ||| low)
    else action actMacro low
  else translateHigh options config keycode

/-- `action_for_keycode` -/
def actionForKeycode (keycode : Keycode) : Action :=
  translate options config (keycodeConfig config keycode)

end Translation

/-! ### The layer keycodes of `quantum_keycodes.h` -/

def keycodeTo (layer : Byte) : Keycode := 0x5000 ||| (onPress <<< 4) ||| layer.setWidth 16

def keycodeMo (layer : Byte) : Keycode := 0x5100 ||| layer.setWidth 16

def keycodeDf (layer : Byte) : Keycode := 0x5200 ||| layer.setWidth 16

def keycodeTg (layer : Byte) : Keycode := 0x5300 ||| layer.setWidth 16

def keycodeTt (layer : Byte) : Keycode := 0x5800 ||| layer.setWidth 16

def keycodeLm (layer mod : Byte) : Keycode :=
  0x5900 ||| (layer.setWidth 16 &&& 0xF) <<< 4 ||| (mod.setWidth 16 &&& 0xF)

def keycodeLt (layer kc : Byte) : Keycode :=
  0x4000 ||| (layer.setWidth 16 &&& 0xF) <<< 8 ||| kc.setWidth 16

end QmkSonix.Keycodes
