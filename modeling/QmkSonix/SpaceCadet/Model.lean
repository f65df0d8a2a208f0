import Mathlib.Data.Nat.Notation
import Mathlib.Tactic.Common

/-! `process_space_cadet.c`, over the modifiers of `action_util.c`. -/

namespace QmkSonix.SpaceCadet

section Keycodes

def kcTransparent : BitVec 8 := 0x01
def kc9 : BitVec 8 := 0x26
def kc0 : BitVec 8 := 0x27
def kcEnter : BitVec 8 := 0x28
def kcLeftCtrl : BitVec 8 := 0xE0
def kcLeftShift : BitVec 8 := 0xE1
def kcLeftAlt : BitVec 8 := 0xE2
def kcRightCtrl : BitVec 8 := 0xE4
def kcRightShift : BitVec 8 := 0xE5
def kcRightAlt : BitVec 8 := 0xE6
def kcRightGui : BitVec 8 := 0xE7

/-- `IS_MOD` -/
def isMod (code : BitVec 8) : Bool := kcLeftCtrl ≤ code && code ≤ kcRightGui

/-- `MOD_INDEX` -/
def modIndex (code : BitVec 8) : ℕ := (code &&& 0x07).toNat

/-- `MOD_BIT` -/
def modBit (code : BitVec 8) : BitVec 8 := 1#8 <<< modIndex code

/-- The keycodes of the keys that hold a modifier, and of the others -/
inductive Key where
  | lspo
  | rspc
  | lcpo
  | rcpc
  | lapo
  | rapc
  | sftent
  | modifier (index : Fin 8)
  | other (keycode : BitVec 8)
  deriving DecidableEq, Repr

end Keycodes

/-- How the keyboard is built -/
structure Config where
  /-- `SPACE_CADET_MODIFIER_CARRYOVER` -/
  modifierCarryover : Bool
  /-- `DISABLE_SPACE_CADET_MODIFIER` -/
  disableModifier : Bool
  /-- `TAPPING_TERM`, or `get_tapping_term` with `TAPPING_TERM_PER_KEY` -/
  tappingTerm : Key → ℕ

section Definitions

variable (config : Config)

/-- The modifier of a key that is held, that of its tap, and the keycode that is tapped -/
structure Keys where
  holdMod : BitVec 8
  tapMod : BitVec 8
  keycode : BitVec 8
  deriving DecidableEq, Repr

def lspoMod : BitVec 8 := if config.disableModifier then kcTransparent else kcLeftShift

def rspcMod : BitVec 8 := if config.disableModifier then kcTransparent else kcRightShift

def lspoKeys : Keys := ⟨kcLeftShift, lspoMod config, kc9⟩

def rspcKeys : Keys := ⟨kcRightShift, rspcMod config, kc0⟩

def lcpoKeys : Keys := ⟨kcLeftCtrl, kcLeftShift, kc9⟩

def rcpcKeys : Keys := ⟨kcRightCtrl, kcRightShift, kc0⟩

def lapoKeys : Keys := ⟨kcLeftAlt, kcLeftShift, kc9⟩

def rapcKeys : Keys := ⟨kcRightAlt, kcRightShift, kc0⟩

def sftentKeys : Keys := ⟨kcRightShift, kcTransparent, kcEnter⟩

/-- The arguments with which `process_space_cadet` handles a keycode, which it does not where it
has none -/
def Key.keys : Key → Option Keys
  | .lspo => some (lspoKeys config)
  | .rspc => some (rspcKeys config)
  | .lcpo => some lcpoKeys
  | .rcpc => some rcpcKeys
  | .lapo => some lapoKeys
  | .rapc => some rapcKeys
  | .sftent => some sftentKeys
  | .modifier _ => none
  | .other _ => none

end Definitions

/-- The static variables, and the modifiers of `action_util.c` -/
structure State where
  realMods : BitVec 8 := 0
  weakMods : BitVec 8 := 0
  scLast : BitVec 8 := 0
  scTimer : BitVec 16 := 0
  scMods : BitVec 8 := 0
  deriving DecidableEq, Repr

/-- A keycode that is tapped, with the modifiers that are sent with it -/
structure Tap where
  mods : BitVec 8
  keycode : BitVec 8
  deriving DecidableEq, Repr

section Modifiers

variable (state : State) (code : BitVec 8)

def registerMods (mods : BitVec 8) : State := { state with realMods := state.realMods ||| mods }

def unregisterMods (mods : BitVec 8) : State :=
  { state with realMods := state.realMods &&& ~~~mods }

/-- `if (IS_MOD(code)) register_mods(MOD_BIT(code))` -/
def registerIfMod : State := if isMod code then registerMods state (modBit code) else state

/-- `if (IS_MOD(code)) unregister_mods(MOD_BIT(code))` -/
def unregisterIfMod : State := if isMod code then unregisterMods state (modBit code) else state

end Modifiers

section Process

variable (config : Config) (state : State)

/-- `timer_elapsed(sc_timer)` -/
def elapsed (time : BitVec 16) : BitVec 16 := time - state.scTimer

/-- The release of the key that was pressed last, within its tapping term, is a tap. -/
def isTap (key : Key) (keys : Keys) (time : BitVec 16) : Bool :=
  state.scLast = keys.holdMod && (elapsed state time).toNat < config.tappingTerm key

/-- What `perform_space_cadet` does when a key is released -/
def releaseSpaceCadet (key : Key) (keys : Keys) (time : BitVec 16) : State × List Tap :=
  if isTap config state key keys time then
    let swapped := if keys.holdMod ≠ keys.tapMod then
        registerIfMod (unregisterIfMod state keys.holdMod) keys.tapMod
      else state
    let carried := if config.modifierCarryover then
        { swapped with weakMods := swapped.scMods }
      else swapped
    let tap : Tap := ⟨carried.realMods ||| carried.weakMods, keys.keycode⟩
    let cleared := if config.modifierCarryover then { carried with weakMods := 0 } else carried
    (unregisterIfMod cleared keys.tapMod, [tap])
  else (unregisterIfMod state keys.holdMod, [])

def performSpaceCadet (key : Key) (keys : Keys) (pressed : Bool) (time : BitVec 16) :
    State × List Tap :=
  if pressed then
    let noted := { state with scLast := keys.holdMod, scTimer := time }
    let kept := if config.modifierCarryover then { noted with scMods := noted.realMods } else noted
    (registerIfMod kept keys.holdMod, [])
  else releaseSpaceCadet config state key keys time

/-- The state, what is tapped, and whether the key is left to others -/
def processSpaceCadet (key : Key) (pressed : Bool) (time : BitVec 16) :
    State × List Tap × Bool :=
  match key.keys config with
  | some keys =>
    let (state, taps) := performSpaceCadet config state key keys pressed time
    (state, taps, false)
  | none => (if pressed then { state with scLast := 0 } else state, [], true)

/-- A key that is left to others reaches `register_code` and `unregister_code`, which register
the modifier of a modifier key. -/
def processKey (key : Key) (pressed : Bool) (time : BitVec 16) : State × List Tap :=
  let (state, taps, _) := processSpaceCadet config state key pressed time
  match key with
  | .modifier index =>
    (if pressed then registerMods state (1#8 <<< index.val)
      else unregisterMods state (1#8 <<< index.val), taps)
  | _ => (state, taps)

end Process

end QmkSonix.SpaceCadet
