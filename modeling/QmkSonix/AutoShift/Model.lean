import Mathlib
import QmkSonix.Lib.Run

/-! Auto Shift, as `process_auto_shift.c` computes it without `RETRO_SHIFT` and
`AUTO_SHIFT_MODIFIERS`: one pending key, and one timer for all of its keys. -/

namespace QmkSonix.AutoShift

def kcNo : BitVec 16 := 0x0000

def kcLsft : BitVec 16 := 0x00E1

def kcRsft : BitVec 16 := 0x00E5

/-- `KC_ASUP`, the first of the keycodes for the settings of Auto Shift. -/
def kcAsup : BitVec 16 := 0x5C17

def kcAsdn : BitVec 16 := 0x5C18

def kcAsrp : BitVec 16 := 0x5C19

def kcAstg : BitVec 16 := 0x5C1A

def kcAson : BitVec 16 := 0x5C1B

def kcAsoff : BitVec 16 := 0x5C1C

/-- `MOD_BIT(KC_LSFT)` -/
def leftShift : BitVec 8 := 0x02

/-- `MOD_BIT(KC_RSFT)` -/
def rightShift : BitVec 8 := 0x20

/-- `IS_LT` -/
def isLt (keycode : BitVec 16) : Prop := 0x4000 ≤ keycode ∧ keycode ≤ 0x4FFF

/-- `IS_MT` -/
def isMt (keycode : BitVec 16) : Prop := 0x6000 ≤ keycode ∧ keycode ≤ 0x7FFF

/-- `IS_RETRO` -/
def isRetro (keycode : BitVec 16) : Prop := isMt keycode ∨ isLt keycode

instance : DecidablePred isRetro := fun _ => inferInstanceAs (Decidable ((_ ∧ _) ∨ (_ ∧ _)))

/-- `IS_MOD` -/
def isMod (keycode : BitVec 16) : Prop := 0xE0 ≤ keycode ∧ keycode ≤ 0xE7

/-- The options of the build, and the keys it adds to Auto Shift. Modifiers cannot be
among them. -/
structure Config where
  autoShiftRepeat : Bool
  autoShiftNoAutoRepeat : Bool
  ignoreModTapInterrupt : Bool
  autoShiftTimeout : BitVec 16
  getTappingTerm : BitVec 16 → BitVec 16
  getCustomAutoShiftedKey : BitVec 16 → Bool
  notMod : ∀ keycode, getCustomAutoShiftedKey keycode = true → ¬isMod keycode

/-- Without keys of the user's own, no modifier is among them. -/
theorem none_custom (keycode : BitVec 16) (custom : false = true) : ¬isMod keycode :=
  absurd custom Bool.false_ne_true

/-- What Auto Shift calls. Its two user functions register and unregister the key, with
weak modifiers at most; `process_action` does the rest of a key event, with the real and
one-shot modifiers. -/
structure Host (World : Type*) where
  autoshiftPressUser : BitVec 16 → Bool → World → World
  autoshiftReleaseUser : BitVec 16 → Bool → World → World
  delWeakMods : BitVec 8 → World → World
  sendKeyboardReport : BitVec 8 → World → World
  clearOneshotLayerState : World → World
  autoshiftTimerReport : BitVec 16 → World → World
  processAction : BitVec 16 → Bool → BitVec 8 × BitVec 8 × World → BitVec 8 × BitVec 8 × World

/-- The statics of `process_auto_shift.c`, the modifiers, and the firmware around them.
The calls of `autoshift_press_user` are recorded. -/
structure State (World : Type*) where
  time : BitVec 16 := 0
  timeout : BitVec 16
  lastkey : BitVec 16 := kcNo
  shiftStates : BitVec 8 → Bool := fun _ => false
  enabled : Bool := true
  lastshifted : Bool := false
  inProgress : Bool := false
  holdingShift : Bool := false
  cancellingLshift : Bool := false
  cancellingRshift : Bool := false
  mods : BitVec 8 := 0
  oneshotMods : BitVec 8 := 0
  calls : List (BitVec 16 × Bool) := []
  world : World

section Functions

variable {World : Type*} (cfg : Config) (host : Host World)

/-- The power-on state. -/
def State.start (world : World) : State World :=
  { timeout := cfg.autoShiftTimeout, world := world }

/-- `get_auto_shifted_key` -/
def Config.getAutoShiftedKey (keycode : BitVec 16) : Bool :=
  (0x04 ≤ keycode ∧ keycode ≤ 0x1D) || (0x1E ≤ keycode ∧ keycode ≤ 0x27) ||
    keycode = 0x2B || (0x2D ≤ keycode ∧ keycode ≤ 0x38) || keycode = 0x64 ||
    cfg.getCustomAutoShiftedKey keycode

/-- `set_autoshift_shift_state` -/
def State.setShiftState (s : State World) (keycode : BitVec 16) (shifted : Bool) : State World :=
  { s with shiftStates := Function.update s.shiftStates (keycode.setWidth 8) shifted }

/-- `get_autoshift_shift_state` -/
def State.getShiftState (s : State World) (keycode : BitVec 16) : Bool :=
  s.shiftStates (keycode.setWidth 8)

def pressUser (s : State World) (keycode : BitVec 16) (shifted : Bool) : State World :=
  { s with
    calls := s.calls ++ [(keycode, shifted)]
    world := host.autoshiftPressUser keycode shifted s.world }

def releaseUser (s : State World) (keycode : BitVec 16) (shifted : Bool) : State World :=
  { s with world := host.autoshiftReleaseUser keycode shifted s.world }

/-- The removal of the shifts that are held. -/
def cancelShifts (s : State World) : State World :=
  let left : State World :=
    if s.mods &&& leftShift ≠ 0 then
      { s with cancellingLshift := true, mods := s.mods &&& ~~~leftShift }
    else s
  if left.mods &&& rightShift ≠ 0 then
    { left with cancellingRshift := true, mods := left.mods &&& ~~~rightShift }
  else left

/-- `autoshift_flush_shift` -/
def flushShift (s : State World) : State World :=
  let weak : State World :=
    { s with holdingShift := false, world := host.delWeakMods leftShift s.world }
  let left : State World :=
    if weak.cancellingLshift then
      { weak with cancellingLshift := false, mods := weak.mods ||| leftShift }
    else weak
  let right : State World :=
    if left.cancellingRshift then
      { left with cancellingRshift := false, mods := left.mods ||| rightShift }
    else left
  { right with world := host.sendKeyboardReport right.mods right.world }

/-- The modifiers that keep a key from Auto Shift. -/
def State.otherMods (s : State World) : BitVec 8 :=
  (s.mods ||| s.oneshotMods) &&& ~~~leftShift

/-- Whether left shift is active. -/
def State.leftActive (s : State World) : Bool :=
  (s.mods ||| s.oneshotMods) &&& leftShift ≠ 0

/-- Whether the press of a key is a tap-then-hold, for key repeat. -/
def repeats (s : State World) (keycode now : BitVec 16) : Prop :=
  cfg.autoShiftRepeat = true ∧ keycode = s.lastkey ∧
    (cfg.autoShiftNoAutoRepeat = true ∨ s.lastshifted = false) ∧
    now - s.time < cfg.getTappingTerm s.lastkey

instance (s : State World) (keycode now : BitVec 16) : Decidable (repeats cfg s keycode now) :=
  inferInstanceAs (Decidable (_ ∧ _ ∧ _ ∧ _))

/-- `autoshift_press` -/
def autoshiftPress (s : State World) (keycode now : BitVec 16) : State World :=
  if s.otherMods ≠ 0 then
    let pressed := pressUser host ({ s with lastkey := kcNo }.setShiftState keycode false) keycode false
    { pressed with
      oneshotMods := s.oneshotMods &&& ~~~leftShift
      world := host.clearOneshotLayerState pressed.world }
  else if repeats cfg s keycode now then
    pressUser host (cancelShifts s) s.lastkey s.lastshifted
  else
    { s with
      lastshifted := s.leftActive
      oneshotMods := s.oneshotMods &&& ~~~leftShift
      lastkey := keycode
      time := now
      inProgress := true
      world := host.clearOneshotLayerState s.world }

/-- `autoshift_end` -/
def autoshiftEnd (s : State World) (keycode now : BitVec 16) (matrixTrigger : Bool) : State World :=
  if s.inProgress = true ∧ (keycode = s.lastkey ∨ keycode = kcNo) then
    let shifted := s.lastshifted || decide (s.timeout ≤ now - s.time)
    let decided : State World := { s with inProgress := false, lastshifted := shifted }
    let pressed :=
      pressUser host (cancelShifts (decided.setShiftState s.lastkey shifted)) s.lastkey shifted
    if cfg.autoShiftRepeat ∧ ¬cfg.autoShiftNoAutoRepeat ∧ matrixTrigger then pressed
    else { flushShift host (releaseUser host pressed s.lastkey shifted) with time := now }
  else
    let released := releaseUser host s keycode (s.getShiftState keycode)
    { if keycode = s.lastkey then flushShift host released else released with time := now }

/-- `autoshift_matrix_scan` -/
def autoshiftMatrixScan (s : State World) (now : BitVec 16) : State World :=
  if s.inProgress = true ∧ s.timeout ≤ now - s.time then
    autoshiftEnd cfg host s s.lastkey now true
  else s

/-- The head of `process_auto_shift` for a press: it evaluates the previous key. -/
def settle (s : State World) (now : BitVec 16) : State World :=
  if s.inProgress then autoshiftEnd cfg host s kcNo now false else s

/-- The `switch` of `process_auto_shift` over the keycodes for its settings. -/
def changeSettings (s : State World) (keycode : BitVec 16) : State World :=
  if keycode = kcAstg then flushShift host { s with enabled := !s.enabled }
  else if keycode = kcAson then { s with enabled := true }
  else if keycode = kcAsoff then flushShift host { s with enabled := false }
  else if keycode = kcAsup then { s with timeout := s.timeout + 5 }
  else if keycode = kcAsdn then { s with timeout := s.timeout - 5 }
  else if keycode = kcAsrp then { s with world := host.autoshiftTimerReport s.timeout s.world }
  else s

/-- `process_auto_shift` for a press. The answer says whether the key is processed
further. -/
def processPress (s : State World) (keycode now : BitVec 16) : State World × Bool :=
  let set := changeSettings host (settle cfg host s now) keycode
  if isRetro keycode then ({ set with lastkey := kcNo }, true)
  else if !set.enabled then (set, true)
  else if cfg.getAutoShiftedKey keycode then (autoshiftPress cfg host set keycode now, false)
  else ({ set with lastkey := kcNo }, true)

/-- The release of a shift key that Auto Shift has removed. -/
def forgetShift (s : State World) (keycode : BitVec 16) : State World :=
  if keycode = kcLsft then { s with cancellingLshift := false }
  else if keycode = kcRsft then { s with cancellingRshift := false }
  else s

/-- `process_auto_shift` for a release. -/
def processRelease (s : State World) (keycode now : BitVec 16) : State World × Bool :=
  if isRetro keycode then
    (if s.inProgress = true ∧ cfg.ignoreModTapInterrupt = false then
      autoshiftEnd cfg host s kcNo now false
    else s, true)
  else
    let forgotten := forgetShift s keycode
    if !forgotten.enabled then (forgotten, true)
    else if cfg.getAutoShiftedKey keycode then
      (autoshiftEnd cfg host forgotten keycode now false, false)
    else (forgotten, true)

/-- `process_auto_shift` -/
def processAutoShift (s : State World) (keycode : BitVec 16) (pressed : Bool) (now : BitVec 16) :
    State World × Bool :=
  if pressed then processPress cfg host s keycode now else processRelease cfg host s keycode now

/-- `process_action` behind it: the shift keys are in the real modifiers from their press
to their release. -/
def processAction (s : State World) (keycode : BitVec 16) (pressed : Bool) : State World :=
  if keycode = kcLsft ∨ keycode = kcRsft then
    let bit := if keycode = kcLsft then leftShift else rightShift
    let mods := if pressed then s.mods ||| bit else s.mods &&& ~~~bit
    { s with mods := mods, world := host.sendKeyboardReport mods s.world }
  else
    let acted := host.processAction keycode pressed (s.mods, s.oneshotMods, s.world)
    { s with mods := acted.1, oneshotMods := acted.2.1, world := acted.2.2 }

/-- A key event, or a call of `autoshift_matrix_scan`, at a time. -/
inductive Event where
  | key (now : Nat) (keycode : BitVec 16) (pressed : Bool)
  | scan (now : Nat)
  deriving DecidableEq

def Event.now : Event → Nat
  | .key now _ _ => now
  | .scan now => now

/-- What the firmware does with an event. -/
def step (s : State World) : Event → State World
  | .scan now => autoshiftMatrixScan cfg host s (BitVec.ofNat 16 now)
  | .key now keycode pressed =>
    let processed := processAutoShift cfg host s keycode pressed (BitVec.ofNat 16 now)
    if processed.2 then processAction host processed.1 keycode pressed else processed.1

end Functions

/-- A firmware that does nothing of its own. -/
def silent : Host Unit where
  autoshiftPressUser _ _ _ := ()
  autoshiftReleaseUser _ _ _ := ()
  delWeakMods _ _ := ()
  sendKeyboardReport _ _ := ()
  clearOneshotLayerState _ := ()
  autoshiftTimerReport _ _ := ()
  processAction _ _ firmware := firmware

end QmkSonix.AutoShift
