import Mathlib
import QmkSonix.Lib.Run

/-! Tap dances, as `process_tap_dance.c` keeps them: a counter and a timer for each
dance, and one keycode for the last of them that was tapped. -/

namespace QmkSonix.TapDance

/-- `QK_TAP_DANCE`; the keycodes up to `QK_TAP_DANCE_MAX` stand for the dances. -/
def qkTapDance : BitVec 16 := 0x5700

def qkTapDanceMax : BitVec 16 := 0x57FF

/-- `TD` -/
def td (index : Nat) : BitVec 16 := qkTapDance ||| (BitVec.ofNat 16 index &&& 0xFF)

/-- `qk_tap_dance_state_t` -/
structure Dance where
  count : BitVec 8 := 0
  oneshotMods : BitVec 8 := 0
  weakMods : BitVec 8 := 0
  keycode : BitVec 16 := 0
  interruptingKeycode : BitVec 16 := 0
  timer : BitVec 16 := 0
  interrupted : Bool := false
  pressed : Bool := false
  finished : Bool := false
  deriving DecidableEq

/-- What the dances call: the modifiers, the report, and their three functions, of which
`on_each_tap` may set `finished`. -/
structure Host (World : Type*) where
  getOneshotMods : World → BitVec 8
  getMods : World → BitVec 8
  getWeakMods : World → BitVec 8
  addMods : World → BitVec 8 → World
  delMods : World → BitVec 8 → World
  addWeakMods : World → BitVec 8 → World
  delWeakMods : World → BitVec 8 → World
  clearWeakMods : World → World
  sendKeyboardReport : World → World
  onEachTap : Nat → Dance → World → World × Bool
  onDanceFinished : Nat → Dance → World → World
  onReset : Nat → Dance → World → World

/-- The terms of the dances: `custom_tapping_term`, and `get_tapping_term` for those
without one. -/
structure Terms where
  customTappingTerm : Nat → BitVec 16 := fun _ => 0
  getTappingTerm : BitVec 16 → BitVec 16 := fun _ => 200

/-- `tap_dance_actions`, the statics, and the firmware around them. `highestTd` is
`none` for -1. The calls of `on_dance_finished` are recorded with the counts. -/
structure State (World : Type*) where
  dances : Nat → Dance := fun _ => {}
  lastTd : BitVec 16 := 0
  highestTd : Option Nat := none
  finishes : List (Nat × BitVec 8) := []
  world : World

section Functions

variable {World : Type*} (host : Host World) (terms : Terms)

def State.update (s : State World) (index : Nat) (change : Dance → Dance) : State World :=
  { s with dances := Function.update s.dances index (change (s.dances index)) }

/-- `process_tap_dance_action_on_dance_finished` -/
def actionOnDanceFinished (s : State World) (index : Nat) : State World :=
  if (s.dances index).finished then s
  else
    let finished := s.update index fun dance => { dance with finished := true }
    let dance := finished.dances index
    let added := host.sendKeyboardReport
      (host.addWeakMods (host.addMods s.world dance.oneshotMods) dance.weakMods)
    { finished with
      finishes := s.finishes ++ [(index, dance.count)]
      world := host.onDanceFinished index dance added }

/-- `process_tap_dance_action_on_reset` -/
def actionOnReset (s : State World) (index : Nat) : State World :=
  let dance := s.dances index
  let reset := host.onReset index dance s.world
  { s with
    world := host.sendKeyboardReport
      (host.delWeakMods (host.delMods reset dance.oneshotMods) dance.weakMods) }

/-- `reset_tap_dance` -/
def resetTapDance (s : State World) (index : Nat) : State World :=
  if (s.dances index).pressed then s
  else
    let reset := actionOnReset host s ((s.dances index).keycode - qkTapDance).toNat
    { reset.update index fun dance =>
        { dance with count := 0, interrupted := false, finished := false, interruptingKeycode := 0 }
      with lastTd := 0 }

/-- The loop of `preprocess_tap_dance` for one dance. -/
def interruptDance (keycode : BitVec 16) (s : State World) (index : Nat) : State World :=
  let dance := s.dances index
  if dance.count = 0 then s
  else if keycode = dance.keycode ∧ keycode = s.lastTd then s
  else
    let interrupted := s.update index fun dance =>
      { dance with interrupted := true, interruptingKeycode := keycode }
    let reset := resetTapDance host (actionOnDanceFinished host interrupted index) index
    { reset with world := host.clearWeakMods reset.world }

/-- The dances up to `highest_td`. -/
def State.used (s : State World) : List Nat :=
  match s.highestTd with
  | none => []
  | some highest => List.range (highest + 1)

/-- `preprocess_tap_dance` -/
def preprocessTapDance (s : State World) (keycode : BitVec 16) (pressed : Bool) : State World :=
  if pressed then s.used.foldl (interruptDance host keycode) s else s

/-- `highest_td` behind an event of a dance. -/
def raise (highest : Option Nat) (index : Nat) : Option Nat :=
  match highest with
  | none => some index
  | some other => some (max other index)

/-- `process_tap_dance` for a press, at the time `now` of `timer_read`. -/
def tapDance (s : State World) (index : Nat) (keycode now : BitVec 16) : State World :=
  let tapped := s.update index fun dance =>
    { dance with
      pressed := true
      keycode := keycode
      count := dance.count + 1
      timer := now
      oneshotMods := host.getOneshotMods s.world
      weakMods := host.getMods s.world ||| host.getWeakMods s.world }
  let called := host.onEachTap index (tapped.dances index) s.world
  { tapped.update index fun dance => { dance with finished := dance.finished || called.2 } with
    world := called.1
    lastTd := keycode }

/-- `process_tap_dance` for a release. -/
def releaseDance (s : State World) (index : Nat) : State World :=
  let released := s.update index fun dance => { dance with pressed := false }
  if (released.dances index).count ≠ 0 ∧ (released.dances index).finished then
    resetTapDance host released index
  else released

/-- The dance of a keycode, if it has one. -/
def danceOf (keycode : BitVec 16) : Option Nat :=
  if qkTapDance ≤ keycode ∧ keycode ≤ qkTapDanceMax then some (keycode - qkTapDance).toNat else none

/-- `process_tap_dance` -/
def processTapDance (s : State World) (keycode : BitVec 16) (pressed : Bool) (now : BitVec 16) :
    State World :=
  match danceOf keycode with
  | none => s
  | some index =>
    let raised := { s with highestTd := raise s.highestTd index }
    if pressed then tapDance host raised index keycode now else releaseDance host raised index

/-- The term of a dance, as `tap_dance_task` chooses it. -/
def Terms.term (terms : Terms) (index : Nat) (keycode : BitVec 16) : BitVec 16 :=
  if 0 < terms.customTappingTerm index then terms.customTappingTerm index
  else terms.getTappingTerm keycode

/-- The loop of `tap_dance_task` for one dance. -/
def expireDance (now : BitVec 16) (s : State World) (index : Nat) : State World :=
  let dance := s.dances index
  if dance.count ≠ 0 ∧ terms.term index dance.keycode < now - dance.timer then
    resetTapDance host (actionOnDanceFinished host s index) index
  else s

/-- `tap_dance_task`. Its loop runs a `uint8_t` up to `highest_td`, and never ends if
that is 255. -/
def tapDanceTask (s : State World) (now : BitVec 16) : Option (State World) :=
  if s.highestTd = some 255 then none else some (s.used.foldl (expireDance host terms now) s)

/-- A key event, or a call of `tap_dance_task`, at a time. -/
inductive Event where
  | key (now : Nat) (keycode : BitVec 16) (pressed : Bool)
  | task (now : Nat)
  deriving DecidableEq

def Event.now : Event → Nat
  | .key now _ _ => now
  | .task now => now

/-- What the firmware does with an event, if it ever ends. -/
def exec (s : State World) : Event → Option (State World)
  | .key now keycode pressed =>
    some (processTapDance host (preprocessTapDance host s keycode pressed) keycode pressed
      (BitVec.ofNat 16 now))
  | .task now => tapDanceTask host terms s (BitVec.ofNat 16 now)

end Functions

end QmkSonix.TapDance
