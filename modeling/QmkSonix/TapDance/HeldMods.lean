import QmkSonix.Lib.Loans
import QmkSonix.TapDance.Model

/-! The real modifiers of `action_util.c` under tap dances, modifier keys and one-shot
modifier keys, and when the reset of a dance leaves exactly those that are held. -/

namespace QmkSonix.TapDance

open Lib

/-! ### What every function of the world keeps -/

/-- An invariant of the world that no function of the host breaks. -/
structure Host.Keeps {World : Type*} (host : Host World) (Invariant : World → Prop) : Prop where
  addMods : ∀ world mods, Invariant world → Invariant (host.addMods world mods)
  delMods : ∀ world mods, Invariant world → Invariant (host.delMods world mods)
  addWeakMods : ∀ world mods, Invariant world → Invariant (host.addWeakMods world mods)
  delWeakMods : ∀ world mods, Invariant world → Invariant (host.delWeakMods world mods)
  clearWeakMods : ∀ world, Invariant world → Invariant (host.clearWeakMods world)
  sendKeyboardReport : ∀ world, Invariant world → Invariant (host.sendKeyboardReport world)
  onEachTap : ∀ index dance world, Invariant world → Invariant (host.onEachTap index dance world).1
  onDanceFinished : ∀ index dance world,
    Invariant world → Invariant (host.onDanceFinished index dance world)
  onReset : ∀ index dance world, Invariant world → Invariant (host.onReset index dance world)

section Keeps

variable {World : Type*} {host : Host World} {terms : Terms} {Invariant : World → Prop}
  (keeps : host.Keeps Invariant) {s after : State World}

include keeps

theorem Host.Keeps.actionOnDanceFinished (holds : Invariant s.world) (index : Nat) :
    Invariant (actionOnDanceFinished host s index).world := by
  unfold TapDance.actionOnDanceFinished
  split
  · exact holds
  · exact keeps.onDanceFinished _ _ _ (keeps.sendKeyboardReport _
      (keeps.addWeakMods _ _ (keeps.addMods _ _ holds)))

theorem Host.Keeps.resetTapDance (holds : Invariant s.world) (index : Nat) :
    Invariant (resetTapDance host s index).world := by
  unfold TapDance.resetTapDance
  split
  · exact holds
  · exact keeps.sendKeyboardReport _ (keeps.delWeakMods _ _ (keeps.delMods _ _
      (keeps.onReset _ _ _ holds)))

theorem Host.Keeps.preprocessTapDance (holds : Invariant s.world) (keycode : BitVec 16)
    (pressed : Bool) : Invariant (preprocessTapDance host s keycode pressed).world := by
  unfold TapDance.preprocessTapDance
  split
  · refine List.foldlRecOn (motive := fun now : State World => Invariant now.world) s.used _ holds
      fun now holds index _ => ?_
    unfold interruptDance
    dsimp only
    split_ifs
    · exact holds
    · exact holds
    · refine keeps.clearWeakMods _ (keeps.resetTapDance (keeps.actionOnDanceFinished ?_ _) _)
      exact holds
  · exact holds

theorem Host.Keeps.processTapDance (holds : Invariant s.world) (keycode : BitVec 16)
    (pressed : Bool) (now : BitVec 16) :
    Invariant (processTapDance host s keycode pressed now).world := by
  unfold TapDance.processTapDance
  cases danceOf keycode with
  | none => exact holds
  | some index =>
    cases pressed with
    | true => exact keeps.onEachTap _ _ _ holds
    | false =>
      simp only [Bool.false_eq_true, ↓reduceIte, releaseDance]
      split
      · refine keeps.resetTapDance ?_ index
        exact holds
      · exact holds

theorem Host.Keeps.tapDanceTask (holds : Invariant s.world) {now : BitVec 16}
    (returns : tapDanceTask host terms s now = some after) : Invariant after.world := by
  unfold TapDance.tapDanceTask at returns
  split at returns
  · cases returns
  · obtain rfl := Option.some.inj returns
    refine List.foldlRecOn (motive := fun now : State World => Invariant now.world) s.used _ holds
      fun now holds index _ => ?_
    unfold expireDance
    dsimp only
    split
    · exact keeps.resetTapDance (keeps.actionOnDanceFinished holds index) index
    · exact holds

end Keeps

/-! ### The modifiers -/

/-- The modifiers of `action_util.c`, with what else the firmware keeps. -/
structure Mods (Rest : Type*) where
  realMods : BitVec 8 := 0
  weakMods : BitVec 8 := 0
  oneshotMods : BitVec 8 := 0
  rest : Rest

/-- What `send_keyboard_report` needs of the rest. -/
structure Reports (Rest : Type*) where
  macroMods : Rest → BitVec 8
  hasOneshotModsTimedOut : Rest → Bool
  hasAnykey : Rest → Bool
  hostKeyboardSend : BitVec 8 → Rest → Rest

variable {Rest : Type*}

/-- `add_mods` -/
def Mods.addMods (w : Mods Rest) (mods : BitVec 8) : Mods Rest :=
  { w with realMods := w.realMods ||| mods }

/-- `del_mods` -/
def Mods.delMods (w : Mods Rest) (mods : BitVec 8) : Mods Rest :=
  { w with realMods := w.realMods &&& ~~~mods }

/-- `set_oneshot_mods`, with one-shot keys enabled, and `clear_oneshot_mods` for 0. -/
def Mods.setOneshotMods (w : Mods Rest) (mods : BitVec 8) : Mods Rest :=
  { w with oneshotMods := mods }

/-- `send_keyboard_report` -/
def Mods.sendKeyboardReport (reports : Reports Rest) (w : Mods Rest) : Mods Rest :=
  let mods := w.realMods ||| w.weakMods ||| reports.macroMods w.rest
  let timed := if reports.hasOneshotModsTimedOut w.rest then 0 else w.oneshotMods
  { w with
    oneshotMods := if reports.hasAnykey w.rest then 0 else timed
    rest := reports.hostKeyboardSend (mods ||| timed) w.rest }

/-- `register_mods` -/
def Mods.registerMods (reports : Reports Rest) (w : Mods Rest) (mods : BitVec 8) : Mods Rest :=
  if mods ≠ 0 then (w.addMods mods).sendKeyboardReport reports else w

/-- `unregister_mods` -/
def Mods.unregisterMods (reports : Reports Rest) (w : Mods Rest) (mods : BitVec 8) : Mods Rest :=
  if mods ≠ 0 then (w.delMods mods).sendKeyboardReport reports else w

/-- The functions of the dances, which leave the real modifiers alone. -/
structure Callbacks (Rest : Type*) where
  onEachTap : Nat → Dance → Mods Rest → Mods Rest × Bool
  onDanceFinished : Nat → Dance → Mods Rest → Mods Rest
  onReset : Nat → Dance → Mods Rest → Mods Rest
  onEachTap_mods : ∀ index dance w, (onEachTap index dance w).1.realMods = w.realMods
  onDanceFinished_mods : ∀ index dance w, (onDanceFinished index dance w).realMods = w.realMods
  onReset_mods : ∀ index dance w, (onReset index dance w).realMods = w.realMods

/-! ### The account of the modifiers -/

/-- The reset of a dance: the modifiers held then, those lent then, those that the dance
takes back, and the real modifiers it leaves. -/
structure Reset where
  held : BitVec 8
  lent : BitVec 8
  removed : BitVec 8
  left : BitVec 8
  deriving DecidableEq

/-- The modifiers whose keys are held, those that dances that have finished, or one-shot
keys, have put on top and nothing has taken away, and the resets so far. -/
structure Account where
  held : BitVec 8 := 0
  lent : BitVec 8 := 0
  resets : List Reset := []
  deriving DecidableEq

def Account.hold (account : Account) (mods : BitVec 8) : Account :=
  { account with held := account.held ||| mods, lent := account.lent &&& ~~~mods }

def Account.letGo (account : Account) (mods : BitVec 8) : Account :=
  { account with held := account.held &&& ~~~mods, lent := account.lent &&& ~~~mods }

def Account.lend (account : Account) (mods : BitVec 8) : Account :=
  { account with lent := account.lent ||| (mods &&& ~~~account.held) }

def Account.takeBack (account : Account) (mods left : BitVec 8) : Account :=
  { account with
    lent := account.lent &&& ~~~mods
    resets := account.resets ++ [⟨account.held, account.lent, mods, left⟩] }

/-- The modifiers with their account, of which the firmware knows nothing. A dance adds
modifiers when it finishes, and removes them when it is reset. -/
def Mods.host (reports : Reports Rest) (callbacks : Callbacks Rest) : Host (Mods Rest × Account) where
  getOneshotMods w := w.1.oneshotMods
  getMods w := w.1.realMods
  getWeakMods w := w.1.weakMods
  addMods w mods := (w.1.addMods mods, w.2.lend mods)
  delMods w mods := (w.1.delMods mods, w.2.takeBack mods (w.1.delMods mods).realMods)
  addWeakMods w mods := ({ w.1 with weakMods := w.1.weakMods ||| mods }, w.2)
  delWeakMods w mods := ({ w.1 with weakMods := w.1.weakMods &&& ~~~mods }, w.2)
  clearWeakMods w := ({ w.1 with weakMods := 0 }, w.2)
  sendKeyboardReport w := (w.1.sendKeyboardReport reports, w.2)
  onEachTap index dance w :=
    (((callbacks.onEachTap index dance w.1).1, w.2), (callbacks.onEachTap index dance w.1).2)
  onDanceFinished index dance w := (callbacks.onDanceFinished index dance w.1, w.2)
  onReset index dance w := (callbacks.onReset index dance w.1, w.2)

/-! ### The keys -/

/-- `KC_LEFT_CTRL` to `KC_RIGHT_GUI` -/
def modifierKeycode (index : Fin 8) : BitVec 16 := 0xE0 + BitVec.ofNat 16 index

/-- `MOD_BIT` -/
def modBit (index : Fin 8) : BitVec 8 := 1 <<< index.val

/-- `OSM` -/
def osm (mod : BitVec 8) : BitVec 16 := 0x5500 ||| mod.setWidth 16

/-- The modifiers of `ACTION_MODS_ONESHOT`: four bits, and one for the right hand. -/
def oneShotMods (mod : BitVec 8) : BitVec 8 :=
  if mod &&& 0x10 = 0 then mod &&& 0xF else (mod &&& 0xF) <<< 4

/-- The modifier keys, the one-shot modifier keys with the taps that the tapping code has
counted, the keys of the dances, and the calls of `tap_dance_task`. -/
inductive Input where
  | modifier (index : Fin 8) (pressed : Bool)
  | oneShot (mod : BitVec 8) (tapCount : Nat) (pressed : Bool)
  | dance (index now : Nat) (pressed : Bool)
  | task (now : Nat)

section Keys

variable (reports : Reports Rest)

/-- `register_code` and `unregister_code` for a modifier. -/
def modifierAction (index : Fin 8) (pressed : Bool) (w : Mods Rest × Account) :
    Mods Rest × Account :=
  if pressed then
    ((w.1.addMods (modBit index)).sendKeyboardReport reports, w.2.hold (modBit index))
  else ((w.1.delMods (modBit index)).sendKeyboardReport reports, w.2.letGo (modBit index))

/-- `process_action` for `MODS_ONESHOT`. A tap makes the modifiers one-shot; any other
press holds them, and registers those that are one-shot already. -/
def oneShotAction (mods : BitVec 8) (tapCount : Nat) (pressed : Bool) (w : Mods Rest × Account) :
    Mods Rest × Account :=
  if pressed then
    if tapCount = 1 then (w.1.setOneshotMods (mods ||| w.1.oneshotMods), w.2)
    else
      (w.1.registerMods reports (mods ||| w.1.oneshotMods),
        (w.2.hold mods).lend w.1.oneshotMods)
  else if tapCount = 1 then w
  else ((w.1.setOneshotMods 0).unregisterMods reports mods, w.2.letGo mods)

variable (callbacks : Callbacks Rest) (terms : Terms)

/-- What the firmware does with an input, if it ever ends. A key's press goes to
`preprocess_tap_dance` before it acts. -/
def handle (s : State (Mods Rest × Account)) : Input → Option (State (Mods Rest × Account))
  | .modifier index pressed =>
    let before := preprocessTapDance (Mods.host reports callbacks) s (modifierKeycode index) pressed
    some { before with world := modifierAction reports index pressed before.world }
  | .oneShot mod tapCount pressed =>
    let before := preprocessTapDance (Mods.host reports callbacks) s (osm mod) pressed
    some { before with
      world := oneShotAction reports (oneShotMods mod) tapCount pressed before.world }
  | .dance index now pressed =>
    exec (Mods.host reports callbacks) terms s (.key now (td index) pressed)
  | .task now => exec (Mods.host reports callbacks) terms s (.task now)

end Keys

/-! ### The resets -/

/-- The reset has left exactly the modifiers that were held. -/
def Reset.Right (reset : Reset) : Prop := reset.left = reset.held

/-- The dance takes back no modifier that is held, and everything that is lent. -/
def Reset.Clear (reset : Reset) : Prop :=
  reset.removed &&& reset.held = 0 ∧ reset.lent &&& ~~~reset.removed = 0

instance (reset : Reset) : Decidable reset.Right := inferInstanceAs (Decidable (_ = _))

instance (reset : Reset) : Decidable reset.Clear := inferInstanceAs (Decidable (_ ∧ _))

/-- While the resets have been right the account is true, and they are the clear ones. -/
structure Honest (w : Mods Rest × Account) : Prop where
  right_iff : (∀ reset ∈ w.2.resets, reset.Right) ↔ ∀ reset ∈ w.2.resets, reset.Clear
  covers : (∀ reset ∈ w.2.resets, reset.Right) → Loans.Covers w.1.realMods w.2.held w.2.lent

variable {reports : Reports Rest} {callbacks : Callbacks Rest} {w : Mods Rest × Account}

@[simp] theorem sendKeyboardReport_realMods (reports : Reports Rest) (w : Mods Rest) :
    (w.sendKeyboardReport reports).realMods = w.realMods := rfl

theorem Honest.of_same {after : Mods Rest × Account} (honest : Honest w)
    (mods : after.1.realMods = w.1.realMods) (account : after.2 = w.2) : Honest after where
  right_iff := by
    rw [account]
    exact honest.right_iff
  covers := by
    rw [mods, account]
    exact honest.covers

/-- What changes the modifiers and the account alike keeps the account true. -/
theorem Honest.of_covers {after : Mods Rest × Account} (honest : Honest w)
    (resets : after.2.resets = w.2.resets)
    (covers : Loans.Covers w.1.realMods w.2.held w.2.lent →
      Loans.Covers after.1.realMods after.2.held after.2.lent) :
    Honest after where
  right_iff := by
    rw [resets]
    exact honest.right_iff
  covers := by
    rw [resets]
    exact fun right => covers (honest.covers right)

theorem Honest.takeBack (honest : Honest w) (mods : BitVec 8) :
    Honest (w.1.delMods mods, w.2.takeBack mods (w.1.delMods mods).realMods) := by
  have split (Fine : Reset → Prop) :
      (∀ reset ∈ (w.2.takeBack mods (w.1.delMods mods).realMods).resets, Fine reset) ↔
        (∀ reset ∈ w.2.resets, Fine reset) ∧
          Fine ⟨w.2.held, w.2.lent, mods, (w.1.delMods mods).realMods⟩ := by
    simp [Account.takeBack, or_imp, forall_and]
  have last (right : ∀ reset ∈ w.2.resets, reset.Right) :
      Reset.Right ⟨w.2.held, w.2.lent, mods, (w.1.delMods mods).realMods⟩ ↔
        Reset.Clear ⟨w.2.held, w.2.lent, mods, (w.1.delMods mods).realMods⟩ :=
    (honest.covers right).takeBack_iff mods
  constructor
  · rw [split, split, ← honest.right_iff]
    exact and_congr_right last
  · rw [split]
    rintro ⟨right, here⟩
    exact (honest.covers right).takeBack mods ((last right).mp here).1

theorem host_keeps (reports : Reports Rest) (callbacks : Callbacks Rest) :
    (Mods.host reports callbacks).Keeps Honest where
  addMods _ mods honest := honest.of_covers rfl fun covers => covers.lend mods
  delMods _ mods honest := honest.takeBack mods
  addWeakMods _ _ honest := honest.of_same rfl rfl
  delWeakMods _ _ honest := honest.of_same rfl rfl
  clearWeakMods _ honest := honest.of_same rfl rfl
  sendKeyboardReport _ honest := honest.of_same rfl rfl
  onEachTap _ _ _ honest := honest.of_same (callbacks.onEachTap_mods _ _ _) rfl
  onDanceFinished _ _ _ honest := honest.of_same (callbacks.onDanceFinished_mods _ _ _) rfl
  onReset _ _ _ honest := honest.of_same (callbacks.onReset_mods _ _ _) rfl

/-- A reset is on the account with what it takes back and what it leaves. -/
theorem resetTapDance_resets {s : State (Mods Rest × Account)} {index : Nat}
    (own : ((s.dances index).keycode - qkTapDance).toNat = index)
    (up : (s.dances index).pressed = false) :
    (resetTapDance (Mods.host reports callbacks) s index).world.2.resets =
      s.world.2.resets ++ [⟨s.world.2.held, s.world.2.lent, (s.dances index).oneshotMods,
        (resetTapDance (Mods.host reports callbacks) s index).world.1.realMods⟩] := by
  unfold resetTapDance
  rw [if_neg (by simp [up]), own]
  rfl

/-! ### Runs -/

theorem registerMods_realMods (reports : Reports Rest) (w : Mods Rest) (mods : BitVec 8) :
    (w.registerMods reports mods).realMods = w.realMods ||| mods := by
  unfold Mods.registerMods
  split
  · rfl
  · next none => simp [not_not.mp none]

theorem unregisterMods_realMods (reports : Reports Rest) (w : Mods Rest) (mods : BitVec 8) :
    (w.unregisterMods reports mods).realMods = w.realMods &&& ~~~mods := by
  unfold Mods.unregisterMods
  split
  · rfl
  · next none =>
    rw [not_not.mp none]
    exact BitVec.and_allOnes.symm

theorem Honest.modifierAction (honest : Honest w) (reports : Reports Rest) (index : Fin 8)
    (pressed : Bool) : Honest (modifierAction reports index pressed w) := by
  cases pressed with
  | true => exact honest.of_covers rfl fun covers => covers.hold (modBit index)
  | false => exact honest.of_covers rfl fun covers => covers.letGo (modBit index)

theorem Honest.oneShotAction (honest : Honest w) (reports : Reports Rest) (mods : BitVec 8)
    (tapCount : Nat) (pressed : Bool) :
    Honest (oneShotAction reports mods tapCount pressed w) := by
  unfold TapDance.oneShotAction
  cases pressed with
  | true =>
    rw [if_pos rfl]
    split
    · exact honest.of_same rfl rfl
    · refine honest.of_covers rfl fun covers => ?_
      rw [registerMods_realMods, ← BitVec.or_assoc]
      exact (covers.hold mods).lend w.1.oneshotMods
  | false =>
    rw [if_neg Bool.false_ne_true]
    split
    · exact honest
    · refine honest.of_covers rfl fun covers => ?_
      rw [unregisterMods_realMods]
      exact covers.letGo mods

theorem Honest.handle {terms : Terms} {s after : State (Mods Rest × Account)}
    (honest : Honest s.world) {input : Input}
    (does : handle reports callbacks terms s input = some after) : Honest after.world := by
  have keeps := host_keeps reports callbacks
  cases input with
  | modifier index pressed =>
    obtain rfl := Option.some.inj does
    exact (keeps.preprocessTapDance honest _ pressed).modifierAction reports index pressed
  | oneShot mod tapCount pressed =>
    obtain rfl := Option.some.inj does
    exact (keeps.preprocessTapDance honest _ pressed).oneShotAction reports _ tapCount pressed
  | dance index now pressed =>
    obtain rfl := Option.some.inj does
    exact keeps.processTapDance (keeps.preprocessTapDance honest _ pressed) _ pressed _
  | task now => exact keeps.tapDanceTask honest does

theorem Honest.run {terms : Terms} {s after : State (Mods Rest × Account)} (honest : Honest s.world)
    {inputs : List Input}
    (reached : inputs.foldlM (TapDance.handle reports callbacks terms) s = some after) :
    Honest after.world := by
  induction inputs generalizing s with
  | nil =>
    obtain rfl := Option.some.inj reached
    exact honest
  | cons input rest ih =>
    rw [List.foldlM_cons] at reached
    obtain ⟨next, does, later⟩ := Option.bind_eq_some_iff.mp reached
    exact ih (honest.handle does) later

/-- Reports without keys. -/
def keyless : Reports Unit where
  macroMods _ := 0
  hasOneshotModsTimedOut _ := false
  hasAnykey _ := false
  hostKeyboardSend _ _ := ()

def noCallbacks : Callbacks Unit where
  onEachTap _ _ w := (w, false)
  onDanceFinished _ _ w := w
  onReset _ _ w := w
  onEachTap_mods _ _ _ := rfl
  onDanceFinished_mods _ _ _ := rfl
  onReset_mods _ _ _ := rfl

/-- A one-shot modifier, the left Shift key, and a tap of dance 0 up to the end of its
term. -/
def tapUnderShift (mod : BitVec 8) : List Input :=
  [.oneShot mod 1 true, .oneShot mod 1 false, .modifier 1 true, .dance 0 0 true, .dance 0 10 false,
    .task 300]

end QmkSonix.TapDance
