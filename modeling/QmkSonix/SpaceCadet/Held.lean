import QmkSonix.Lib.Run
import QmkSonix.SpaceCadet.Model

/-! Which runs of keys leave exactly the modifiers that are held. -/

namespace QmkSonix.SpaceCadet

open QmkSonix.Lib

section Bits

/-- A keycode is that of a modifier. -/
def isModifier (code : BitVec 8) (modifier : Fin 8) : Bool :=
  isMod code && modIndex code = modifier

/-- Modifiers include one. -/
def has (mods : BitVec 8) (modifier : Fin 8) : Bool := mods.getLsbD modifier

theorem getLsbD_bit {index : ℕ} (inside : index < 8) (other : ℕ) :
    (1#8 <<< index).getLsbD other = decide (index = other) := by
  rw [← BitVec.twoPow_eq, BitVec.getLsbD_twoPow, decide_eq_true inside, Bool.true_and]

theorem modIndex_lt (code : BitVec 8) : modIndex code < 8 := by
  revert code
  decide +kernel

theorem has_modBit (code : BitVec 8) (modifier : Fin 8) :
    has (modBit code) modifier = decide (modIndex code = modifier) :=
  getLsbD_bit (modIndex_lt code) modifier

variable (state : State) (mods code : BitVec 8) (modifier : Fin 8)

@[simp] theorem has_registerMods :
    has (registerMods state mods).realMods modifier =
      (has state.realMods modifier || has mods modifier) := BitVec.getLsbD_or

@[simp] theorem has_unregisterMods :
    has (unregisterMods state mods).realMods modifier =
      (has state.realMods modifier && !has mods modifier) := by
  rw [has, unregisterMods, BitVec.getLsbD_and, BitVec.getLsbD_not, decide_eq_true modifier.isLt,
    Bool.true_and]
  rfl

@[simp] theorem has_registerIfMod :
    has (registerIfMod state code).realMods modifier =
      (has state.realMods modifier || isModifier code modifier) := by
  rw [registerIfMod, isModifier]
  cases mod : isMod code with
  | true => rw [if_pos rfl, has_registerMods, has_modBit, Bool.true_and]
  | false => simp

@[simp] theorem has_unregisterIfMod :
    has (unregisterIfMod state code).realMods modifier =
      (has state.realMods modifier && !isModifier code modifier) := by
  rw [unregisterIfMod, isModifier]
  cases mod : isMod code with
  | true => rw [if_pos rfl, has_unregisterMods, has_modBit, Bool.true_and]
  | false => simp

variable (config : Config) (key : Key) (keys : Keys) (time : BitVec 16)

/-- A release lets go of the modifier that was held, and a tap of its own. -/
theorem has_releaseSpaceCadet :
    has (releaseSpaceCadet config state key keys time).1.realMods modifier =
      (has state.realMods modifier && !(isModifier keys.holdMod modifier ||
        isTap config state key keys time && isModifier keys.tapMod modifier)) := by
  rw [releaseSpaceCadet]
  cases tap : isTap config state key keys time with
  | true =>
    by_cases same : keys.holdMod = keys.tapMod
    · cases carried : config.modifierCarryover <;> simp [same]
    · cases carried : config.modifierCarryover <;> simp [same]
      · cases isModifier keys.tapMod modifier <;> simp
      · cases isModifier keys.tapMod modifier <;> simp
  | false => simp

end Bits

section Runs

/-- A key is pressed or released. -/
structure Event where
  key : Key
  pressed : Bool
  time : BitVec 16
  deriving DecidableEq, Repr

variable (config : Config)

/-- A key holds a modifier while it is down. -/
def holds (key : Key) (modifier : Fin 8) : Bool :=
  match key.keys config with
  | some keys => isModifier keys.holdMod modifier
  | none => key = .modifier modifier

/-- One of the keys holds a modifier. -/
def heldBy (keys : List Key) (modifier : Fin 8) : Bool := keys.any (holds config · modifier)

/-- The release of a key is a tap that uses a modifier. -/
def taps (state : State) (event : Event) (modifier : Fin 8) : Bool :=
  match event.key.keys config with
  | some keys =>
    isTap config state event.key keys event.time && isModifier keys.tapMod modifier
  | none => false

/-- The state, the keys that are down, and the modifiers of which a key or a tap has let go while
another key that is down holds them, and that have not been pressed since -/
structure Watched where
  state : State := {}
  held : List Key := []
  dropped : Fin 8 → Bool := fun _ => false

def watchStep (watched : Watched) (event : Event) : Watched :=
  let after := (processKey config watched.state event.key event.pressed event.time).1
  if event.pressed then
    { state := after
      held := event.key :: watched.held
      dropped := fun modifier => watched.dropped modifier && !holds config event.key modifier }
  else
    { state := after
      held := watched.held.erase event.key
      dropped := fun modifier => heldBy config (watched.held.erase event.key) modifier &&
        (watched.dropped modifier || holds config event.key modifier ||
          taps config watched.state event modifier) }

/-- The release of a space cadet key leaves, but for the modifier that the key held, exactly the
modifiers that other keys hold. -/
def Leaves (watched : Watched) (event : Event) : Prop :=
  ∀ keys, event.key.keys config = some keys → event.pressed = false →
    ∀ modifier, isModifier keys.holdMod modifier = false →
      (has (watchStep config watched event).state.realMods modifier = true ↔
        heldBy config (watchStep config watched event).held modifier = true)

/-- When a space cadet key is released no other key holds a modifier that has been let go of, or
that the tap uses, but for the one that the key itself held. -/
def Careful (watched : Watched) (event : Event) : Prop :=
  ∀ keys, event.key.keys config = some keys → event.pressed = false →
    ∀ modifier, isModifier keys.holdMod modifier = false →
      heldBy config (watched.held.erase event.key) modifier = true →
        watched.dropped modifier = false ∧ taps config watched.state event modifier = false

/-- The real modifiers are those that are held and have not been let go of. -/
def Sound (watched : Watched) : Prop :=
  ∀ modifier, has watched.state.realMods modifier =
    (heldBy config watched.held modifier && !watched.dropped modifier)

variable {config}

theorem sound_init : Sound config {} := by
  intro modifier
  exact BitVec.getLsbD_zero

theorem processKey_cadet {key : Key} {keys : Keys} (cadet : key.keys config = some keys)
    (state : State) (pressed : Bool) (time : BitVec 16) :
    processKey config state key pressed time =
      performSpaceCadet config state key keys pressed time := by
  cases key <;> simp_all [processKey, processSpaceCadet, Key.keys]

/-- What a key adds to the real modifiers, or takes from them -/
theorem has_processKey (state : State) (event : Event) (modifier : Fin 8) :
    has (processKey config state event.key event.pressed event.time).1.realMods modifier =
      if event.pressed then has state.realMods modifier || holds config event.key modifier
      else has state.realMods modifier &&
        !(holds config event.key modifier || taps config state event modifier) := by
  obtain ⟨key, pressed, time⟩ := event
  cases cadet : key.keys config with
  | some keys =>
    simp only [processKey_cadet cadet, holds, taps, cadet]
    cases pressed with
    | true => cases carried : config.modifierCarryover <;> simp [performSpaceCadet, carried]
    | false => exact has_releaseSpaceCadet state modifier config key keys time
  | none =>
    simp only [holds, taps, cadet, Bool.or_false]
    cases key with
    | modifier index =>
      have bit : has (1#8 <<< index.val) modifier = decide (index = modifier) := by
        rw [has, getLsbD_bit index.isLt]
        exact decide_eq_decide.mpr Fin.ext_iff.symm
      cases pressed <;> simp [processKey, processSpaceCadet, Key.keys, bit]
    | other keycode => cases pressed <;> simp [processKey, processSpaceCadet, Key.keys]
    | _ => cases cadet

theorem heldBy_cons (key : Key) (keys : List Key) (modifier : Fin 8) :
    heldBy config (key :: keys) modifier =
      (holds config key modifier || heldBy config keys modifier) := List.any_cons

/-- A key that does not hold a modifier goes up without it. -/
theorem heldBy_erase {key : Key} {modifier : Fin 8} (free : holds config key modifier = false)
    (keys : List Key) :
    heldBy config (keys.erase key) modifier = heldBy config keys modifier := by
  rw [Bool.eq_iff_iff]
  simp only [heldBy, List.any_eq_true]
  constructor
  · rintro ⟨other, member, held⟩
    exact ⟨other, List.mem_of_mem_erase member, held⟩
  · rintro ⟨other, member, held⟩
    refine ⟨other, (List.mem_erase_of_ne ?_).mpr member, held⟩
    rintro rfl
    exact absurd (held.symm.trans free) (by decide)

theorem sound_step {watched : Watched} (sound : Sound config watched) (event : Event) :
    Sound config (watchStep config watched event) := by
  intro modifier
  have before := sound modifier
  have after : has (processKey config watched.state _ _ _).1.realMods modifier = _ :=
    has_processKey watched.state event modifier
  cases press : event.pressed with
  | true =>
    rw [press, if_pos rfl, before] at after
    simp only [watchStep, press, if_true, heldBy_cons]
    rw [after]
    cases holds config event.key modifier <;> simp
  | false =>
    rw [press, if_neg Bool.false_ne_true, before] at after
    simp only [watchStep, press, Bool.false_eq_true, if_false]
    rw [after]
    cases free : holds config event.key modifier with
    | true => simp
    | false =>
      rw [heldBy_erase free]
      cases heldBy config watched.held modifier <;> simp

theorem holds_cadet {key : Key} {keys : Keys} (cadet : key.keys config = some keys)
    (modifier : Fin 8) : holds config key modifier = isModifier keys.holdMod modifier := by
  simp only [holds, cadet]

theorem leaves_iff {watched : Watched} (sound : Sound config watched) (event : Event) :
    Leaves config watched event ↔ Careful config watched event := by
  have after := sound_step sound event
  refine forall_congr' fun keys => forall_congr' fun cadet => forall_congr' fun release =>
    forall_congr' fun modifier => forall_congr' fun other => ?_
  rw [after modifier]
  simp only [watchStep, release, Bool.false_eq_true, if_false, holds_cadet cadet, other,
    Bool.or_false]
  cases heldBy config (watched.held.erase event.key) modifier <;> simp

/-- In every run the releases leave what is held exactly when they are careful. -/
theorem leaves_iff_careful (config : Config) (events : List Event) :
    Along (watchStep config) (Leaves config) {} events ↔
      Along (watchStep config) (Careful config) {} events :=
  along_congr (fun (watched : Watched) event (sound : Sound config watched) _ =>
    sound_step sound event) (fun watched event sound => leaves_iff sound event) sound_init events

theorem not_leaves_tap_under_shift (carryover : Bool) :
    ¬ Along (watchStep ⟨carryover, false, fun _ => 200⟩) (Leaves ⟨carryover, false, fun _ => 200⟩)
      {} [⟨.modifier 1, true, 0⟩, ⟨.lcpo, true, 100⟩, ⟨.lcpo, false, 150⟩] := by
  rintro ⟨-, -, leaves, -⟩
  have shift := leaves lcpoKeys rfl rfl 1 (by decide)
  revert shift
  cases carryover <;> decide

/-- The tap of `KC_LCPO` takes away the left shift that its own key still holds. -/
theorem held_shift_breaks :
    ¬ Along (watchStep ⟨false, false, fun _ => 200⟩) (Leaves ⟨false, false, fun _ => 200⟩)
        {} [⟨.modifier 1, true, 0⟩, ⟨.lcpo, true, 100⟩, ⟨.lcpo, false, 150⟩] ∧
      ¬ Along (watchStep ⟨true, false, fun _ => 200⟩) (Leaves ⟨true, false, fun _ => 200⟩)
        {} [⟨.modifier 1, true, 0⟩, ⟨.lcpo, true, 100⟩, ⟨.lcpo, false, 150⟩] :=
  ⟨not_leaves_tap_under_shift false, not_leaves_tap_under_shift true⟩

end Runs

end QmkSonix.SpaceCadet
