import QmkSonix.Lib.Run
import QmkSonix.Modifiers.Model
import QmkSonix.Oneshot.Bookkeeping

/-! No modifier gets stuck but those that a key latches on purpose, and those that a
held one-shot key takes over from the one-shot modifiers that are pending. -/

namespace QmkSonix.Modifiers

open Lib
open Keyboard (KeyRecord Tap)
open Layer (Byte Config)
open Oneshot (Build actLayerMods isOneshotLayerKey)
open Tapping (Action actLmods actRmods actLmodsTap actRmodsTap modsOneshot modsTapToggle isMod)

/-! ### Bits -/

/-- A modifier is among some modifiers. -/
def Among (i : Fin 8) (mods : Byte) : Prop := mods.getLsbD i = true

section Bits

variable {i : Fin 8} {first second : Byte}

@[simp] theorem among_or : Among i (first ||| second) ↔ Among i first ∨ Among i second := by
  simp [Among]

@[simp] theorem among_diff : Among i (first &&& ~~~second) ↔ Among i first ∧ ¬Among i second := by
  simp [Among]

@[simp] theorem not_among_zero : ¬Among i 0#8 := by simp [Among]

/-- The complement of no modifiers. -/
@[simp] theorem and_all (mods : Byte) : mods &&& 255#8 = mods := BitVec.and_allOnes

end Bits

/-! ### What a key holds -/

/-- What a key holds while it is down: real modifiers, weak modifiers and keys of the
report. -/
structure Share where
  real : Byte := 0#8
  weak : Byte := 0#8
  keys : Finset Byte := ∅

/-- What `register_code` takes for a code. -/
def codeShare (code : Byte) : Share where
  real := if isMod code then modBit code else 0#8
  keys := if isKey code then {code} else ∅

/-- What an `ACT_LMODS` or `ACT_RMODS` key holds. -/
def modsShare (code mods : Byte) : Share where
  real := (codeShare code).real ||| if isMod code ∨ code = 0 then mods else 0#8
  weak := if isMod code ∨ code = 0 then 0#8 else mods
  keys := (codeShare code).keys

/-- The modifiers and keys that are down. -/
structure Hands where
  real : Byte
  weak : Byte
  keys : Finset Byte

def State.hands (s : State) : Hands := ⟨s.realMods, s.weakMods, s.keys⟩

def Hands.take (hands : Hands) (share : Share) : Hands :=
  ⟨hands.real ||| share.real, hands.weak ||| share.weak, hands.keys ∪ share.keys⟩

def Hands.give (hands : Hands) (share : Share) : Hands :=
  ⟨hands.real &&& ~~~share.real, hands.weak &&& ~~~share.weak, hands.keys \ share.keys⟩

section Functions

variable (s : State) (code mods : Byte)

@[simp] theorem hands_clearOneshotMods : (clearOneshotMods s).hands = s.hands := by
  unfold clearOneshotMods
  split_ifs <;> rfl

@[simp] theorem hands_sendKeyboardReport : (sendKeyboardReport s).hands = s.hands := by
  unfold sendKeyboardReport clearOneshotMods
  dsimp only
  split_ifs <;> rfl

@[simp] theorem hands_addMods : (addMods mods s).hands = s.hands.take { real := mods } := by
  simp [addMods, State.hands, Hands.take]

@[simp] theorem hands_delMods : (delMods mods s).hands = s.hands.give { real := mods } := by
  simp [delMods, State.hands, Hands.give]

@[simp] theorem hands_addWeakMods : (addWeakMods mods s).hands = s.hands.take { weak := mods } := by
  simp [addWeakMods, State.hands, Hands.take]

@[simp] theorem hands_delWeakMods : (delWeakMods mods s).hands = s.hands.give { weak := mods } := by
  simp [delWeakMods, State.hands, Hands.give]

@[simp] theorem hands_addKey : (addKey code s).hands = s.hands.take { keys := {code} } := by
  simp only [addKey, State.hands, Hands.take, BitVec.or_zero]
  rw [Finset.union_comm, ← Finset.insert_eq]

@[simp] theorem hands_delKey : (delKey code s).hands = s.hands.give { keys := {code} } := by
  simp [delKey, State.hands, Hands.give, Finset.sdiff_singleton_eq_erase]

@[simp] theorem take_nothing (hands : Hands) : hands.take ⟨0#8, 0#8, ∅⟩ = hands := by
  simp [Hands.take]

@[simp] theorem give_nothing (hands : Hands) : hands.give ⟨0#8, 0#8, ∅⟩ = hands := by
  simp [Hands.give]

@[simp] theorem hands_registerMods :
    (registerMods mods s).hands = s.hands.take { real := mods } := by
  unfold registerMods
  split
  · simp
  · next none =>
    obtain rfl := not_ne_iff.mp none
    simp

@[simp] theorem hands_unregisterMods :
    (unregisterMods mods s).hands = s.hands.give { real := mods } := by
  unfold unregisterMods
  split
  · simp
  · next none =>
    obtain rfl := not_ne_iff.mp none
    simp

theorem isMod_zero : isMod 0#8 = false := by decide

theorem isKey_zero : isKey 0#8 = false := by decide

theorem isMod_of_isKey : ∀ code, isKey code = true → isMod code = false := by decide +kernel

/-- A key that is down already is reported anew and stays down. -/
@[simp] theorem hands_registerCode :
    (registerCode code s).hands = s.hands.take (codeShare code) := by
  unfold registerCode
  split
  · next none =>
    subst none
    simp [codeShare, isMod_zero, isKey_zero]
  split
  · next key =>
    have share : codeShare code = { keys := {code} } := by
      simp [codeShare, key, isMod_of_isKey code key]
    rw [share]
    dsimp only
    split
    · next down =>
      simp [Hands.take, Hands.give]
    · simp
  split
  · next notKey mod => simp [codeShare, mod, notKey]
  · next notKey notMod => simp [codeShare, notMod, notKey]

@[simp] theorem hands_unregisterCode :
    (unregisterCode code s).hands = s.hands.give (codeShare code) := by
  unfold unregisterCode
  split
  · next none =>
    subst none
    simp [codeShare, isMod_zero, isKey_zero]
  split
  · next key => simp [codeShare, key, isMod_of_isKey code key]
  split
  · next notKey mod => simp [codeShare, mod, notKey]
  · next notKey notMod => simp [codeShare, notMod, notKey]

theorem hands_modsKey_press :
    (modsKey true code mods s).hands = s.hands.take (modsShare code mods) := by
  unfold modsKey
  simp only [if_true, hands_registerCode]
  by_cases none : mods = 0#8
  · subst none
    simp [modsShare, codeShare, Hands.take]
  · by_cases strong : isMod code = true ∨ code = 0#8
    · simp [none, strong, modsShare, codeShare, Hands.take]
      ac_rfl
    · simp [none, strong, modsShare, codeShare, Hands.take]

theorem hands_modsKey_release :
    (modsKey false code mods s).hands = s.hands.give (modsShare code mods) := by
  unfold modsKey
  by_cases none : mods = 0#8
  · subst none
    simp [modsShare, codeShare, Hands.give]
  · by_cases strong : isMod code = true ∨ code = 0#8
    · simp [none, strong, modsShare, codeShare, Hands.give, BitVec.not_or]
      ac_rfl
    · simp [none, strong, modsShare, codeShare, Hands.give]

/-- What only one-shot keys change. -/
def State.settings (s : State) : Byte × Bool := (s.oneshotLockedMods, s.oneshotDisable)

@[simp] theorem settings_clearOneshotMods : (clearOneshotMods s).settings = s.settings := by
  unfold clearOneshotMods
  split_ifs <;> rfl

@[simp] theorem settings_sendKeyboardReport : (sendKeyboardReport s).settings = s.settings := by
  unfold sendKeyboardReport clearOneshotMods
  dsimp only
  split_ifs <;> rfl

@[simp] theorem settings_addMods : (addMods mods s).settings = s.settings := rfl
@[simp] theorem settings_delMods : (delMods mods s).settings = s.settings := rfl
@[simp] theorem settings_addWeakMods : (addWeakMods mods s).settings = s.settings := rfl
@[simp] theorem settings_delWeakMods : (delWeakMods mods s).settings = s.settings := rfl
@[simp] theorem settings_addKey : (addKey code s).settings = s.settings := rfl
@[simp] theorem settings_delKey : (delKey code s).settings = s.settings := rfl

@[simp] theorem settings_registerMods : (registerMods mods s).settings = s.settings := by
  unfold registerMods
  split <;> simp

@[simp] theorem settings_unregisterMods : (unregisterMods mods s).settings = s.settings := by
  unfold unregisterMods
  split <;> simp

@[simp] theorem settings_registerCode : (registerCode code s).settings = s.settings := by
  unfold registerCode
  dsimp only
  split_ifs <;> simp

@[simp] theorem settings_unregisterCode : (unregisterCode code s).settings = s.settings := by
  unfold unregisterCode
  split_ifs <;> simp

@[simp] theorem settings_modsKey (pressed : Bool) :
    (modsKey pressed code mods s).settings = s.settings := by
  unfold modsKey
  dsimp only
  split_ifs <;> simp

end Functions

/-! ### What a key takes and gives back -/

section Keys

variable {cfg : Config} (build : Build cfg)

/-- A release with a tap. -/
def releaseOf (tap : Tap) : KeyRecord := { Tapping.noRecord with tap := tap }

/-- So many taps of a one-shot key lock its modifiers. -/
def locks (tap : Tap) : Bool := tap.count ≠ 0 ∧ build.oneshotTapToggle = some tap.count

/-- What a key holds between a press that left a tap and the release. -/
def keyShare (oneshotDisable : Bool) (tap : Tap) (action : Action) : Share :=
  if action.kindId = actLmods ∨ action.kindId = actRmods then modsShare action.code (modsOf action)
  else if action.kindId = actLmodsTap ∨ action.kindId = actRmodsTap then
    if action.code = modsOneshot then
      if oneshotDisable then modsShare modsOneshot (modsOf action)
      else if tap.count = 1 ∨ locks build tap then {}
      else { real := modsOf action }
    else if action.code = modsTapToggle then
      if tap.count < build.tappingToggle then { real := modsOf action } else {}
    else if 0 < tap.count then codeShare action.code
    else { real := modsOf action }
  else if action.kindId = actLayerMods then { real := action.code }
  else if isOneshotLayerKey action then {}
  else if build.codeCalls (releaseOf tap) action = [] then {}
  else codeShare action.code

/-- The modifiers that a press leaves down on purpose, or that a held one-shot key takes
over from the pending one-shot modifiers. -/
def stray (record : KeyRecord) (action : Action) (s : State) : Byte :=
  if (action.kindId = actLmodsTap ∨ action.kindId = actRmodsTap) ∧ record.pressed then
    if action.code = modsOneshot then
      if s.oneshotDisable ∨ record.tap.count = 1 then 0#8
      else if locks build record.tap then modsOf action
      else s.oneshotMods
    else if action.code = modsTapToggle ∧ record.tap.count = build.tappingToggle then modsOf action
    else 0#8
  else 0#8

/-- A press takes its share, and leaves its strays down. -/
structure Takes (s t : State) (share : Share) (stray : Byte) : Prop where
  real : ∀ i, Among i t.realMods →
    Among i s.realMods ∨ Among i share.real ∨ Among i stray
  weak : ∀ i, Among i t.weakMods → Among i s.weakMods ∨ Among i share.weak
  keys : t.keys ⊆ s.keys ∪ share.keys
  locked : ∀ i, Among i t.oneshotLockedMods → Among i s.oneshotLockedMods ∨ Among i stray
  disable : t.oneshotDisable = s.oneshotDisable

/-- A release gives its share back. -/
structure Gives (s t : State) (share : Share) : Prop where
  real : ∀ i, Among i t.realMods →
    (Among i s.realMods ∧ ¬Among i share.real) ∨ Among i s.oneshotLockedMods
  weak : ∀ i, Among i t.weakMods → Among i s.weakMods ∧ ¬Among i share.weak
  keys : t.keys ⊆ s.keys \ share.keys
  locked : ∀ i, Among i t.oneshotLockedMods → Among i s.oneshotLockedMods
  disable : t.oneshotDisable = s.oneshotDisable

variable {build} {s t : State} {share : Share} {record : KeyRecord} {action : Action}

theorem takes_of_hands (stray : Byte) (hands : t.hands = s.hands.take share)
    (settings : t.settings = s.settings) : Takes s t share stray := by
  have real : t.realMods = s.realMods ||| share.real := congrArg Hands.real hands
  have weak : t.weakMods = s.weakMods ||| share.weak := congrArg Hands.weak hands
  have keys : t.keys = s.keys ∪ share.keys := congrArg Hands.keys hands
  have locked : t.oneshotLockedMods = s.oneshotLockedMods := congrArg Prod.fst settings
  refine ⟨fun i among => ?_, fun i among => ?_, keys.subset, fun i among => ?_,
    congrArg Prod.snd settings⟩
  · rw [real, among_or] at among
    tauto
  · rwa [weak, among_or] at among
  · rw [locked] at among
    exact .inl among

theorem gives_of_hands (hands : t.hands = s.hands.give share) (settings : t.settings = s.settings) :
    Gives s t share := by
  have real : t.realMods = s.realMods &&& ~~~share.real := congrArg Hands.real hands
  have weak : t.weakMods = s.weakMods &&& ~~~share.weak := congrArg Hands.weak hands
  have keys : t.keys = s.keys \ share.keys := congrArg Hands.keys hands
  have locked : t.oneshotLockedMods = s.oneshotLockedMods := congrArg Prod.fst settings
  refine ⟨fun i among => ?_, fun i among => ?_, keys.subset, fun i among => ?_,
    congrArg Prod.snd settings⟩
  · rw [real, among_diff] at among
    exact .inl among
  · rwa [weak, among_diff] at among
  · rwa [locked] at among

/-- The codes that the other keys send depend on the tap only. -/
theorem codeCalls_tap (kind : action.kindId ≠ actLmodsTap ∧ action.kindId ≠ actRmodsTap) :
    build.codeCalls record action =
      (build.codeCalls (releaseOf record.tap) action).map fun call => (call.1, record.pressed) := by
  have sends : build.sendsCode record action = build.sendsCode (releaseOf record.tap) action := by
    have tap : (releaseOf record.tap).tap = record.tap := rfl
    simp only [Build.sendsCode, kind.1, kind.2, or_self, if_false, tap]
  rw [Build.codeCalls, Build.codeCalls, sends]
  split <;> rfl

theorem codeCalls_cases (build : Build cfg) (record : KeyRecord) (action : Action) :
    build.codeCalls record action = [] ∨
      build.codeCalls record action = [(action.code, record.pressed)] := by
  rw [Build.codeCalls]
  split
  · exact .inr rfl
  · exact .inl rfl

@[simp] theorem hands_setOneshotMods (mods : Byte) (s : State) :
    (setOneshotMods mods s).hands = s.hands := by
  unfold setOneshotMods
  split <;> rfl

@[simp] theorem settings_setOneshotMods (mods : Byte) (s : State) :
    (setOneshotMods mods s).settings = s.settings := by
  unfold setOneshotMods
  split <;> rfl

@[simp] theorem hands_setOneshotLockedMods (mods : Byte) (s : State) :
    (setOneshotLockedMods mods s).hands = s.hands := by
  unfold setOneshotLockedMods
  split <;> rfl

@[simp] theorem settings_setOneshotLockedMods (mods : Byte) (s : State) :
    (setOneshotLockedMods mods s).settings = (mods, s.oneshotDisable) := by
  unfold setOneshotLockedMods
  split
  · rfl
  · next same => rw [not_ne_iff.mp same, State.settings]

@[simp] theorem hands_clearOneshotLockedMods (s : State) :
    (clearOneshotLockedMods s).hands = s.hands := by
  unfold clearOneshotLockedMods
  split <;> rfl

@[simp] theorem settings_clearOneshotLockedMods (s : State) :
    (clearOneshotLockedMods s).settings = (0#8, s.oneshotDisable) := by
  unfold clearOneshotLockedMods
  split
  · rfl
  · next none =>
    rw [State.settings, not_ne_iff.mp none]
    rfl

/-- Nothing but one-shot modifiers change. -/
theorem takes_nothing (share : Share) (stray : Byte) (hands : t.hands = s.hands)
    (settings : t.settings = s.settings) : Takes s t share stray := by
  have takes := @takes_of_hands s t ⟨0#8, 0#8, ∅⟩ stray (by rw [hands, take_nothing]) settings
  refine ⟨fun i among => ?_, fun i among => ?_, ?_, takes.locked, takes.disable⟩
  · have real := takes.real i among
    simp only [not_among_zero, false_or] at real
    exact real.imp_right .inr
  · have weak := takes.weak i among
    simp only [not_among_zero, or_false] at weak
    exact .inl weak
  · exact (by simpa using takes.keys : t.keys ⊆ s.keys).trans Finset.subset_union_left

/-- A press that also takes what it will not give back. -/
theorem takes_more {share : Share} (more : Byte)
    (hands : t.hands = s.hands.take { share with real := share.real ||| more })
    (settings : t.settings = s.settings) : Takes s t share more := by
  have takes := takes_of_hands more hands settings
  refine ⟨fun i among => ?_, takes.weak, takes.keys, takes.locked, takes.disable⟩
  have real := takes.real i among
  simp only [among_or] at real
  tauto

/-- A press that locks what it takes. -/
theorem takes_locked {mods : Byte} (hands : t.hands = s.hands.take { real := mods })
    (settings : t.settings = (mods, s.oneshotDisable)) : Takes s t {} mods := by
  have disable : t.oneshotDisable = s.oneshotDisable := congrArg Prod.snd settings
  have takes := @takes_of_hands s { t with oneshotLockedMods := s.oneshotLockedMods }
    { real := mods } 0#8 hands (Prod.ext rfl disable)
  have locked : t.oneshotLockedMods = mods := congrArg Prod.fst settings
  refine ⟨fun i among => ?_, takes.weak, takes.keys, fun i among => ?_, takes.disable⟩
  · have real := takes.real i among
    simp only [not_among_zero, or_false] at real
    exact real.imp_right .inr
  · rw [locked] at among
    exact .inr among

/-- A release may give back more than its share. -/
theorem gives_more {more : Share} (hands : t.hands = s.hands.give more)
    (settings : t.settings = s.settings) : Gives s t {} := by
  have gives := gives_of_hands hands settings
  refine ⟨fun i among => ?_, fun i among => ?_, ?_, gives.locked, gives.disable⟩
  · exact (gives.real i among).imp_left fun here => ⟨here.1, not_among_zero⟩
  · exact ⟨(gives.weak i among).1, not_among_zero⟩
  · simpa using gives.keys.trans Finset.sdiff_subset

theorem Gives.unlock (gives : Gives s t share) : Gives s (clearOneshotLockedMods t) share := by
  have hands := hands_clearOneshotLockedMods t
  have settings := settings_clearOneshotLockedMods t
  have real : (clearOneshotLockedMods t).realMods = t.realMods := congrArg Hands.real hands
  have weak : (clearOneshotLockedMods t).weakMods = t.weakMods := congrArg Hands.weak hands
  have keys : (clearOneshotLockedMods t).keys = t.keys := congrArg Hands.keys hands
  have locked : (clearOneshotLockedMods t).oneshotLockedMods = 0#8 := congrArg Prod.fst settings
  have disable : (clearOneshotLockedMods t).oneshotDisable = t.oneshotDisable :=
    congrArg Prod.snd settings
  refine ⟨?_, ?_, ?_, fun i among => ?_, disable.trans gives.disable⟩
  · rw [real]
    exact gives.real
  · rw [weak]
    exact gives.weak
  · rw [keys]
    exact gives.keys
  · rw [locked] at among
    exact absurd among not_among_zero

theorem Gives.trans {middle : State} (first : Gives s middle {}) (second : Gives middle t share) :
    Gives s t share := by
  refine ⟨fun i among => ?_, fun i among => ?_, ?_,
    fun i among => first.locked i (second.locked i among), second.disable.trans first.disable⟩
  · rcases second.real i among with ⟨here, apart⟩ | locked
    · rcases first.real i here with ⟨real, -⟩ | locked
      · exact .inl ⟨real, apart⟩
      · exact .inr locked
    · exact .inr (first.locked i locked)
  · have weak := second.weak i among
    exact ⟨(first.weak i weak.1).1, weak.2⟩
  · have keys : middle.keys ⊆ s.keys := by simpa using first.keys
    exact second.keys.trans (Finset.sdiff_subset_sdiff keys subset_rfl)

theorem oneshotModsKey_press (press : record.pressed = true) (mods : Byte) :
    Takes s (oneshotModsKey build record mods s)
      (if s.oneshotDisable then modsShare modsOneshot mods
       else if record.tap.count = 1 ∨ locks build record.tap then {}
       else { real := mods })
      (if s.oneshotDisable ∨ record.tap.count = 1 then 0#8
       else if locks build record.tap then mods
       else s.oneshotMods) := by
  rw [oneshotModsKey, press]
  by_cases disable : s.oneshotDisable = true
  · simp only [disable, if_true, true_or]
    exact takes_of_hands _ (hands_modsKey_press s modsOneshot mods) (settings_modsKey ..)
  simp only [disable, Bool.false_eq_true, if_false, if_true, false_or]
  have held : Takes s (registerMods (mods ||| s.oneshotMods) s) { real := mods } s.oneshotMods :=
    takes_more _ (by simp) (by simp)
  by_cases none : record.tap.count = 0
  · have unlocked : locks build record.tap = false := by simp [locks, none]
    simp only [none, Nat.zero_ne_one, unlocked, Bool.false_eq_true, or_self, if_true, if_false]
    exact held
  by_cases tapped : record.tap.count = 1
  · simp only [tapped, if_true, true_or, Nat.one_ne_zero, if_false]
    exact takes_nothing _ _ (by simp) (by simp)
  simp only [none, tapped, if_false, false_or]
  by_cases toggle : build.oneshotTapToggle = some record.tap.count
  · have locked : locks build record.tap = true := by simp [locks, none, toggle]
    rw [if_pos toggle, if_pos locked, if_pos locked]
    have disable : (clearOneshotMods s).oneshotDisable = s.oneshotDisable :=
      congrArg Prod.snd (settings_clearOneshotMods s)
    exact takes_locked (by simp) (by simp [disable])
  · have unlocked : locks build record.tap = false := by simp [locks, toggle]
    rw [if_neg toggle, if_neg (by simp [unlocked]), if_neg (by simp [unlocked])]
    exact held

theorem oneshotModsKey_release (release : record.pressed = false) (mods : Byte) :
    Gives s (oneshotModsKey build record mods s)
      (if s.oneshotDisable then modsShare modsOneshot mods
       else if record.tap.count = 1 ∨ locks build record.tap then {}
       else { real := mods }) := by
  rw [oneshotModsKey, release]
  by_cases disable : s.oneshotDisable = true
  · simp only [disable, if_true]
    exact gives_of_hands (hands_modsKey_release s modsOneshot mods) (settings_modsKey ..)
  simp only [disable, Bool.false_eq_true, if_false]
  have given : Gives s (unregisterMods mods (clearOneshotMods s)) { real := mods } :=
    gives_of_hands (by simp) (by simp)
  have kept : Gives s s {} := gives_of_hands (by simp) rfl
  by_cases none : record.tap.count = 0
  · have unlocked : locks build record.tap = false := by simp [locks, none]
    simp only [none, Nat.zero_ne_one, unlocked, Bool.false_eq_true, or_self, if_true, if_false]
    exact given
  by_cases tapped : record.tap.count = 1
  · simp only [tapped, if_true, true_or, Nat.one_ne_zero, if_false]
    split
    · exact kept.unlock.trans (@gives_more _ _ { real := mods } (by simp) (by simp))
    · exact kept
  simp only [none, tapped, if_false, false_or]
  by_cases toggle : build.oneshotTapToggle = some record.tap.count
  · have locked : locks build record.tap = true := by simp [locks, none, toggle]
    rw [if_pos toggle, if_pos locked]
    exact kept
  · have unlocked : locks build record.tap = false := by simp [locks, toggle]
    rw [if_neg toggle, if_neg (by simp [unlocked])]
    exact given

theorem tapToggleKey_press (press : record.pressed = true) (mods : Byte) :
    Takes s (tapToggleKey build record mods s)
      (if record.tap.count < build.tappingToggle then { real := mods } else {})
      (if record.tap.count = build.tappingToggle then mods else 0#8) := by
  rw [tapToggleKey, if_pos press]
  by_cases below : record.tap.count < build.tappingToggle
  · rw [if_pos below.le, if_pos below]
    exact takes_of_hands _ (by simp) (by simp)
  · rw [if_neg below]
    by_cases last : record.tap.count = build.tappingToggle
    · rw [if_pos last.le, if_pos last]
      exact takes_more _ (by simp) (by simp)
    · rw [if_neg (by omega)]
      exact takes_nothing _ _ rfl rfl

theorem tapToggleKey_release (release : record.pressed = false) (mods : Byte) :
    Gives s (tapToggleKey build record mods s)
      (if record.tap.count < build.tappingToggle then { real := mods } else {}) := by
  rw [tapToggleKey, if_neg (by simp [release])]
  split
  · exact gives_of_hands (by simp) (by simp)
  · exact gives_of_hands (by simp) rfl

theorem codeKey_press (press : record.pressed = true)
    (kind : action.kindId ≠ actLmodsTap ∧ action.kindId ≠ actRmodsTap) (stray : Byte) :
    Takes s (codeKey build record action s)
      (if build.codeCalls (releaseOf record.tap) action = [] then {} else codeShare action.code)
      stray := by
  rw [codeKey, codeCalls_tap kind, press]
  rcases codeCalls_cases build (releaseOf record.tap) action with none | one
  · rw [none, if_pos rfl]
    exact takes_nothing _ _ rfl rfl
  · rw [one, if_neg (by simp)]
    exact takes_of_hands _ (hands_registerCode ..) (settings_registerCode ..)

theorem codeKey_release (release : record.pressed = false)
    (kind : action.kindId ≠ actLmodsTap ∧ action.kindId ≠ actRmodsTap) :
    Gives s (codeKey build record action s)
      (if build.codeCalls (releaseOf record.tap) action = [] then {} else codeShare action.code) := by
  rw [codeKey, codeCalls_tap kind, release]
  rcases codeCalls_cases build (releaseOf record.tap) action with none | one
  · rw [none, if_pos rfl]
    exact gives_of_hands (by simp) rfl
  · rw [one, if_neg (by simp)]
    exact gives_of_hands (hands_unregisterCode ..) (settings_unregisterCode ..)

theorem oneshotLayerMods_press (press : record.pressed = true) (toggle : ℕ) :
    Takes s (oneshotLayerMods toggle record s) {} 0#8 := by
  rw [oneshotLayerMods, if_pos press]
  refine ⟨fun i among => ?_, fun i among => .inl among, by simp [delMods],
    fun i among => .inl among, rfl⟩
  simp only [delMods, among_diff] at among
  exact .inl among.1

theorem oneshotLayerMods_release (release : record.pressed = false) (toggle : ℕ) :
    Gives s (oneshotLayerMods toggle record s) {} := by
  rw [oneshotLayerMods, if_neg (by simp [release])]
  have kept : Gives s (addMods s.oneshotLockedMods s) {} := by
    refine ⟨fun i among => ?_, fun i among => ⟨among, not_among_zero⟩, by simp [addMods],
      fun i among => among, rfl⟩
    simp only [addMods, among_or] at among
    exact among.imp_left fun here => ⟨here, not_among_zero⟩
  dsimp only
  split
  · exact kept.unlock
  · exact kept

theorem modTapKey_press (press : record.pressed = true) (code mods stray : Byte) :
    Takes s (modTapKey build record code mods s)
      (if 0 < record.tap.count ∧
          ¬(!build.getIgnoreModTapInterrupt record ∧ record.tap.interrupted) then codeShare code
       else { real := mods }) stray := by
  rw [modTapKey, if_pos press]
  by_cases tapped : 0 < record.tap.count
  · by_cases interrupted : !build.getIgnoreModTapInterrupt record ∧ record.tap.interrupted
    · rw [if_pos tapped, if_pos interrupted, if_neg (by tauto)]
      exact takes_of_hands _ (by simp) (by simp)
    · rw [if_pos tapped, if_neg interrupted, if_pos ⟨tapped, interrupted⟩]
      exact takes_of_hands _ (by simp) (by simp)
  · rw [if_neg tapped, if_neg (by tauto)]
    exact takes_of_hands _ (by simp) (by simp)

theorem modTapKey_release (release : record.pressed = false) (code mods : Byte) :
    Gives s (modTapKey build record code mods s)
      (if 0 < record.tap.count then codeShare code else { real := mods }) := by
  rw [modTapKey, if_neg (by simp [release])]
  split
  · exact gives_of_hands (by simp) (by simp)
  · exact gives_of_hands (by simp) (by simp)

/-- A press takes what the key holds from then on, and its strays. -/
theorem perform_press (press : record.pressed = true) :
    Takes s (perform build record action s)
      (keyShare build s.oneshotDisable (leftTap build record action) action)
      (stray build record action s) := by
  rw [perform, keyShare]
  by_cases plain : action.kindId = actLmods ∨ action.kindId = actRmods
  · rw [if_pos plain, if_pos plain, press]
    exact takes_of_hands _ (hands_modsKey_press ..) (settings_modsKey ..)
  rw [if_neg plain, if_neg plain]
  by_cases tap : action.kindId = actLmodsTap ∨ action.kindId = actRmodsTap
  · have down : (action.kindId = actLmodsTap ∨ action.kindId = actRmodsTap) ∧
        record.pressed = true := ⟨tap, press⟩
    rw [if_pos tap, if_pos tap, stray, if_pos down]
    by_cases oneshot : action.code = modsOneshot
    · have left : leftTap build record action = record.tap := by simp [leftTap, oneshot]
      rw [if_pos oneshot, if_pos oneshot, if_pos oneshot, left]
      exact oneshotModsKey_press press _
    rw [if_neg oneshot, if_neg oneshot, if_neg oneshot]
    by_cases toggle : action.code = modsTapToggle
    · have left : leftTap build record action = record.tap := by simp [leftTap, toggle]
      rw [if_pos toggle, if_pos toggle, left]
      simpa [toggle] using tapToggleKey_press press (modsOf action)
    · rw [if_neg toggle, if_neg toggle]
      have typed := @modTapKey_press _ build s record press action.code (modsOf action)
        (if action.code = modsTapToggle ∧ record.tap.count = build.tappingToggle then modsOf action
         else 0#8)
      have left : 0 < (leftTap build record action).count ↔ 0 < record.tap.count ∧
          ¬(!build.getIgnoreModTapInterrupt record ∧ record.tap.interrupted) := by
        rw [leftTap]
        split
        · next back => simp [back.2.2.2.2.2]
        · next kept =>
          constructor
          · intro some
            exact ⟨some, fun interrupted => kept ⟨tap, oneshot, toggle, press, some, interrupted⟩⟩
          · exact And.left
      simpa only [left] using typed
  have kinds : action.kindId ≠ actLmodsTap ∧ action.kindId ≠ actRmodsTap := not_or.mp tap
  have left : leftTap build record action = record.tap := by
    rw [leftTap, if_neg]
    exact fun back => tap back.1
  rw [if_neg tap, if_neg tap, left]
  by_cases layerMods : action.kindId = actLayerMods
  · rw [if_pos layerMods, if_pos layerMods, if_pos press]
    exact takes_of_hands _ (by simp) (by simp)
  rw [if_neg layerMods, if_neg layerMods]
  by_cases oneshot : isOneshotLayerKey action = true
  · rw [if_pos oneshot, if_pos oneshot]
    have none : stray build record action s = 0#8 := by rw [stray, if_neg fun both => tap both.1]
    rw [none]
    split
    · split
      · exact takes_nothing _ _ rfl rfl
      · exact oneshotLayerMods_press press _
    · exact takes_nothing _ _ rfl rfl
  · rw [if_neg oneshot, if_neg oneshot]
    exact codeKey_press press kinds _

/-- A release gives back what the key holds. -/
theorem perform_release (release : record.pressed = false) :
    Gives s (perform build record action s)
      (keyShare build s.oneshotDisable record.tap action) := by
  rw [perform, keyShare]
  by_cases plain : action.kindId = actLmods ∨ action.kindId = actRmods
  · rw [if_pos plain, if_pos plain, release]
    exact gives_of_hands (hands_modsKey_release ..) (settings_modsKey ..)
  rw [if_neg plain, if_neg plain]
  by_cases tap : action.kindId = actLmodsTap ∨ action.kindId = actRmodsTap
  · rw [if_pos tap, if_pos tap]
    split
    · exact oneshotModsKey_release release _
    split
    · exact tapToggleKey_release release _
    · exact modTapKey_release release _ _
  have kinds : action.kindId ≠ actLmodsTap ∧ action.kindId ≠ actRmodsTap := not_or.mp tap
  rw [if_neg tap, if_neg tap]
  split
  · rw [if_neg (by simp [release])]
    exact gives_of_hands (by simp) (by simp)
  split
  · split
    · split
      · exact gives_of_hands (by simp) rfl
      · exact oneshotLayerMods_release release _
    · exact gives_of_hands (by simp) rfl
  · exact codeKey_release release kinds

end Keys

/-! ### Runs -/

/-- A call of `process_action`, by the key that it is for. -/
structure Event (Key : Type*) where
  key : Key
  record : KeyRecord
  action : Action

/-- The state, what was pressed on the keys that are down, each with the tap that its
press left, and the strays of all presses so far. -/
structure Desk (Key : Type*) where
  state : State
  held : Key → Option (Action × Tap) := fun _ => none
  strays : Byte := 0#8

section Runs

variable {cfg : Config} {Key : Type*} [DecidableEq Key]

def Desk.feed (build : Build cfg) (desk : Desk Key) (event : Event Key) : Desk Key where
  state := perform build event.record event.action desk.state
  held := Function.update desk.held event.key
    (if event.record.pressed then some (event.action, leftTap build event.record event.action)
     else none)
  strays := desk.strays ||| stray build event.record event.action desk.state

/-- A press of a key that is up, or a release, which has the action and the tap of its
press if the key is down. -/
def Turn (desk : Desk Key) (event : Event Key) : Prop :=
  if event.record.pressed then desk.held event.key = none
  else ∀ down ∈ desk.held event.key, down = (event.action, event.record.tap)

/-- Some key is down whose share has a property. -/
def Desk.Holds (build : Build cfg) (desk : Desk Key) (property : Share → Prop) : Prop :=
  ∃ key action tap, desk.held key = some (action, tap) ∧
    property (keyShare build desk.state.oneshotDisable tap action)

/-- Everything that is down belongs to a key that is down, or is a stray. -/
structure Owned (build : Build cfg) (desk : Desk Key) : Prop where
  real : ∀ i, Among i desk.state.realMods →
    Among i desk.strays ∨ desk.Holds build fun share => Among i share.real
  weak : ∀ i, Among i desk.state.weakMods → desk.Holds build fun share => Among i share.weak
  keys : ∀ code ∈ desk.state.keys, desk.Holds build fun share => code ∈ share.keys
  locked : ∀ i, Among i desk.state.oneshotLockedMods → Among i desk.strays

variable {build : Build cfg} {desk : Desk Key} {event : Event Key} {property : Share → Prop}

/-- The other keys stay down. -/
theorem holds_press (press : event.record.pressed = true) (turn : Turn desk event)
    (disable : (desk.feed build event).state.oneshotDisable = desk.state.oneshotDisable)
    (holds : desk.Holds build property) : (desk.feed build event).Holds build property := by
  obtain ⟨key, action, tap, down, has⟩ := holds
  have other : key ≠ event.key := by
    rintro rfl
    rw [Turn, if_pos press, down] at turn
    cases turn
  exact ⟨key, action, tap, (Function.update_of_ne other ..).trans down, by rwa [disable]⟩

theorem holds_pressed (press : event.record.pressed = true)
    (disable : (desk.feed build event).state.oneshotDisable = desk.state.oneshotDisable)
    (has : property (keyShare build desk.state.oneshotDisable
      (leftTap build event.record event.action) event.action)) :
    (desk.feed build event).Holds build property := by
  exact ⟨event.key, event.action, leftTap build event.record event.action,
    (Function.update_self ..).trans (if_pos press), by rwa [disable]⟩

/-- What is not in the share of the released key belongs to another one. -/
theorem holds_release (release : event.record.pressed = false) (turn : Turn desk event)
    (disable : (desk.feed build event).state.oneshotDisable = desk.state.oneshotDisable)
    (given : ¬property (keyShare build desk.state.oneshotDisable event.record.tap event.action))
    (holds : desk.Holds build property) : (desk.feed build event).Holds build property := by
  obtain ⟨key, action, tap, down, has⟩ := holds
  have other : key ≠ event.key := by
    rintro rfl
    rw [Turn, if_neg (by simp [release])] at turn
    obtain ⟨rfl, rfl⟩ := Prod.mk.inj (turn _ down)
    exact given has
  exact ⟨key, action, tap, (Function.update_of_ne other ..).trans down, by rwa [disable]⟩

theorem Owned.press (owned : Owned build desk) (press : event.record.pressed = true)
    (turn : Turn desk event) : Owned build (desk.feed build event) := by
  have takes := @perform_press _ build desk.state _ event.action press
  have old {property : Share → Prop} :=
    @holds_press _ _ _ _ desk event property press turn takes.disable
  have new {property : Share → Prop} :=
    @holds_pressed _ _ _ build desk event property press takes.disable
  refine ⟨fun i among => ?_, fun i among => ?_, fun code member => ?_, fun i among => ?_⟩
  · rcases takes.real i among with before | share | stray
    · rcases owned.real i before with stray | holds
      · exact .inl (among_or.mpr (.inl stray))
      · exact .inr (old holds)
    · exact .inr (new share)
    · exact .inl (among_or.mpr (.inr stray))
  · rcases takes.weak i among with before | share
    · exact old (owned.weak i before)
    · exact new share
  · rcases Finset.mem_union.mp (takes.keys member) with before | share
    · exact old (owned.keys code before)
    · exact new share
  · rcases takes.locked i among with before | stray
    · exact among_or.mpr (.inl (owned.locked i before))
    · exact among_or.mpr (.inr stray)

theorem Owned.release (owned : Owned build desk) (release : event.record.pressed = false)
    (turn : Turn desk event) : Owned build (desk.feed build event) := by
  have gives := @perform_release _ build desk.state _ event.action release
  have rest {property : Share → Prop} :=
    @holds_release _ _ _ _ desk event property release turn gives.disable
  refine ⟨fun i among => ?_, fun i among => ?_, fun code member => ?_, fun i among => ?_⟩
  · rcases gives.real i among with ⟨before, given⟩ | locked
    · rcases owned.real i before with stray | holds
      · exact .inl (among_or.mpr (.inl stray))
      · exact .inr (rest given holds)
    · exact .inl (among_or.mpr (.inl (owned.locked i locked)))
  · obtain ⟨before, given⟩ := gives.weak i among
    exact rest given (owned.weak i before)
  · obtain ⟨before, given⟩ := Finset.mem_sdiff.mp (gives.keys member)
    exact rest given (owned.keys code before)
  · exact among_or.mpr (.inl (owned.locked i (gives.locked i among)))

/-- In every run of presses and releases in which a release does what its press did,
every real modifier that is down belongs to a key that is down, was latched by a tap
toggle or a locked one-shot key, or was taken over by a held one-shot key; weak
modifiers and keys of the report always belong to a key that is down. -/
theorem no_stuck_mods (build : Build cfg) {start : State}
    (clean : start.hands = ⟨0#8, 0#8, ∅⟩ ∧ start.oneshotLockedMods = 0#8)
    {events : List (Event Key)} (turns : Along (Desk.feed build) Turn { state := start } events) :
    let desk := run (Desk.feed build) { state := start } events
    Owned build desk ∧ ((∀ key, desk.held key = none) →
      desk.state.realMods &&& ~~~desk.strays = 0 ∧ desk.state.weakMods = 0 ∧
        desk.state.keys = ∅) := by
  intro desk
  have owned : Owned build desk := by
    have initial : Owned build ({ state := start } : Desk Key) := by
      have real : start.realMods = 0#8 := congrArg Hands.real clean.1
      have weak : start.weakMods = 0#8 := congrArg Hands.weak clean.1
      have keys : start.keys = ∅ := congrArg Hands.keys clean.1
      exact ⟨by simp [real], by simp [weak], by simp [keys], by simp [clean.2]⟩
    have keeps : ∀ (desk : Desk Key) (event : Event Key), Owned build desk → Turn desk event →
        Owned build (desk.feed build event) := by
      intro desk event owned turn
      cases direction : event.record.pressed with
      | true => exact owned.press direction turn
      | false => exact owned.release direction turn
    exact run_invariant keeps initial turns
  refine ⟨owned, fun up => ?_⟩
  have none (property : Share → Prop) : ¬desk.Holds build property := by
    rintro ⟨key, action, tap, down, -⟩
    rw [up key] at down
    cases down
  refine ⟨?_, ?_, ?_⟩
  · apply BitVec.eq_of_getLsbD_eq
    intro i inside
    by_contra here
    have among : Among ⟨i, inside⟩ (desk.state.realMods &&& ~~~desk.strays) := by
      simpa [Among] using here
    rw [among_diff] at among
    rcases owned.real _ among.1 with stray | holds
    · exact among.2 stray
    · exact none _ holds
  · apply BitVec.eq_of_getLsbD_eq
    intro i inside
    by_contra here
    have among : Among ⟨i, inside⟩ desk.state.weakMods := by simpa [Among] using here
    exact none _ (owned.weak _ among)
  · exact Finset.eq_empty_of_forall_notMem fun code member => none _ (owned.keys code member)

/-- A call of `process_action` for one of two keys. -/
def keyEvent (key : Fin 2) (pressed : Bool) (count : ℕ) (action : Action) : Event (Fin 2) where
  key := key
  record :=
    { event := { key := ⟨0, key.val⟩, pressed := pressed, time := 1 }, tap := { count := count } }
  action := action

/-- A shifted letter and a held one-shot control that overlap leave nothing down. -/
theorem no_stuck_mods_overlapping :
    let build : Build Oneshot.oneKey := { keymap := fun _ _ => 0 }
    let desk := run (Desk.feed build) { state := {} } [keyEvent 0 true 0 0x0204,
      keyEvent 1 true 0 0x2100, keyEvent 0 false 0 0x0204, keyEvent 1 false 0 0x2100]
    desk.state.realMods = 0 ∧ desk.state.weakMods = 0 ∧ desk.state.keys = ∅ := by
  intro build desk
  have turns : Along (Desk.feed build) Turn { state := {} } [keyEvent 0 true 0 0x0204,
      keyEvent 1 true 0 0x2100, keyEvent 0 false 0 0x0204, keyEvent 1 false 0 0x2100] := by
    refine ⟨rfl, rfl, ?_, ?_, trivial⟩
    · rintro _ ⟨⟩
      rfl
    · rintro _ ⟨⟩
      rfl
  have final := (no_stuck_mods build ⟨rfl, rfl⟩ turns).2 (by decide)
  have strays : desk.strays = 0 := by decide
  have real : desk.state.realMods &&& ~~~desk.strays = 0 := final.1
  rw [strays] at real
  exact ⟨by simpa using real, final.2⟩

/-- A tapped one-shot shift that a held one-shot control takes over stays down. -/
example : (run (Desk.feed { keymap := fun _ _ => 0 : Build Oneshot.oneKey }) { state := {} }
    [keyEvent 0 true 1 0x2200, keyEvent 0 false 1 0x2200, keyEvent 1 true 0 0x2100,
      keyEvent 1 false 0 0x2100]).state.realMods = 0x02 := by
  decide

end Runs

end QmkSonix.Modifiers
