import QmkSonix.Keycodes.Model
import QmkSonix.Oneshot.StuckKeys

/-! What a key of a keymap means for the layers, and that its action does just that: the
keycode is translated by `action_for_keycode` and the action run by `process_action`. -/

namespace QmkSonix.Keycodes

open Lib
open Keyboard (KeyRecord Tap)
open Layer (Byte Config LayerState KeyPos Remembers topLayer actionTransparent)
open Oneshot (World Build matrixKey layerBit actLayer actLayerMods opOnOff layerTapVal
  layerModsLayer layerBitopOp layerBitopOnPress layerBitopOnRelease layerBitopState
  isOneshotLayerKey defaultLayersAfter isOneshotLayerActive memoryOf)
open Tapping (Action actLayerTap actLayerTapExt isNoEvent)

/-! ### Words -/

section Words

variable {high low : BitVec 16} {k : ℕ}

theorem toNat_or_low (aligned : 2 ^ k ∣ high.toNat) (small : low.toNat < 2 ^ k) :
    (high ||| low).toNat = high.toNat + low.toNat := by
  obtain ⟨quotient, value⟩ := aligned
  rw [BitVec.toNat_or, value, Nat.two_pow_add_eq_or_of_lt small]

theorem toNat_shifted (fits : high.toNat * 2 ^ k < 2 ^ 16) :
    (high <<< k).toNat = high.toNat * 2 ^ k := by
  rw [BitVec.toNat_shiftLeft, Nat.shiftLeft_eq, Nat.mod_eq_of_lt fits]

theorem toNat_joined (fits : high.toNat * 2 ^ k < 2 ^ 16) (small : low.toNat < 2 ^ k) :
    (high <<< k ||| low).toNat = high.toNat * 2 ^ k + low.toNat := by
  have shifted := toNat_shifted fits
  rw [toNat_or_low ⟨high.toNat, by rw [shifted, Nat.mul_comm]⟩ small, shifted]

theorem toNat_masked (word : BitVec 16) (mask : BitVec 16) (ones : mask.toNat = 2 ^ k - 1) :
    (word &&& mask).toNat = word.toNat % 2 ^ k := by
  rw [BitVec.toNat_and, ones, Nat.and_two_pow_sub_one_eq_mod]

theorem toNat_byte (low : Byte) : (low.setWidth 16).toNat = low.toNat :=
  BitVec.toNat_setWidth_of_le (by decide)

theorem kindId_toNat (action : Action) : action.kindId.toNat = action.toNat / 4096 % 16 := by
  rw [Tapping.Action.kindId, BitVec.extractLsb'_toNat, Nat.shiftRight_eq_div_pow]

theorem code_toNat (action : Action) : action.code.toNat = action.toNat % 256 := by
  rw [Tapping.Action.code, BitVec.extractLsb'_toNat, Nat.shiftRight_zero]

theorem toNat_action (kind : BitVec 4) (small : low.toNat < 4096) :
    (action kind low).toNat = kind.toNat * 4096 + low.toNat := by
  have four : (kind.setWidth 16).toNat = kind.toNat := BitVec.toNat_setWidth_of_le (by decide)
  have fits : (kind.setWidth 16).toNat * 2 ^ 12 < 2 ^ 16 := by
    have := kind.isLt
    omega
  rw [action, toNat_joined fits small, four]
  norm_num

end Words

/-! ### Plain keys -/

/-- A keycode that is no layer key, no user function and not transparent. -/
def Plain (keycode : Keycode) : Prop :=
  keycode ≠ 1 ∧ ¬(0xC0 ≤ keycode.toNat ∧ keycode.toNat ≤ 0xDF) ∧
    ¬(0x2000 ≤ keycode.toNat ∧ keycode.toNat ≤ 0x2FFF) ∧
    ¬(0x4000 ≤ keycode.toNat ∧ keycode.toNat ≤ 0x54FF) ∧
    ¬(0x5800 ≤ keycode.toNat ∧ keycode.toNat ≤ 0x59FF)

instance (keycode : Keycode) : Decidable (Plain keycode) := inferInstanceAs (Decidable (_ ∧ _))

/-- An action that leaves the layers alone. -/
def Quiet (action : Action) : Prop :=
  action ≠ actionTransparent ∧
    action.kindId ∉ [actLayer, actLayerMods, actLayerTap, actLayerTapExt]

theorem quiet_of_kind {action : Action} (kind : action.toNat < 0x8000 ∨ 0xC000 ≤ action.toNat)
    (visible : action ≠ actionTransparent) : Quiet action := by
  refine ⟨visible, ?_⟩
  have value := kindId_toNat action
  have bound := action.isLt
  simp only [List.mem_cons, List.not_mem_nil, or_false, not_or, ← BitVec.toNat_inj, value]
  simp only [actLayer, actLayerMods, actLayerTap, actLayerTapExt]
  refine ⟨?_, ?_, ?_, ?_⟩ <;> simp <;> omega

section Translation

variable {options : Options} {config : KeymapConfig} {keycode : Keycode}

theorem among_eq (first last : Keycode) : among keycode first last =
    decide (first.toNat ≤ keycode.toNat ∧ keycode.toNat ≤ last.toNat) := by
  simp only [among, BitVec.le_def]

theorem consumer_small (key : Keycode) : (keycode2Consumer key).toNat < 0x400 := by
  have each : ∀ usage ∈ consumerUsages, usage.toNat < 0x400 := by simp [consumerUsages]
  rw [keycode2Consumer]
  split
  · rw [List.getD_eq_getElem?_getD]
    cases found : consumerUsages[key.toNat - 0xA8]? with
    | none => decide
    | some usage => exact each _ (List.mem_of_getElem? found)
  · decide

theorem system_small (key : Keycode) : (keycode2System key).toNat < 0x400 := by
  rw [keycode2System]
  split_ifs <;> decide

theorem quiet_action {kind : BitVec 4} {param : BitVec 16} (below : kind.toNat < 8)
    (small : param.toNat < 0x8000) (visible : 0 < kind.toNat ∨ 1 < param.toNat) :
    Quiet (action kind param) := by
  have four : (kind.setWidth 16).toNat = kind.toNat := BitVec.toNat_setWidth_of_le (by decide)
  have high : (kind.setWidth 16 <<< 12).toNat = kind.toNat * 2 ^ 12 := by
    rw [toNat_shifted (by rw [four]; omega), four]
  have value : (action kind param).toNat = kind.toNat * 2 ^ 12 ||| param.toNat := by
    rw [action, BitVec.toNat_or, high]
  have kindBelow := @Nat.left_le_or (kind.toNat * 2 ^ 12) param.toNat
  have paramBelow := @Nat.right_le_or (kind.toNat * 2 ^ 12) param.toNat
  have top : kind.toNat * 2 ^ 12 ||| param.toNat < 2 ^ 15 :=
    Nat.or_lt_two_pow (by omega) small
  refine quiet_of_kind (.inl (by rw [value]; exact top)) ?_
  intro same
  rw [same] at value
  have one : actionTransparent.toNat = 1 := rfl
  omega

theorem quiet_modsKey {kind : BitVec 4} {mods key : BitVec 16} (below : kind.toNat < 8)
    (small : key.toNat < 256) (visible : 0 < kind.toNat ∨ mods.toNat % 32 ≠ 0) :
    Quiet (actionModsKey kind mods key) := by
  have five : (mods &&& 0x1F).toNat = mods.toNat % 32 := @toNat_masked 5 mods 0x1F rfl
  have joined : ((mods &&& 0x1F) <<< 8 ||| key).toNat = mods.toNat % 32 * 2 ^ 8 + key.toNat :=
    (toNat_joined (by rw [five]; omega) small).trans (by rw [five])
  exact quiet_action below (by omega) (by omega)

theorem toNat_low (keycode : Keycode) : (keycode &&& 0xFF).toNat = keycode.toNat % 256 :=
  @toNat_masked 8 keycode 0xFF rfl

theorem toNat_high (keycode : Keycode) : (keycode >>> 8).toNat = keycode.toNat / 256 := by
  rw [BitVec.toNat_ushiftRight, Nat.shiftRight_eq_div_pow]

theorem quiet_ite {condition : Prop} [Decidable condition] {yes no : Action}
    (onYes : condition → Quiet yes) (onNo : ¬condition → Quiet no) :
    Quiet (if condition then yes else no) := by
  split
  · exact onYes ‹_›
  · exact onNo ‹_›

theorem among_eq_true {first last : Keycode} (within : among keycode first last = true) :
    first.toNat ≤ keycode.toNat ∧ keycode.toNat ≤ last.toNat := by
  simpa only [among_eq, decide_eq_true_eq] using within

theorem translateHigh_quiet (noLayer : ¬(0x4000 ≤ keycode.toNat ∧ keycode.toNat ≤ 0x54FF))
    (noTapToggle : ¬(0x5800 ≤ keycode.toNat ∧ keycode.toNat ≤ 0x59FF)) :
    Quiet (translateHigh options config keycode) := by
  have low := toNat_low keycode
  have first {first last : Keycode} (within : among keycode first last = true)
      (bottom : 0x4000 ≤ first.toNat) (top : last.toNat ≤ 0x54FF) : False :=
    noLayer ⟨bottom.trans (among_eq_true within).1, (among_eq_true within).2.trans top⟩
  have second {first last : Keycode} (within : among keycode first last = true)
      (bottom : 0x5800 ≤ first.toNat) (top : last.toNat ≤ 0x59FF) : False :=
    noTapToggle ⟨bottom.trans (among_eq_true within).1, (among_eq_true within).2.trans top⟩
  refine quiet_ite (fun key => (first key.2 (by decide) (by decide)).elim) fun _ => ?_
  refine quiet_ite (fun key => (first key.2 (by decide) (by decide)).elim) fun _ => ?_
  refine quiet_ite (fun key => (first key.2 (by decide) (by decide)).elim) fun _ => ?_
  refine quiet_ite (fun key => (first key.2 (by decide) (by decide)).elim) fun _ => ?_
  refine quiet_ite (fun key => (first key.2 (by decide) (by decide)).elim) fun _ => ?_
  refine quiet_ite (fun key => (first key.2 (by decide) (by decide)).elim) fun _ => ?_
  refine quiet_ite (fun _ => quiet_modsKey (by decide) (by decide) (.inl (by decide))) fun _ => ?_
  refine quiet_ite (fun key => (second key.2 (by decide) (by decide)).elim) fun _ => ?_
  refine quiet_ite (fun key => (second key.2 (by decide) (by decide)).elim) fun _ => ?_
  refine quiet_ite (fun _ => quiet_modsKey (by decide) (by omega) (.inl (by decide))) fun _ => ?_
  refine quiet_ite (fun _ => quiet_action (by decide) (by omega) (.inl (by decide))) fun _ => ?_
  exact ⟨by decide, by decide⟩

/-- What `action_for_keycode` makes of a plain key leaves the layers alone. -/
theorem translate_quiet (plain : Plain keycode) : Quiet (translate options config keycode) := by
  obtain ⟨visible, noFn, noFunction, noLayer, noTapToggle⟩ := plain
  have low := toNat_low keycode
  have high := toNat_high keycode
  have visible' : keycode.toNat ≠ 1 := fun same => visible (BitVec.eq_of_toNat_eq same)
  have usage (page : BitVec 16) (one : page.toNat ≤ 1) (id : BitVec 16) (small : id.toNat < 0x400) :
      Quiet (action Tapping.actUsage (page <<< 10 ||| id)) := by
    have joined := @toNat_joined page id 10 (by omega) small
    exact quiet_action (by decide) (by omega) (.inl (by decide))
  have macros (param : BitVec 16) (small : param.toNat < 0x1000) :
      Quiet (action Tapping.actMacro param) := by
    have value := toNat_action Tapping.actMacro small
    have kind : Tapping.actMacro.toNat = 12 := rfl
    refine quiet_of_kind (.inr (by omega)) fun same => ?_
    rw [same] at value
    have one : actionTransparent.toNat = 1 := rfl
    omega
  refine quiet_ite (fun basic => ?_) fun _ => ?_
  · have range : 4 ≤ keycode.toNat ∧ keycode.toNat ≤ 0xE7 := by
      rcases basic with letters | mods
      · exact ⟨(among_eq_true letters).1, le_trans (among_eq_true letters).2 (by decide)⟩
      · exact ⟨le_trans (by decide) (among_eq_true mods).1, (among_eq_true mods).2⟩
    exact quiet_action (by decide) (by omega) (.inr (by omega))
  refine quiet_ite (fun _ => usage _ (by decide) _ (system_small _)) fun _ => ?_
  refine quiet_ite (fun _ => usage _ (by decide) _ (consumer_small _)) fun _ => ?_
  refine quiet_ite (fun mouse => ?_) fun _ => ?_
  · have range : keycode.toNat ≤ 0xFF := (among_eq_true mouse.2).2
    exact quiet_action (by decide) (by omega) (.inl (by decide))
  refine quiet_ite (fun transparent => absurd transparent visible) fun _ => ?_
  refine quiet_ite (fun mods => ?_) fun _ => ?_
  · have range : 0x0100 ≤ keycode.toNat ∧ keycode.toNat ≤ 0x1FFF := among_eq_true mods
    exact quiet_modsKey (by decide) (by omega) (.inr (by omega))
  refine quiet_ite (fun fn => absurd (among_eq_true fn.2) noFn) fun _ => ?_
  refine quiet_ite (fun function => absurd (among_eq_true function.2) noFunction) fun _ => ?_
  refine quiet_ite (fun _ => ?_) fun _ => ?_
  · refine quiet_ite (fun _ => macros _ ?_) fun _ => macros _ (by omega)
    have joined := @toNat_joined (Tapping.funcTap.setWidth 16) (keycode &&& 0xFF) 8 (by decide)
      (by omega)
    have tap : (Tapping.funcTap.setWidth 16 : BitVec 16).toNat = 8 := rfl
    omega
  exact translateHigh_quiet noLayer noTapToggle

theorem plain_of_basic (basic : keycode.toNat < 0xC0 ∨ 0xE0 ≤ keycode.toNat)
    (byte : keycode.toNat ≤ 0xFF) (visible : keycode.toNat ≠ 1) : Plain keycode := by
  refine ⟨fun same => visible (congrArg BitVec.toNat same), ?_, ?_, ?_, ?_⟩ <;> omega

theorem plain_ite {condition : Prop} [Decidable condition] {yes no : Keycode} (onYes : Plain yes)
    (onNo : Plain no) : Plain (if condition then yes else no) := by
  split
  · exact onYes
  · exact onNo

theorem plain_keycodeConfig (plain : Plain keycode) : Plain (keycodeConfig config keycode) := by
  have letters : Plain kcCapsLock ∧ Plain kcGrave ∧ Plain kcEscape ∧ Plain kcBackslash ∧
      Plain kcBackspace ∧ Plain 0 := by
    refine ⟨?_, ?_, ?_, ?_, ?_, ?_⟩ <;> exact plain_of_basic (by decide) (by decide) (by decide)
  have mods : Plain kcLeftCtrl ∧ Plain kcLeftAlt ∧ Plain kcLeftGui ∧ Plain kcRightCtrl ∧
      Plain kcRightAlt ∧ Plain kcRightGui := by
    refine ⟨?_, ?_, ?_, ?_, ?_, ?_⟩ <;> exact plain_of_basic (by decide) (by decide) (by decide)
  obtain ⟨caps, grave, escape, backslash, backspace, none⟩ := letters
  obtain ⟨leftCtrl, leftAlt, leftGui, rightCtrl, rightAlt, rightGui⟩ := mods
  rw [keycodeConfig]
  refine plain_ite (plain_ite leftCtrl plain) ?_
  refine plain_ite (plain_ite caps (plain_ite (plain_ite none leftGui) leftCtrl)) ?_
  refine plain_ite (plain_ite (plain_ite none leftGui) leftAlt) ?_
  refine plain_ite (plain_ite leftAlt (plain_ite leftCtrl (plain_ite none leftGui))) ?_
  refine plain_ite (plain_ite (plain_ite none rightGui) rightCtrl) ?_
  refine plain_ite (plain_ite (plain_ite none rightGui) rightAlt) ?_
  refine plain_ite (plain_ite rightAlt (plain_ite rightCtrl (plain_ite none rightGui))) ?_
  refine plain_ite (plain_ite escape grave) ?_
  refine plain_ite (plain_ite grave escape) ?_
  refine plain_ite (plain_ite backspace backslash) ?_
  exact plain_ite (plain_ite backslash backspace) plain

/-- A plain key leaves the layers alone, whatever modifiers have been swapped. -/
theorem plain_quiet (plain : Plain keycode) : Quiet (actionForKeycode options config keycode) :=
  translate_quiet (plain_keycodeConfig plain)

end Translation

/-! ### Layer keys -/

section LayerKeys

variable {options : Options} {config : KeymapConfig} {keycode : Keycode}

theorem unswapped (above : 0x100 ≤ keycode.toNat) : keycodeConfig config keycode = keycode := by
  have other {basic : Keycode} (small : basic.toNat < 0x100) : keycode ≠ basic := by
    rintro rfl
    omega
  have first : ¬(keycode = kcCapsLock ∨ keycode = kcLockingCapsLock) :=
    not_or.mpr ⟨other (by decide), other (by decide)⟩
  rw [keycodeConfig, if_neg first, if_neg (other (by decide)), if_neg (other (by decide)),
    if_neg (other (by decide)), if_neg (other (by decide)), if_neg (other (by decide)),
    if_neg (other (by decide)), if_neg (other (by decide)), if_neg (other (by decide)),
    if_neg (other (by decide)), if_neg (other (by decide))]

section Cases

variable {condition : Prop} [Decidable condition] {first last : Keycode} {yes no : Action}

theorem case_hit (on : condition) {bottom top : ℕ}
    (range : bottom ≤ keycode.toNat ∧ keycode.toNat ≤ top) (below : first.toNat ≤ bottom)
    (above : top ≤ last.toNat) :
    (if condition ∧ among keycode first last = true then yes else no) = yes := by
  refine if_pos ⟨on, ?_⟩
  rw [among_eq, decide_eq_true_eq]
  exact ⟨below.trans range.1, range.2.trans above⟩

theorem case_missed {bound : ℕ} (above : bound ≤ keycode.toNat) (past : last.toNat < bound) :
    (if condition ∧ among keycode first last = true then yes else no) = no := by
  refine if_neg fun taken => ?_
  have within := among_eq_true taken.2
  omega

theorem case_early (before : keycode.toNat < first.toNat) :
    (if condition ∧ among keycode first last = true then yes else no) = no := by
  refine if_neg fun taken => ?_
  have within := among_eq_true taken.2
  omega

end Cases

theorem actionForKeycode_high (above : 0x4000 ≤ keycode.toNat) :
    actionForKeycode options config keycode = translateHigh options config keycode := by
  have noBasic :
      ¬(among keycode 0x04 0xA4 = true ∨ among keycode kcLeftCtrl kcRightGui = true) := by
    rintro (letters | mods)
    · exact absurd (above.trans (among_eq_true letters).2) (by decide)
    · exact absurd (above.trans (among_eq_true mods).2) (by decide)
  have visible : keycode ≠ 0x01 := by
    rintro rfl
    exact absurd above (by decide)
  have noMods : ¬among keycode 0x0100 0x1FFF = true := fun mods =>
    absurd (above.trans (among_eq_true mods).2) (by decide)
  rw [actionForKeycode, unswapped (by omega), translate, if_neg noBasic,
    case_missed above (by decide), case_missed above (by decide), case_missed above (by decide),
    if_neg visible, if_neg noMods, case_missed above (by decide), case_missed above (by decide),
    case_missed above (by decide)]

theorem action_layerTap (on : options.actionLayer = true)
    (range : 0x4000 ≤ keycode.toNat ∧ keycode.toNat ≤ 0x4FFF) :
    actionForKeycode options config keycode =
      actionLayerTap (keycode >>> 8 &&& 0xF) (keycode &&& 0xFF) := by
  rw [actionForKeycode_high range.1, translateHigh, case_hit on range (by decide) (by decide)]

theorem action_to (on : options.actionLayer = true)
    (range : 0x5000 ≤ keycode.toNat ∧ keycode.toNat ≤ 0x50FF) :
    actionForKeycode options config keycode =
      actionLayerSet ((keycode &&& 0xF).setWidth 8) (keycode >>> 4 &&& 0x3) := by
  rw [actionForKeycode_high (by omega), translateHigh, case_missed range.1 (by decide),
    case_hit on range (by decide) (by decide)]

theorem action_momentary (on : options.actionLayer = true)
    (range : 0x5100 ≤ keycode.toNat ∧ keycode.toNat ≤ 0x51FF) :
    actionForKeycode options config keycode =
      actionLayerTap (keycode &&& 0xFF) (opOnOff.setWidth 16) := by
  rw [actionForKeycode_high (by omega), translateHigh, case_missed range.1 (by decide),
    case_missed range.1 (by decide), case_hit on range (by decide) (by decide)]

theorem action_defLayer (on : options.actionLayer = true)
    (range : 0x5200 ≤ keycode.toNat ∧ keycode.toNat ≤ 0x52FF) :
    actionForKeycode options config keycode =
      actionLayerSet ((keycode &&& 0xFF).setWidth 8) 0 := by
  rw [actionForKeycode_high (by omega), translateHigh, case_missed range.1 (by decide),
    case_missed range.1 (by decide), case_missed range.1 (by decide),
    case_hit on range (by decide) (by decide)]

theorem action_toggle (on : options.actionLayer = true)
    (range : 0x5300 ≤ keycode.toNat ∧ keycode.toNat ≤ 0x53FF) :
    actionForKeycode options config keycode =
      actionLayerInvert ((keycode &&& 0xFF).setWidth 8) onRelease := by
  rw [actionForKeycode_high (by omega), translateHigh, case_missed range.1 (by decide),
    case_missed range.1 (by decide), case_missed range.1 (by decide),
    case_missed range.1 (by decide), case_hit on range (by decide) (by decide)]

theorem action_tapToggle (on : options.actionLayer = true)
    (range : 0x5800 ≤ keycode.toNat ∧ keycode.toNat ≤ 0x58FF) :
    actionForKeycode options config keycode =
      actionLayerTap (keycode &&& 0xFF) (Tapping.opTapToggle.setWidth 16) := by
  rw [actionForKeycode_high (by omega), translateHigh, case_missed range.1 (by decide),
    case_missed range.1 (by decide), case_missed range.1 (by decide),
    case_missed range.1 (by decide), case_missed range.1 (by decide),
    case_missed range.1 (by decide), case_missed range.1 (by decide),
    case_hit on range (by decide) (by decide)]

theorem action_layerMod (on : options.actionLayer = true)
    (range : 0x5900 ≤ keycode.toNat ∧ keycode.toNat ≤ 0x59FF) :
    actionForKeycode options config keycode =
      action actLayerMods ((keycode >>> 4 &&& 0xF) <<< 8 |||
        (modConfig config ((keycode &&& 0xF).setWidth 8)).setWidth 16) := by
  rw [actionForKeycode_high (by omega), translateHigh, case_missed range.1 (by decide),
    case_missed range.1 (by decide), case_missed range.1 (by decide),
    case_missed range.1 (by decide), case_missed range.1 (by decide),
    case_missed range.1 (by decide), case_missed range.1 (by decide),
    case_missed range.1 (by decide), case_hit on range (by decide) (by decide)]

end LayerKeys

/-! ### Fields of layer actions -/

section Fields

variable {layer key : BitVec 16}

theorem layerTap_fields (few : layer.toNat < 32) (small : key.toNat < 256) :
    ((actionLayerTap layer key).kindId = actLayerTap ∨
      (actionLayerTap layer key).kindId = actLayerTapExt) ∧
      (actionLayerTap layer key).code = key.setWidth 8 ∧
      layerTapVal (actionLayerTap layer key) = layer.setWidth 8 ∧
      actionLayerTap layer key ≠ actionTransparent := by
  have joined := @toNat_joined layer key 8 (by omega) small
  have value : (actionLayerTap layer key).toNat = 0xA000 + (layer.toNat * 256 + key.toNat) := by
    have high : (actLayerTap.setWidth 16 <<< 12 : BitVec 16).toNat = 0xA000 := rfl
    rw [actionLayerTap, action, @toNat_or_low _ _ 13 ⟨5, rfl⟩ (by omega), high, joined]
    norm_num
  have kind := kindId_toNat (actionLayerTap layer key)
  have code := code_toNat (actionLayerTap layer key)
  have val : (layerTapVal (actionLayerTap layer key)).toNat =
      (actionLayerTap layer key).toNat / 256 % 32 := by
    rw [layerTapVal, BitVec.toNat_setWidth, BitVec.extractLsb'_toNat, Nat.shiftRight_eq_div_pow]
    omega
  refine ⟨?_, ?_, ?_, ?_⟩
  · simp only [← BitVec.toNat_inj, kind, value]
    have tap : actLayerTap.toNat = 10 := rfl
    have ext : actLayerTapExt.toNat = 11 := rfl
    omega
  · apply BitVec.eq_of_toNat_eq
    rw [code, value, BitVec.toNat_setWidth]
    omega
  · apply BitVec.eq_of_toNat_eq
    rw [val, value, BitVec.toNat_setWidth]
    omega
  · intro same
    rw [same] at value
    have one : actionTransparent.toNat = 1 := rfl
    omega

theorem layerMods_fields {mods : BitVec 16} (few : layer.toNat < 16) (small : mods.toNat < 256) :
    (action actLayerMods (layer <<< 8 ||| mods)).kindId = actLayerMods ∧
      layerModsLayer (action actLayerMods (layer <<< 8 ||| mods)) = layer.setWidth 8 ∧
      action actLayerMods (layer <<< 8 ||| mods) ≠ actionTransparent := by
  have joined := @toNat_joined layer mods 8 (by omega) small
  have value := @toNat_action (layer <<< 8 ||| mods) actLayerMods (by omega)
  have nine : actLayerMods.toNat = 9 := rfl
  have kind := kindId_toNat (action actLayerMods (layer <<< 8 ||| mods))
  have field : (layerModsLayer (action actLayerMods (layer <<< 8 ||| mods))).toNat =
      (action actLayerMods (layer <<< 8 ||| mods)).toNat / 256 % 16 := by
    rw [layerModsLayer, BitVec.toNat_setWidth, BitVec.extractLsb'_toNat,
      Nat.shiftRight_eq_div_pow]
    omega
  refine ⟨?_, ?_, ?_⟩
  · apply BitVec.eq_of_toNat_eq
    omega
  · apply BitVec.eq_of_toNat_eq
    rw [field, BitVec.toNat_setWidth]
    omega
  · intro same
    rw [same] at value
    have one : actionTransparent.toNat = 1 := rfl
    omega

/-- The fields of an action that sets or inverts one layer. -/
@[mk_iff]
structure OneLayer (action : Action) (op : BitVec 2) (on : Fin 3) (layer : Fin 32) : Prop where
  kind : action.kindId = actLayer
  op : layerBitopOp action = op
  onPress : layerBitopOnPress action = decide (on.val = 1)
  onRelease : layerBitopOnRelease action = decide (on.val = 2)
  part : (action.extractLsb' 5 3).toNat = layer.val / 4
  bits : action.extractLsb' 0 4 = (1 : BitVec 4) <<< (layer.val % 4)
  xbit : action.getLsbD 4 = false
  visible : action ≠ actionTransparent

theorem bitop_fields : ∀ layer : Fin 32, ∀ on : Fin 3,
    OneLayer (actionLayerSet (BitVec.ofNat 8 layer) (BitVec.ofNat 16 on)) opBitSet on layer ∧
      OneLayer (actionLayerInvert (BitVec.ofNat 8 layer) (BitVec.ofNat 16 on)) Oneshot.opBitXor on
        layer := by
  simp only [oneLayer_iff]
  decide +kernel

end Fields

/-! ### Layers as sets -/

section Sets

variable {cfg : Config} {layers : LayerState cfg} {on : Finset (Fin cfg.maxLayer)}
  {layer : Fin cfg.maxLayer}

/-- A layer state has the bits of a set of layers. -/
def Shows (layers : LayerState cfg) (on : Finset (Fin cfg.maxLayer)) : Prop :=
  ∀ i, layers.getLsbD i = true ↔ ∃ layer ∈ on, layer.val = i

/-- Turn a layer that is off on, and one that is on off. -/
def flip (layer : Fin cfg.maxLayer) (on : Finset (Fin cfg.maxLayer)) : Finset (Fin cfg.maxLayer) :=
  if layer ∈ on then on.erase layer else insert layer on

theorem layer_lt (layer : Fin cfg.maxLayer) : layer.val < 32 :=
  layer.isLt.trans_le (Layer.maxLayer_le cfg)

theorem getLsbD_bit (layer : Fin cfg.maxLayer) (i : ℕ) :
    (layerBit (BitVec.ofNat 8 layer) : LayerState cfg).getLsbD i = decide (layer.val = i) := by
  have small := layer_lt layer
  have fits := layer.isLt.trans_le cfg.layersFit
  rw [Oneshot.getLsbD_layerBit, BitVec.toNat_ofNat, Nat.mod_eq_of_lt (by omega)]
  by_cases here : layer.val = i
  · simp [← here, fits]
  · simp [here]

theorem shows_ite {condition : Prop} [Decidable condition] {yes no : LayerState cfg}
    {onYes onNo : Finset (Fin cfg.maxLayer)} (showsYes : Shows yes onYes)
    (showsNo : Shows no onNo) :
    Shows (if condition then yes else no) (if condition then onYes else onNo) := by
  split
  · exact showsYes
  · exact showsNo

@[simp] theorem shows_nothing : Shows (0 : LayerState cfg) ∅ := by simp [Shows]

theorem shows_bit : Shows (layerBit (BitVec.ofNat 8 layer) : LayerState cfg) {layer} := by
  simp [Shows, getLsbD_bit]

theorem Shows.mem (shows : Shows layers on) : layers.getLsbD layer.val = true ↔ layer ∈ on := by
  rw [shows layer.val]
  constructor
  · rintro ⟨other, member, same⟩
    rwa [← Fin.ext same]
  · exact fun member => ⟨layer, member, rfl⟩

theorem Shows.or (shows : Shows layers on) :
    Shows (layers ||| layerBit (BitVec.ofNat 8 layer)) (insert layer on) := by
  intro i
  rw [BitVec.getLsbD_or, Bool.or_eq_true, shows i, getLsbD_bit, decide_eq_true_eq]
  simp only [Finset.mem_insert, exists_eq_or_imp]
  exact Or.comm

theorem Shows.diff (shows : Shows layers on) :
    Shows (layers &&& ~~~layerBit (BitVec.ofNat 8 layer)) (on.erase layer) := by
  intro i
  by_cases inside : i < 2 ^ cfg.maxLayerBits
  · rw [BitVec.getLsbD_and, BitVec.getLsbD_not, getLsbD_bit, Bool.and_eq_true, shows i]
    simp only [inside, decide_true, Bool.true_and, Bool.not_eq_true', decide_eq_false_iff_not,
      Finset.mem_erase]
    constructor
    · rintro ⟨⟨other, member, rfl⟩, apart⟩
      exact ⟨other, ⟨fun same => apart (congrArg Fin.val same).symm, member⟩, rfl⟩
    · rintro ⟨other, ⟨apart, member⟩, rfl⟩
      exact ⟨⟨other, member, rfl⟩, fun same => apart (Fin.ext same).symm⟩
  · rw [BitVec.getLsbD_of_ge _ _ (by omega)]
    refine iff_of_false (by decide) ?_
    rintro ⟨other, -, rfl⟩
    exact inside (other.isLt.trans_le cfg.layersFit)

theorem Shows.xor (shows : Shows layers on) :
    Shows (layers ^^^ layerBit (BitVec.ofNat 8 layer)) (flip layer on) := by
  rw [flip]
  split
  · next member =>
    have there := shows.mem.mpr member
    have same : layers ^^^ layerBit (BitVec.ofNat 8 layer) =
        layers &&& ~~~layerBit (BitVec.ofNat 8 layer) := by
      apply BitVec.eq_of_getLsbD_eq
      intro i inside
      by_cases here : layer.val = i
      · subst here
        simp [getLsbD_bit, there]
      · simp only [BitVec.getLsbD_xor, BitVec.getLsbD_and, BitVec.getLsbD_not, getLsbD_bit, here,
          inside, decide_false, decide_true, Bool.xor_false, Bool.not_false, Bool.and_true]
    rw [same]
    exact shows.diff
  · next absent =>
    have there := Bool.eq_false_iff.mpr fun set => absent (shows.mem.mp set)
    have same : layers ^^^ layerBit (BitVec.ofNat 8 layer) =
        layers ||| layerBit (BitVec.ofNat 8 layer) := by
      apply BitVec.eq_of_getLsbD_eq
      intro i inside
      by_cases here : layer.val = i
      · subst here
        simp [getLsbD_bit, there]
      · simp [getLsbD_bit, here]
    rw [same]
    exact shows.or

end Sets

/-! ### The keys of a keymap -/

/-- The byte of a layer. -/
abbrev layerByte {cfg : Config} (layer : Fin cfg.maxLayer) : Byte := BitVec.ofNat 8 layer.val

/-- A layer that four bits can name. -/
abbrev Low (cfg : Config) := { layer : Fin cfg.maxLayer // layer.val < 16 }

/-- What stands in one place of a keymap. One-shot layer keys and user functions are left
out. -/
inductive Binding (cfg : Config) where
  | transparent
  | plain (keycode : { keycode : Keycode // Plain keycode })
  | moveTo (layer : Low cfg)
  | momentary (layer : Fin cfg.maxLayer)
  | setDefault (layer : Fin cfg.maxLayer)
  | toggle (layer : Fin cfg.maxLayer)
  | tapToggle (layer : Fin cfg.maxLayer)
  | layerMod (layer : Low cfg) (mods : Byte)
  | layerTap (layer : Low cfg) (key : { key : Byte // key < 0xF0 })
  deriving DecidableEq

namespace Binding

variable {cfg : Config}

def keycode : Binding cfg → Keycode
  | .transparent => 1
  | .plain keycode => keycode
  | .moveTo layer => keycodeTo (layerByte layer.val)
  | .momentary layer => keycodeMo (layerByte layer)
  | .setDefault layer => keycodeDf (layerByte layer)
  | .toggle layer => keycodeTg (layerByte layer)
  | .tapToggle layer => keycodeTt (layerByte layer)
  | .layerMod layer mods => keycodeLm (layerByte layer.val) mods
  | .layerTap layer key => keycodeLt (layerByte layer.val) key

/-- The layer is on while the key is down. -/
def hold (record : KeyRecord) (layer : Fin cfg.maxLayer) (on : Finset (Fin cfg.maxLayer)) :
    Finset (Fin cfg.maxLayer) :=
  if record.pressed then insert layer on else on.erase layer

/-- The layers that are on after the key has been pressed or released. `taps` is
`TAPPING_TOGGLE`. -/
def turn (taps : ℕ) (record : KeyRecord) (on : Finset (Fin cfg.maxLayer)) :
    Binding cfg → Finset (Fin cfg.maxLayer)
  | .moveTo layer => if record.pressed then {layer.val} else on
  | .momentary layer => hold record layer on
  | .toggle layer => if record.pressed then on else flip layer on
  | .tapToggle layer =>
    if (if record.pressed then record.tap.count < taps else record.tap.count ≤ taps) then
      flip layer on
    else on
  | .layerMod layer _ => hold record layer on
  | .layerTap layer _ => if 0 < record.tap.count then on else hold record layer on
  | .transparent | .plain _ | .setDefault _ => on

/-- The default layers after the key has been pressed or released. -/
def turnDefault (record : KeyRecord) (base : Finset (Fin cfg.maxLayer)) :
    Binding cfg → Finset (Fin cfg.maxLayer)
  | .setDefault layer => if record.pressed then base else {layer}
  | _ => base

end Binding

/-- What an action does to the layers, as a key of the keymap means it. -/
structure Means {cfg : Config} (action : Action) (binding : Binding cfg) : Prop where
  visible : action = actionTransparent ↔ binding = .transparent
  notOneshot : isOneshotLayerKey action = false
  turn (build : Build cfg) (record : KeyRecord) (layers : LayerState cfg)
    (on : Finset (Fin cfg.maxLayer)) (shows : Shows layers on) :
    Shows (build.layersAfter record action layers) (binding.turn build.tappingToggle record on)
  turnDefault (record : KeyRecord) (layers : LayerState cfg) (on : Finset (Fin cfg.maxLayer))
    (shows : Shows layers on) :
    Shows (defaultLayersAfter record action layers) (binding.turnDefault record on)

section Meaning

variable {cfg : Config} {action : Action} {record : KeyRecord} {build : Build cfg}
  {layers : LayerState cfg} {on : Finset (Fin cfg.maxLayer)} {layer : Fin cfg.maxLayer}

theorem defaultLayersAfter_other (other : action.kindId ≠ actLayer) :
    defaultLayersAfter record action layers = layers :=
  if_neg fun taken => other taken.1

theorem isOneshotLayerKey_other
    (other : action.kindId ≠ actLayerTap ∧ action.kindId ≠ actLayerTapExt) :
    isOneshotLayerKey action = false := by
  simp [isOneshotLayerKey, other.1, other.2]

theorem quiet_means {binding : Binding cfg} (quiet : Quiet action)
    (stays : ∀ taps record on, binding.turn taps record on = on)
    (staysDefault : ∀ record on, binding.turnDefault record on = on)
    (shown : binding ≠ .transparent) : Means action binding := by
  obtain ⟨visible, kinds⟩ := quiet
  simp only [List.mem_cons, List.not_mem_nil, or_false, not_or] at kinds
  obtain ⟨noLayer, noMods, noTap, noTapExt⟩ := kinds
  refine ⟨iff_of_false visible shown, isOneshotLayerKey_other ⟨noTap, noTapExt⟩, ?_, ?_⟩
  · intro build record layers on shows
    rw [Build.layersAfter, if_neg noLayer, if_neg noMods, if_neg (by simp [noTap, noTapExt]), stays]
    exact shows
  · intro record layers on shows
    rw [defaultLayersAfter_other noLayer, staysDefault]
    exact shows

/-- What `ACT_LAYER_TAP` does, by its code. -/
structure TapKey (action : Action) (layer : Fin cfg.maxLayer) : Prop where
  kind : action.kindId = actLayerTap ∨ action.kindId = actLayerTapExt
  val : layerTapVal action = BitVec.ofNat 8 layer
  visible : action ≠ actionTransparent

namespace TapKey

variable (tap : TapKey action layer)

include tap

theorem layersAfter :
    build.layersAfter record action layers = build.layerTap record action layers := by
  have noLayer : action.kindId ≠ actLayer := by
    rcases tap.kind with kind | kind <;> rw [kind] <;> decide
  have noMods : action.kindId ≠ actLayerMods := by
    rcases tap.kind with kind | kind <;> rw [kind] <;> decide
  rw [Build.layersAfter, if_neg noLayer, if_neg noMods, if_pos tap.kind]

theorem defaults : defaultLayersAfter record action layers = layers := by
  apply defaultLayersAfter_other
  rcases tap.kind with kind | kind <;> rw [kind] <;> decide

theorem means {binding : Binding cfg} (shown : binding ≠ .transparent)
    (stays : ∀ record on, binding.turnDefault record on = on)
    (code : action.code ≠ Tapping.opOneshot)
    (turns : ∀ (build : Build cfg) record layers on, Shows layers on →
      Shows (build.layerTap record action layers) (binding.turn build.tappingToggle record on)) :
    Means action binding where
  visible := iff_of_false tap.visible shown
  notOneshot := by simp [isOneshotLayerKey, code]
  turn build record layers on shows := by
    rw [tap.layersAfter]
    exact turns build record layers on shows
  turnDefault record layers on shows := by
    rw [tap.defaults, stays]
    exact shows

/-- A layer that is on while the key is down. -/
theorem holds (shows : Shows layers on) :
    Shows (if record.pressed then layers ||| layerBit (layerTapVal action)
      else layers &&& ~~~layerBit (layerTapVal action)) (Binding.hold record layer on) := by
  rw [tap.val, Binding.hold]
  split
  · exact shows.or
  · exact shows.diff

theorem momentary (code : action.code = opOnOff) :
    Means action (.momentary layer : Binding cfg) := by
  refine tap.means (by simp) (fun _ _ => rfl) (by rw [code]; decide) ?_
  intro build record layers on shows
  have notToggle : action.code ≠ Tapping.opTapToggle := by rw [code]; decide
  rw [Build.layerTap, if_neg notToggle, if_pos code]
  exact tap.holds shows

theorem toggles (code : action.code = Tapping.opTapToggle) :
    Means action (.tapToggle layer : Binding cfg) := by
  refine tap.means (by simp) (fun _ _ => rfl) (by rw [code]; decide) ?_
  intro build record layers on shows
  rw [Build.layerTap, if_pos code, Binding.turn, tap.val]
  exact shows_ite shows.xor shows

end TapKey

theorem TapKey.tapped {low : Low cfg} (tap : TapKey action low.val)
    {key : { key : Byte // key < 0xF0 }} (code : action.code = key) : Means action (.layerTap low key : Binding cfg) := by
  have other {op : Byte} (above : 0xF0 ≤ op) : action.code ≠ op := by
    rw [code]
    exact fun same => absurd (same ▸ key.property) (BitVec.not_lt.mpr above)
  refine tap.means (by simp) (fun _ _ => rfl) (other (by decide)) ?_
  intro build record layers on shows
  rw [Build.layerTap, if_neg (other (by decide)), if_neg (other (by decide)),
    if_neg (other (by decide)), if_neg (other (by decide)), Binding.turn]
  exact shows_ite shows (tap.holds shows)

/-- `ACT_LAYER_MODS` -/
theorem layerMods_means {low : Low cfg} {mods : Byte} (kind : action.kindId = actLayerMods)
    (val : layerModsLayer action = BitVec.ofNat 8 low.val) (visible : action ≠ actionTransparent) :
    Means action (.layerMod low mods : Binding cfg) where
  visible := iff_of_false visible (by simp)
  notOneshot := isOneshotLayerKey_other (by rw [kind]; decide)
  turn build record layers on shows := by
    have noLayer : action.kindId ≠ actLayer := by rw [kind]; decide
    rw [Build.layersAfter, if_neg noLayer, if_pos kind, val, Binding.turn, Binding.hold]
    exact shows_ite shows.or shows.diff
  turnDefault record layers on shows := by
    have noLayer : action.kindId ≠ actLayer := by rw [kind]; decide
    rw [defaultLayersAfter_other noLayer]
    exact shows

namespace OneLayer

variable {op : BitVec 2} {when : Fin 3}

/-- The nibble of a bitwise operation is at the bit of its layer. -/
theorem state (one : OneLayer action op when ⟨layer, layer_lt layer⟩) :
    (layerBitopState action : LayerState cfg) = layerBit (BitVec.ofNat 8 layer) := by
  have small := layer_lt layer
  rw [layerBitopState]
  simp only [one.part, one.bits, one.xbit, Bool.false_eq_true, if_false]
  apply BitVec.eq_of_getLsbD_eq
  intro i inside
  have unit (j : ℕ) : (1 : BitVec 4).getLsbD j = decide (j = 0) := by
    rw [show (1 : BitVec 4) = 1#4 from rfl, BitVec.getLsbD_one]
    simp [eq_comm]
  rw [getLsbD_bit, BitVec.getLsbD_shiftLeft, BitVec.getLsbD_setWidth, BitVec.getLsbD_shiftLeft,
    unit]
  by_cases here : layer.val = i
  · subst here
    simp [inside, (by omega : ¬layer.val < layer.val / 4 * 4),
      (by omega : layer.val - layer.val / 4 * 4 < 2 ^ cfg.maxLayerBits),
      (by omega : layer.val - layer.val / 4 * 4 < 4),
      (by omega : ¬layer.val - layer.val / 4 * 4 < layer.val % 4)]
    omega
  · rw [decide_eq_false here]
    simp only [Bool.and_eq_false_iff, Bool.not_eq_false', decide_eq_true_eq,
      decide_eq_false_iff_not]
    omega

theorem notOneshot (one : OneLayer action op when ⟨layer, layer_lt layer⟩) :
    isOneshotLayerKey action = false :=
  isOneshotLayerKey_other (by rw [one.kind]; decide)

theorem layersAfter (one : OneLayer action op when ⟨layer, layer_lt layer⟩) :
    build.layersAfter record action layers =
      if when.val = (if record.pressed then 1 else 2) then Oneshot.layerBitop action layers
      else layers := by
  rw [Build.layersAfter, if_pos one.kind, one.onPress, one.onRelease]
  cases record.pressed <;> simp

theorem moves {low : Low cfg}
    (one : OneLayer action opBitSet 1 ⟨low.val, layer_lt low.val⟩) :
    Means action (.moveTo low : Binding cfg) where
  visible := iff_of_false one.visible (by simp)
  notOneshot := one.notOneshot
  turn build record layers on shows := by
    have set : Oneshot.layerBitop action layers = layerBit (BitVec.ofNat 8 low.val) := by
      rw [Oneshot.layerBitop, one.op, if_neg (by decide), if_neg (by decide), if_neg (by decide),
        one.state]
    rw [one.layersAfter, set, Binding.turn]
    cases record.pressed with
    | true => simpa using shows_bit
    | false => simpa using shows
  turnDefault record layers on shows := by
    rw [defaultLayersAfter, if_neg (by simp [one.onPress])]
    exact shows

theorem sets (one : OneLayer action opBitSet 0 ⟨layer, layer_lt layer⟩) :
    Means action (.setDefault layer : Binding cfg) where
  visible := iff_of_false one.visible (by simp)
  notOneshot := one.notOneshot
  turn build record layers on shows := by
    rw [one.layersAfter, if_neg (by cases record.pressed <;> decide)]
    exact shows
  turnDefault record layers on shows := by
    have set : Oneshot.layerBitop action layers = layerBit (BitVec.ofNat 8 layer) := by
      rw [Oneshot.layerBitop, one.op, if_neg (by decide), if_neg (by decide), if_neg (by decide),
        one.state]
    rw [defaultLayersAfter, set, Binding.turnDefault]
    cases pressed : record.pressed with
    | true => simpa using shows
    | false => simpa [one.kind, one.onPress, one.onRelease] using shows_bit

theorem inverts (one : OneLayer action Oneshot.opBitXor 2 ⟨layer, layer_lt layer⟩) :
    Means action (.toggle layer : Binding cfg) where
  visible := iff_of_false one.visible (by simp)
  notOneshot := one.notOneshot
  turn build record layers on shows := by
    have inverted : Oneshot.layerBitop action layers =
        layers ^^^ layerBit (BitVec.ofNat 8 layer) := by
      rw [Oneshot.layerBitop, one.op, if_neg (by decide), if_neg (by decide), if_pos rfl, one.state]
    rw [one.layersAfter, inverted, Binding.turn]
    cases record.pressed with
    | true => simpa using shows
    | false => simpa using shows.xor
  turnDefault record layers on shows := by
    rw [defaultLayersAfter, if_neg (by simp [one.onRelease])]
    exact shows

end OneLayer

section Translated

variable {options : Options} {config : KeymapConfig}

theorem toNat_layerByte (layer : Fin cfg.maxLayer) :
    ((layerByte layer).setWidth 16).toNat = layer.val := by
  have small := layer_lt layer
  rw [toNat_byte, BitVec.toNat_ofNat]
  omega

theorem setWidth_byte (byte : Byte) : (byte.setWidth 16).setWidth 8 = byte := by
  rw [BitVec.setWidth_setWidth_of_le _ (by decide), BitVec.setWidth_eq]

theorem tapKey_of (layer : Fin cfg.maxLayer) (key : Byte) :
    TapKey (actionLayerTap ((layerByte layer).setWidth 16) (key.setWidth 16)) layer ∧
      (actionLayerTap ((layerByte layer).setWidth 16) (key.setWidth 16)).code = key := by
  have small : (key.setWidth 16).toNat < 256 := by
    rw [toNat_byte]
    exact key.isLt
  have few : ((layerByte layer).setWidth 16).toNat < 32 := by
    rw [toNat_layerByte]
    exact layer_lt layer
  obtain ⟨kind, code, val, visible⟩ := layerTap_fields few small
  exact ⟨⟨kind, val.trans (setWidth_byte _), visible⟩, code.trans (setWidth_byte _)⟩

/-- A page of keycodes with the layer in the low byte. -/
theorem page_keycode {page : BitVec 16} (aligned : 2 ^ 8 ∣ page.toNat) (layer : Fin cfg.maxLayer) :
    (page ||| (layerByte layer).setWidth 16).toNat = page.toNat + layer.val ∧
      (page ||| (layerByte layer).setWidth 16) &&& 0xFF = (layerByte layer).setWidth 16 := by
  have value := toNat_layerByte layer
  have small := layer_lt layer
  have joined : (page ||| (layerByte layer).setWidth 16).toNat = page.toNat + layer.val := by
    rw [toNat_or_low aligned (by omega), value]
  refine ⟨joined, BitVec.eq_of_toNat_eq ?_⟩
  rw [toNat_low, joined, value]
  obtain ⟨number, page⟩ := aligned
  omega

theorem transparent_means :
    Means (actionForKeycode options config 1) (.transparent : Binding cfg) := by
  have same : actionForKeycode options config 1 = actionTransparent := by
    have stays : keycodeConfig config 1 = 1 := rfl
    have noBasic : ¬(among 1 0x04 0xA4 = true ∨ among 1 kcLeftCtrl kcRightGui = true) := by decide
    have mouse : (1 : Keycode).toNat < options.kcMsUp.toNat := by
      rw [Options.kcMsUp]
      split <;> decide
    rw [actionForKeycode, stays, translate, if_neg noBasic, case_early (by decide),
      case_early (by decide), case_early mouse, if_pos rfl]
  rw [same]
  refine ⟨iff_of_true rfl rfl, by decide, ?_, ?_⟩
  · intro build record layers on shows
    exact shows
  · intro record layers on shows
    exact shows

/-- Every key of a keymap does what it means. -/
theorem binding_means (on : options.actionLayer = true) (binding : Binding cfg) :
    Means (actionForKeycode options config binding.keycode) binding := by
  cases binding with
  | transparent => exact transparent_means
  | plain keycode =>
    exact quiet_means (plain_quiet keycode.property) (fun _ _ _ => rfl) (fun _ _ => rfl) (by simp)
  | moveTo layer =>
    have value := toNat_layerByte layer.val
    have small := layer.property
    have joined :
        (0x5010 ||| (layerByte layer.val).setWidth 16).toNat = 0x5010 + layer.val.val := by
      rw [@toNat_or_low _ _ 4 ⟨0x501, rfl⟩ (by omega), value]
      rfl
    have low : (0x5010 ||| (layerByte layer.val).setWidth 16) &&& 0xF =
        (layerByte layer.val).setWidth 16 := by
      apply BitVec.eq_of_toNat_eq
      rw [@toNat_masked 4 _ 0xF rfl, joined, value]
      omega
    have when :
        (0x5010 ||| (layerByte layer.val).setWidth 16) >>> 4 &&& 0x3 = BitVec.ofNat 16 1 := by
      apply BitVec.eq_of_toNat_eq
      rw [@toNat_masked 2 _ 0x3 rfl, BitVec.toNat_ushiftRight, Nat.shiftRight_eq_div_pow, joined]
      have one : (BitVec.ofNat 16 1).toNat = 1 := rfl
      omega
    have written : keycodeTo (layerByte layer.val) = 0x5010 ||| (layerByte layer.val).setWidth 16 :=
      rfl
    rw [Binding.keycode, written, action_to on (by omega), low, when, setWidth_byte]
    exact (bitop_fields ⟨layer.val, layer_lt layer.val⟩ 1).1.moves
  | momentary layer =>
    have small := layer_lt layer
    obtain ⟨value, low⟩ := @page_keycode _ 0x5100 ⟨0x51, rfl⟩ layer
    have page : (0x5100 : BitVec 16).toNat = 0x5100 := rfl
    obtain ⟨tap, code⟩ := tapKey_of layer opOnOff
    rw [Binding.keycode, keycodeMo, action_momentary on (by omega), low]
    exact tap.momentary code
  | setDefault layer =>
    have small := layer_lt layer
    obtain ⟨value, low⟩ := @page_keycode _ 0x5200 ⟨0x52, rfl⟩ layer
    have page : (0x5200 : BitVec 16).toNat = 0x5200 := rfl
    rw [Binding.keycode, keycodeDf, action_defLayer on (by omega), low, setWidth_byte]
    exact (bitop_fields ⟨layer, small⟩ 0).1.sets
  | toggle layer =>
    have small := layer_lt layer
    obtain ⟨value, low⟩ := @page_keycode _ 0x5300 ⟨0x53, rfl⟩ layer
    have page : (0x5300 : BitVec 16).toNat = 0x5300 := rfl
    rw [Binding.keycode, keycodeTg, action_toggle on (by omega), low, setWidth_byte]
    exact (bitop_fields ⟨layer, small⟩ 2).2.inverts
  | tapToggle layer =>
    have small := layer_lt layer
    obtain ⟨value, low⟩ := @page_keycode _ 0x5800 ⟨0x58, rfl⟩ layer
    have page : (0x5800 : BitVec 16).toNat = 0x5800 := rfl
    obtain ⟨tap, code⟩ := tapKey_of layer Tapping.opTapToggle
    rw [Binding.keycode, keycodeTt, action_tapToggle on (by omega), low]
    exact tap.toggles code
  | layerMod layer mods =>
    have value := toNat_layerByte layer.val
    have small := layer.property
    have nibble : ((layerByte layer.val).setWidth 16 &&& 0xF).toNat = layer.val.val := by
      rw [@toNat_masked 4 _ 0xF rfl, value]
      omega
    have modNibble : (mods.setWidth 16 &&& 0xF).toNat = mods.toNat % 16 := by
      rw [@toNat_masked 4 _ 0xF rfl, toNat_byte]
      norm_num
    have shifted :
        (((layerByte layer.val).setWidth 16 &&& 0xF) <<< 4).toNat = layer.val.val * 16 := by
      rw [@toNat_shifted _ 4 (by omega), nibble]
      norm_num
    have joined : (keycodeLm (layerByte layer.val) mods).toNat =
        0x5900 + layer.val.val * 16 + mods.toNat % 16 := by
      have page : (0x5900 ||| ((layerByte layer.val).setWidth 16 &&& 0xF) <<< 4).toNat =
          0x5900 + layer.val.val * 16 := by
        rw [@toNat_or_low _ _ 8 ⟨0x59, rfl⟩ (by omega), shifted]
        rfl
      rw [keycodeLm, @toNat_or_low _ _ 4 ⟨0x590 + layer.val.val, by omega⟩ (by omega), page,
        modNibble]
    have named : keycodeLm (layerByte layer.val) mods >>> 4 &&& 0xF =
        (layerByte layer.val).setWidth 16 := by
      apply BitVec.eq_of_toNat_eq
      rw [@toNat_masked 4 _ 0xF rfl, BitVec.toNat_ushiftRight, Nat.shiftRight_eq_div_pow, joined,
        value]
      omega
    rw [Binding.keycode, action_layerMod on (by omega), named]
    obtain ⟨kind, val, visible⟩ := @layerMods_fields ((layerByte layer.val).setWidth 16)
      ((modConfig config ((keycodeLm (layerByte layer.val) mods &&& 0xF).setWidth 8)).setWidth 16)
      (by omega) (by rw [toNat_byte]; exact BitVec.isLt _)
    exact layerMods_means kind (val.trans (setWidth_byte _)) visible
  | layerTap layer key =>
    have value := toNat_layerByte layer.val
    have small := layer.property
    have below := key.val.isLt
    have nibble : ((layerByte layer.val).setWidth 16 &&& 0xF).toNat = layer.val.val := by
      rw [@toNat_masked 4 _ 0xF rfl, value]
      omega
    have shifted : (((layerByte layer.val).setWidth 16 &&& 0xF) <<< 8).toNat =
        layer.val.val * 256 := by
      rw [@toNat_shifted _ 8 (by omega), nibble]
      norm_num
    have joined : (keycodeLt (layerByte layer.val) key).toNat =
        0x4000 + layer.val.val * 256 + key.val.toNat := by
      have page : (0x4000 ||| ((layerByte layer.val).setWidth 16 &&& 0xF) <<< 8).toNat =
          0x4000 + layer.val.val * 256 := by
        rw [@toNat_or_low _ _ 12 ⟨4, rfl⟩ (by omega), shifted]
        rfl
      have byte := toNat_byte key
      rw [keycodeLt, @toNat_or_low _ _ 8 ⟨0x40 + layer.val.val, by omega⟩ (by omega), page, byte]
    have named : keycodeLt (layerByte layer.val) key >>> 8 &&& 0xF =
        (layerByte layer.val).setWidth 16 := by
      apply BitVec.eq_of_toNat_eq
      rw [@toNat_masked 4 _ 0xF rfl, toNat_high, joined, value]
      omega
    have low : keycodeLt (layerByte layer.val) key &&& 0xFF = key.val.setWidth 16 := by
      apply BitVec.eq_of_toNat_eq
      rw [toNat_low, joined, toNat_byte]
      omega
    obtain ⟨tap, code⟩ := tapKey_of layer.val key
    rw [Binding.keycode, action_layerTap on (by omega), named, low]
    exact tap.tapped code

end Translated

end Meaning

end QmkSonix.Keycodes
