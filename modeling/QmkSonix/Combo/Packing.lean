import QmkSonix.Combo.Flush
import QmkSonix.Combo.Short

/-! The packed combos stand for those with fields of their own, as long as no key has
the number of a flag. -/

namespace QmkSonix.Combo.Short

open Lib QmkSonix.Combo

variable {cfg : Config} {World : Type*} {host : Host World}

/-! ### The key bits of the packed byte -/

/-- The key bits in a field of their own. -/
def keyBits (bits : Nat) (combo : BitVec 8) : BitVec bits := (comboState combo).setWidth bits

theorem toNat_comboState (combo : BitVec 8) : (comboState combo).toNat = combo.toNat % 64 := by
  rw [comboState, BitVec.toNat_and]
  exact Nat.and_two_pow_sub_one_eq_mod combo.toNat 6

theorem getLsbD_comboState (combo : BitVec 8) (key : Nat) :
    (comboState combo).getLsbD key = (decide (key < 6) && combo.getLsbD key) := by
  rw [BitVec.getLsbD, toNat_comboState, show 64 = 2 ^ 6 from rfl, Nat.testBit_mod_two_pow]
  rfl

theorem keyNotYetReleased_eq {width : Nat} (state : BitVec width) {key : Nat}
    (inside : key < width) : keyNotYetReleased state key = state.getLsbD key := by
  have bit : (BitVec.twoPow width key).toNat ≠ 0 := by
    rw [BitVec.toNat_twoPow_of_lt inside]
    exact Nat.two_pow_pos key |>.ne'
  rw [keyNotYetReleased, BitVec.twoPow_and]
  cases held : state.getLsbD key with
  | false => simp
  | true => simpa using fun zero => bit (congrArg BitVec.toNat zero)

theorem onlyOneKeyIsDown_eq {width : Nat} (state : BitVec width) :
    onlyOneKeyIsDown state = decide (state.toNat &&& (state.toNat - 1) = 0) := by
  rw [onlyOneKeyIsDown, decide_eq_decide]
  by_cases none : state = 0
  · simp [none]
  · have positive : state.toNat ≠ 0 := fun zero => none (BitVec.toNat_inj.mp (by simpa using zero))
    have some_le : (1 : BitVec width) ≤ state := by
      rw [BitVec.le_def]
      exact le_trans (Nat.mod_le _ _) (Nat.one_le_iff_ne_zero.mpr positive)
    have inside : 1 < 2 ^ width := by
      have small := state.isLt
      omega
    rw [← BitVec.toNat_inj, BitVec.toNat_and, BitVec.toNat_sub_of_le some_le]
    simp [Nat.mod_eq_of_lt inside]

section Bits

variable {bits : Nat} (wide : 6 ≤ bits)

include wide

theorem toNat_keyBits (combo : BitVec 8) : (keyBits bits combo).toNat = combo.toNat % 64 := by
  have fits : 2 ^ 6 ≤ 2 ^ bits := Nat.pow_le_pow_right (by decide) wide
  rw [keyBits, BitVec.toNat_setWidth, toNat_comboState]
  exact Nat.mod_eq_of_lt (lt_of_lt_of_le (Nat.mod_lt _ (by decide)) fits)

theorem getLsbD_keyBits (combo : BitVec 8) (key : Nat) :
    (keyBits bits combo).getLsbD key = (decide (key < 6) && combo.getLsbD key) := by
  rw [BitVec.getLsbD, toNat_keyBits wide, show 64 = 2 ^ 6 from rfl, Nat.testBit_mod_two_pow]
  rfl

theorem keyBits_keyStateDown (combo : BitVec 8) {key : Nat} (key_lt : key < 6) :
    keyBits bits (keyStateDown combo key) = keyStateDown (keyBits bits combo) key := by
  apply BitVec.eq_of_getLsbD_eq
  intro bit inside
  simp only [getLsbD_keyBits wide, keyStateDown, BitVec.getLsbD_or, BitVec.getLsbD_twoPow]
  by_cases same : key = bit
  · subst same
    simp [key_lt, inside, (by omega : key < 8)]
  · simp [same]

theorem keyBits_keyStateUp (combo : BitVec 8) {key : Nat} (key_lt : key < 6) :
    keyBits bits (keyStateUp combo key) = keyStateUp (keyBits bits combo) key := by
  apply BitVec.eq_of_getLsbD_eq
  intro bit inside
  simp only [getLsbD_keyBits wide, keyStateUp, BitVec.getLsbD_and, BitVec.getLsbD_not,
    BitVec.getLsbD_twoPow]
  by_cases same : key = bit
  · subst same
    simp [inside, (by omega : key < 8)]
  · by_cases keyBit : bit < 6
    · simp [same, inside, keyBit, (by omega : bit < 8)]
    · simp [keyBit]

theorem allComboKeysAreDown_keyBits (combo : BitVec 8) (keyCount : Nat) :
    allComboKeysAreDown (keyBits bits combo) keyCount =
      allComboKeysAreDown (comboState combo) keyCount := by
  rw [allComboKeysAreDown, allComboKeysAreDown, toNat_keyBits wide, toNat_comboState]

theorem keyNotYetReleased_keyBits (combo : BitVec 8) {key : Nat} (key_lt : key < 6) :
    keyNotYetReleased (keyBits bits combo) key = keyNotYetReleased (comboState combo) key := by
  rw [keyNotYetReleased_eq _ (by omega), keyNotYetReleased_eq _ (by omega),
    getLsbD_keyBits wide, getLsbD_comboState]

theorem onlyOneKeyIsDown_keyBits (combo : BitVec 8) :
    onlyOneKeyIsDown (keyBits bits combo) = onlyOneKeyIsDown (comboState combo) := by
  rw [onlyOneKeyIsDown_eq, onlyOneKeyIsDown_eq, toNat_keyBits wide, toNat_comboState]

end Bits

/-! ### The packed byte as a combo with fields of its own -/

/-- The three fields of a packed byte. -/
def unpack (bits : Nat) (combo : BitVec 8) : Progress bits where
  state := keyBits bits combo
  active := comboActive combo
  disabled := comboDisabled combo

section Unpack

variable {bits : Nat}

/-- What the flags and the keys of a packed byte become. A key below 6 has no flag's bit. -/
theorem packed_fields : ∀ combo : BitVec 8,
    (comboState (disable combo) = comboState combo ∧
      comboActive (disable combo) = comboActive combo ∧ comboDisabled (disable combo) = true) ∧
    (comboState (activate combo) = comboState combo ∧ comboActive (activate combo) = true ∧
      comboDisabled (activate combo) = comboDisabled combo) ∧
    (comboState (deactivate combo) = comboState combo ∧ comboActive (deactivate combo) = false ∧
      comboDisabled (deactivate combo) = comboDisabled combo) ∧
    (comboState (resetState combo) = 0 ∧ comboActive (resetState combo) = comboActive combo ∧
      comboDisabled (resetState combo) = false) ∧
    ∀ key : Fin 6,
      (comboActive (keyStateDown combo key) = comboActive combo ∧
        comboDisabled (keyStateDown combo key) = comboDisabled combo) ∧
      comboActive (keyStateUp combo key) = comboActive combo ∧
        comboDisabled (keyStateUp combo key) = comboDisabled combo := by
  decide +kernel

theorem unpack_disable (combo : BitVec 8) :
    unpack bits (disable combo) = { unpack bits combo with disabled := true } := by
  obtain ⟨state, active, disabled⟩ := (packed_fields combo).1
  simp only [unpack, keyBits, state, active, disabled]

theorem unpack_activate (combo : BitVec 8) :
    unpack bits (activate combo) = { unpack bits combo with active := true } := by
  obtain ⟨state, active, disabled⟩ := (packed_fields combo).2.1
  simp only [unpack, keyBits, state, active, disabled]

theorem unpack_deactivate (combo : BitVec 8) :
    unpack bits (deactivate combo) = { unpack bits combo with active := false } := by
  obtain ⟨state, active, disabled⟩ := (packed_fields combo).2.2.1
  simp only [unpack, keyBits, state, active, disabled]

theorem unpack_resetState (combo : BitVec 8) :
    unpack bits (resetState combo) =
      { unpack bits combo with disabled := false, state := 0 } := by
  obtain ⟨state, active, disabled⟩ := (packed_fields combo).2.2.2.1
  simp [unpack, keyBits, state, active, disabled]

/-- A key whose number is no flag's leaves both flags. -/
theorem flags_keyState (combo : BitVec 8) {key : Nat} (key_lt : key < 6) :
    (comboActive (keyStateDown combo key) = comboActive combo ∧
        comboDisabled (keyStateDown combo key) = comboDisabled combo) ∧
      comboActive (keyStateUp combo key) = comboActive combo ∧
        comboDisabled (keyStateUp combo key) = comboDisabled combo :=
  (packed_fields combo).2.2.2.2 ⟨key, key_lt⟩

theorem unpack_keyStateDown (wide : 6 ≤ bits) (combo : BitVec 8) {key : Nat} (key_lt : key < 6) :
    unpack bits (keyStateDown combo key) =
      { unpack bits combo with state := keyStateDown (unpack bits combo).state key } := by
  obtain ⟨⟨active, disabled⟩, -⟩ := flags_keyState combo key_lt
  simp only [unpack, keyBits_keyStateDown wide combo key_lt, active, disabled]

theorem unpack_keyStateUp (wide : 6 ≤ bits) (combo : BitVec 8) {key : Nat} (key_lt : key < 6) :
    unpack bits (keyStateUp combo key) =
      { unpack bits combo with state := keyStateUp (unpack bits combo).state key } := by
  obtain ⟨-, active, disabled⟩ := flags_keyState combo key_lt
  simp only [unpack, keyBits_keyStateUp wide combo key_lt, active, disabled]

end Unpack

/-- The state of the other build that a state stands for. -/
def State.view (s : State cfg World) : Combo.State cfg World where
  timer := s.timer
  comboEnabled := s.comboEnabled
  longestTerm := s.longestTerm
  keyBuffer := s.keyBuffer
  comboBufferWrite := s.comboBufferWrite
  comboBufferRead := s.comboBufferRead
  comboBuffer := s.comboBuffer
  combos := fun index => unpack cfg.stateBits (s.combos index)
  world := s.world

/-- Wherever a keycode is found in a combo, it has the number of a key bit. -/
def Keyed (cfg : Config) (keycode : BitVec 16) : Prop :=
  ∀ index keyIndex, (findKeyIndexAndCount (cfg.keyCombo index).keys keycode).1 = some keyIndex →
    keyIndex < 6

/-- The keys of the key buffer are keyed. -/
def Fits (s : State cfg World) : Prop := ∀ qrecord ∈ s.keyBuffer, Keyed cfg qrecord.keycode

variable {s : State cfg World}

theorem view_update (s : State cfg World) (index : Nat) {change : BitVec 8 → BitVec 8}
    {same : Progress cfg.stateBits → Progress cfg.stateBits}
    (commutes : unpack cfg.stateBits (change (s.combos index)) =
      same (unpack cfg.stateBits (s.combos index))) :
    (s.update index change).view = s.view.update index same := by
  have combos : (fun other => unpack cfg.stateBits
        (Function.update s.combos index (change (s.combos index)) other)) =
      Function.update s.view.combos index (same (s.view.combos index)) := by
    funext other
    by_cases here : other = index
    · subst here
      simpa [State.view] using commutes
    · simp [State.view, here]
  simp only [State.view, State.update, Combo.State.update, combos]

theorem view_disableCombo (s : State cfg World) (index : Nat) :
    (disableCombo s index).view = Combo.disableCombo s.view index :=
  view_update s index (unpack_disable _)

theorem view_activate (s : State cfg World) (index : Nat) :
    (s.update index activate).view =
      s.view.update index fun combo => { combo with active := true } :=
  view_update s index (unpack_activate _)

theorem view_deactivate (s : State cfg World) (index : Nat) :
    (s.update index deactivate).view =
      s.view.update index fun combo => { combo with active := false } :=
  view_update s index (unpack_deactivate _)

theorem view_keyStateDown (wide : 6 ≤ cfg.stateBits) (s : State cfg World) (index : Nat)
    {key : Nat} (key_lt : key < 6) :
    (s.update index fun combo => keyStateDown combo key).view =
      s.view.update index fun combo => { combo with state := keyStateDown combo.state key } :=
  view_update s index (unpack_keyStateDown wide _ key_lt)

theorem view_keyStateUp (wide : 6 ≤ cfg.stateBits) (s : State cfg World) (index : Nat)
    {key : Nat} (key_lt : key < 6) :
    (s.update index fun combo => keyStateUp combo key).view =
      s.view.update index fun combo => { combo with state := keyStateUp combo.state key } :=
  view_update s index (unpack_keyStateUp wide _ key_lt)

theorem view_releaseCombo (now : BitVec 16) (s : State cfg World) (index : Nat) :
    (releaseCombo host now s index).view = Combo.releaseCombo host now s.view index := by
  rw [releaseCombo, view_deactivate]
  rfl

theorem view_clearCombos (s : State cfg World) :
    (clearCombos s).view = Combo.clearCombos s.view := by
  have combos : (fun index => unpack cfg.stateBits
        (if comboActive (s.combos index) then s.combos index else resetState (s.combos index))) =
      fun index => if (s.view.combos index).active then s.view.combos index
        else { s.view.combos index with disabled := false, state := 0 } := by
    funext index
    rw [apply_ite (unpack cfg.stateBits), unpack_resetState]
    rfl
  simp only [State.view, clearCombos, Combo.clearCombos] at combos ⊢
  rw [combos]

theorem view_dumpKeyBuffer (s : State cfg World) :
    (dumpKeyBuffer host s).view = Combo.dumpKeyBuffer host s.view := rfl

theorem view_dropFrom (comboIndex steps i : Nat) (s : State cfg World) :
    (dropFrom comboIndex steps i s).view = Combo.dropFrom comboIndex steps i s.view := by
  induction steps generalizing i with
  | zero => rfl
  | succ steps ih =>
    have disabled := view_disableCombo s comboIndex
    rw [dropFrom, Combo.dropFrom, apply_ite State.view]
    refine if_congr Iff.rfl rfl ?_
    rw [apply_ite State.view]
    refine if_congr Iff.rfl ?_ (ih _)
    dsimp only
    rw [apply_ite State.view, ← disabled]
    rfl

theorem view_dropComboFromBuffer (s : State cfg World) (comboIndex : Nat) :
    (dropComboFromBuffer s comboIndex).view = Combo.dropComboFromBuffer s.view comboIndex :=
  view_dropFrom _ _ _ s

/-- The own `state` of `apply_combo`, in either width. It has no flags. -/
theorem applyToKeys_keyBits {bits : Nat} (wide : 6 ≤ bits) (comboIndex : Nat)
    (state : BitVec 8) (plain : comboState state = state) (keyBuffer : List QueuedRecord)
    (fits : ∀ qrecord ∈ keyBuffer, Keyed cfg qrecord.keycode) :
    applyToKeys (cfg.keyCombo comboIndex) comboIndex state keyBuffer =
      applyToKeys (cfg.keyCombo comboIndex) comboIndex (keyBits bits state) keyBuffer := by
  induction keyBuffer generalizing state with
  | nil => rfl
  | cons qrecord rest ih =>
    have others : ∀ later ∈ rest, Keyed cfg later.keycode :=
      fun later member => fits later (List.mem_cons_of_mem qrecord member)
    have keyed := fits qrecord List.mem_cons_self comboIndex
    rw [applyToKeys, applyToKeys]
    rcases found : findKeyIndexAndCount (cfg.keyCombo comboIndex).keys qrecord.keycode with
      ⟨_ | keyIndex, keyCount⟩
    · dsimp only
      rw [ih state plain others]
    · have key_lt : keyIndex < 6 := keyed keyIndex (by rw [found])
      have down : comboState (keyStateDown state keyIndex) = keyStateDown state keyIndex := by
        have widened : keyBits 8 (keyStateDown state keyIndex) = _ :=
        keyBits_keyStateDown (by decide) state key_lt
        rwa [keyBits, keyBits, BitVec.setWidth_eq, BitVec.setWidth_eq, plain] at widened
      dsimp only
      rw [← keyBits_keyStateDown wide state key_lt, allComboKeysAreDown_keyBits wide, down,
        ih _ down others]

theorem view_applyCombo (wide : 6 ≤ cfg.stateBits) (fits : Fits s) (comboIndex : Nat) :
    (applyCombo s comboIndex).view = Combo.applyCombo s.view comboIndex := by
  have applied := applyToKeys_keyBits wide comboIndex 0 rfl s.keyBuffer fits
  have blank : keyBits cfg.stateBits 0 = 0 := by
    rw [keyBits]
    exact BitVec.setWidth_zero _ _
  rw [blank] at applied
  rw [applyCombo, Combo.applyCombo, apply_ite State.view]
  refine if_congr Iff.rfl rfl ?_
  dsimp only
  rw [view_dropComboFromBuffer, apply_ite State.view, view_activate, applied]
  rfl

/-! ### Keycodes of the key buffer -/

theorem dropFrom_keyBuffer (comboIndex steps i : Nat) (s : State cfg World) :
    (dropFrom comboIndex steps i s).keyBuffer = s.keyBuffer := by
  induction steps generalizing i with
  | zero => rfl
  | succ steps ih =>
    rw [dropFrom]
    split
    · rfl
    · split
      · dsimp only
        split
        · rfl
        · rfl
      · exact ih _

theorem applyToKeys_fits {bits : Nat} (combo : Chord) (comboIndex : Nat) (state : BitVec bits)
    {keyBuffer : List QueuedRecord} (fits : ∀ qrecord ∈ keyBuffer, Keyed cfg qrecord.keycode) :
    ∀ qrecord ∈ (applyToKeys combo comboIndex state keyBuffer).1, Keyed cfg qrecord.keycode := by
  induction keyBuffer generalizing state with
  | nil => exact fits
  | cons qrecord rest ih =>
    obtain ⟨first, others⟩ := List.forall_mem_cons.mp fits
    rw [applyToKeys]
    split
    · exact List.forall_mem_cons.mpr ⟨first, ih state others⟩
    · dsimp only
      split
      · exact List.forall_mem_cons.mpr ⟨first, others⟩
      · exact List.forall_mem_cons.mpr ⟨first, ih _ others⟩

theorem Fits.applyCombo (fits : Fits s) (comboIndex : Nat) : Fits (applyCombo s comboIndex) := by
  have applied := applyToKeys_fits (cfg.keyCombo comboIndex) comboIndex (0 : BitVec 8) fits
  unfold Fits Short.applyCombo
  split
  · exact fits
  · dsimp only
    rw [dropComboFromBuffer, dropFrom_keyBuffer]
    split
    · exact applied
    · exact applied

theorem Fits.applyFrom (fits : Fits s) (steps i : Nat) : Fits (applyFrom steps i s) := by
  induction steps generalizing i s with
  | zero => exact fits
  | succ steps ih =>
    rw [Short.applyFrom]
    split
    · exact fits
    · exact ih (fits.applyCombo _) _

/-! ### The rest of the functions -/

theorem view_applyFrom (wide : 6 ≤ cfg.stateBits) (fits : Fits s) (steps i : Nat) :
    (applyFrom steps i s).view = Combo.applyFrom steps i s.view := by
  induction steps generalizing i s with
  | zero => rfl
  | succ steps ih =>
    rw [applyFrom, Combo.applyFrom, apply_ite State.view]
    refine if_congr Iff.rfl rfl ?_
    rw [ih (fits.applyCombo _), view_applyCombo wide fits]
    rfl

theorem view_applyCombos (host : Host World) (wide : 6 ≤ cfg.stateBits) (fits : Fits s) :
    (applyCombos host s).view = Combo.applyCombos host s.view := by
  rw [applyCombos, Combo.applyCombos, view_clearCombos, view_dumpKeyBuffer,
    view_applyFrom wide fits]
  rfl

/-- What a function of the loop returns, seen as the other build's. -/
def viewResult (result : State cfg World × Bool) : Combo.State cfg World × Bool :=
  (result.1.view, result.2)

theorem view_dropOverlaps (comboIndex steps i : Nat) (s : State cfg World) :
    viewResult (dropOverlaps comboIndex steps i s) =
      Combo.dropOverlaps comboIndex steps i s.view := by
  induction steps generalizing i s with
  | zero => rfl
  | succ steps ih =>
    unfold dropOverlaps Combo.dropOverlaps
    rw [apply_ite viewResult]
    refine if_congr Iff.rfl rfl ?_
    have buffer : s.view.comboBuffer = s.comboBuffer := rfl
    dsimp only
    rw [buffer]
    cases overlaps (cfg.keyCombo (s.comboBuffer i)) (cfg.keyCombo comboIndex) (s.comboBuffer i)
        comboIndex with
    | none => exact ih _ s
    | some drop =>
      have disabled := view_disableCombo s drop
      rw [apply_ite viewResult, apply_ite viewResult]
      refine if_congr Iff.rfl (congrArg (·, true) disabled) (if_congr Iff.rfl ?_ ?_)
      · rw [ih]
        exact congrArg (fun t : Combo.State cfg World =>
          Combo.dropOverlaps comboIndex steps (cfg.incrementMod i)
            { t with comboBufferRead := cfg.incrementMod s.comboBufferRead }) disabled
      · rw [ih]
        exact congrArg (Combo.dropOverlaps comboIndex steps (cfg.incrementMod i)) disabled

theorem view_readyCombo (now : BitVec 16) (s : State cfg World) (comboIndex : Nat) :
    (readyCombo now s comboIndex).view = Combo.readyCombo now s.view comboIndex := by
  have dropped := view_dropOverlaps comboIndex cfg.comboBufferLength s.comboBufferRead s
  rw [readyCombo, Combo.readyCombo, apply_ite State.view]
  refine if_congr Iff.rfl (view_disableCombo s comboIndex) ?_
  dsimp only
  rw [apply_ite State.view]
  have state := congrArg Prod.fst dropped
  have which := congrArg Prod.snd dropped
  refine if_congr (Iff.of_eq (congrArg (· = true) which)) state ?_
  exact congrArg (fun t : Combo.State cfg World =>
    { t with
      comboBuffer := Function.update t.comboBuffer t.comboBufferWrite comboIndex
      comboBufferWrite := cfg.incrementMod t.comboBufferWrite }) state

theorem view_pressComboKey (wide : 6 ≤ cfg.stateBits) (now : BitVec 16) (s : State cfg World)
    (comboIndex : Nat) {keyIndex : Nat} (key_lt : keyIndex < 6) (keyCount : Nat) :
    (pressComboKey now s comboIndex keyIndex keyCount).view =
      Combo.pressComboKey now s.view comboIndex keyIndex keyCount := by
  have down := view_keyStateDown wide s comboIndex key_lt
  have pressed : State.view (if comboActive (s.combos comboIndex) then s
      else
        { s.update comboIndex fun combo => keyStateDown combo keyIndex with
          longestTerm := if s.longestTerm < cfg.comboTerm then cfg.comboTerm else s.longestTerm }) =
      keyPressed s.view comboIndex keyIndex := by
    rw [keyPressed, apply_ite State.view]
    refine if_congr Iff.rfl rfl ?_
    exact congrArg (fun t : Combo.State cfg World =>
      { t with
        longestTerm := if s.longestTerm < cfg.comboTerm then cfg.comboTerm else s.longestTerm })
      down
  rw [pressComboKey_eq, ← pressed, pressComboKey]
  dsimp only
  rw [apply_ite State.view, view_readyCombo]
  refine if_congr ?_ rfl rfl
  exact Iff.of_eq (congrArg (· = true) (allComboKeysAreDown_keyBits wide _ keyCount).symm)

theorem view_releaseComboKey (wide : 6 ≤ cfg.stateBits) (now : BitVec 16) (s : State cfg World)
    (comboIndex : Nat) {keyIndex : Nat} (key_lt : keyIndex < 6) (keyCount : Nat) :
    viewResult (releaseComboKey host now s comboIndex keyIndex keyCount) =
      Combo.releaseComboKey host now s.view comboIndex keyIndex keyCount := by
  let combo := s.combos comboIndex
  have one := onlyOneKeyIsDown_keyBits wide combo
  have held := keyNotYetReleased_keyBits wide combo key_lt
  have quick : (!comboActive combo && allComboKeysAreDown (comboState combo) keyCount) =
      (!comboActive combo && allComboKeysAreDown (keyBits cfg.stateBits combo) keyCount) := by
    rw [allComboKeysAreDown_keyBits wide]
  have last : (comboActive combo && onlyOneKeyIsDown (comboState combo) &&
        keyNotYetReleased (comboState combo) keyIndex) =
      (comboActive combo && onlyOneKeyIsDown (keyBits cfg.stateBits combo) &&
        keyNotYetReleased (keyBits cfg.stateBits combo) keyIndex) := by
    rw [one, held]
  have middle : (comboActive combo && keyNotYetReleased (comboState combo) keyIndex) =
      (comboActive combo && keyNotYetReleased (keyBits cfg.stateBits combo) keyIndex) := by
    rw [held]
  have up (left : State cfg World × Bool) (other : Combo.State cfg World × Bool)
      (same : viewResult left = other) :
      viewResult (left.1.update comboIndex fun combo => keyStateUp combo keyIndex, left.2) =
        (other.1.update comboIndex fun combo =>
          { combo with state := keyStateUp combo.state keyIndex }, other.2) := by
    subst same
    exact congrArg (·, left.2) (view_keyStateUp wide left.1 comboIndex key_lt)
  unfold releaseComboKey Combo.releaseComboKey
  refine up _ _ ?_
  rw [apply_ite viewResult, apply_ite viewResult, apply_ite viewResult, apply_ite viewResult]
  refine if_congr (Iff.of_eq (congrArg (· = true) quick)) (if_congr Iff.rfl ?_ rfl)
    (if_congr (Iff.of_eq (congrArg (· = true) last)) ?_
      (if_congr (Iff.of_eq (congrArg (· = true) middle)) rfl rfl))
  · exact congrArg (·, false) (view_dropComboFromBuffer s comboIndex)
  · exact congrArg (·, true) (view_releaseCombo now s comboIndex)

theorem view_processSingleCombo (host : Host World) (wide : 6 ≤ cfg.stateBits) (now : BitVec 16) (s : State cfg World)
    {keycode : BitVec 16} (keyed : Keyed cfg keycode) (record : Record) (comboIndex : Nat) :
    viewResult (processSingleCombo host now s keycode record comboIndex) =
      Combo.processSingleCombo host now s.view keycode record comboIndex := by
  have inside := keyed comboIndex
  unfold processSingleCombo Combo.processSingleCombo
  rcases found : findKeyIndexAndCount (cfg.keyCombo comboIndex).keys keycode with
    ⟨_ | keyIndex, keyCount⟩
  · rfl
  · have key_lt : keyIndex < 6 := inside keyIndex (by rw [found])
    dsimp only
    rw [apply_ite viewResult]
    refine if_congr Iff.rfl ?_ (view_releaseComboKey wide now s comboIndex key_lt keyCount)
    exact congrArg (·, true) (view_pressComboKey wide now s comboIndex key_lt keyCount)

theorem view_processCombosFrom (host : Host World) (wide : 6 ≤ cfg.stateBits) (now : BitVec 16) {keycode : BitVec 16}
    (keyed : Keyed cfg keycode) (record : Record) (indices : List Nat) (s : State cfg World) :
    viewResult (processCombosFrom host now keycode record indices s) =
      Combo.processCombosFrom host now keycode record indices s.view := by
  induction indices generalizing s with
  | nil => rfl
  | cons index rest ih =>
    have single := view_processSingleCombo host wide now s keyed record index
    have others := ih (processSingleCombo host now s keycode record index).1
    rw [Combo.processCombosFrom, ← single]
    exact congrArg₂ Prod.mk (congrArg Prod.fst others)
      (congrArg ((processSingleCombo host now s keycode record index).2 || ·)
        (congrArg Prod.snd others))

theorem processCombosFrom_keyBuffer (host : Host World) (wide : 6 ≤ cfg.stateBits) (now : BitVec 16)
    {keycode : BitVec 16} (keyed : Keyed cfg keycode) (record : Record) (indices : List Nat)
    (s : State cfg World) :
    (processCombosFrom host now keycode record indices s).1.keyBuffer = s.keyBuffer := by
  have same := congrArg (fun result => result.1.keyBuffer)
    (view_processCombosFrom host wide now keyed record indices s)
  exact same.trans (untimed_processCombosFrom host now keycode record indices s.view).keyBuffer

theorem view_comboDisable (s : State cfg World) :
    (comboDisable host s).view = Combo.comboDisable host s.view := by
  rw [comboDisable, view_dumpKeyBuffer, view_clearCombos]
  rfl

theorem view_comboToggle (s : State cfg World) :
    (comboToggle host s).view = Combo.comboToggle host s.view := by
  rw [comboToggle, Combo.comboToggle, apply_ite State.view]
  exact if_congr Iff.rfl (view_comboDisable s) rfl

theorem view_settleKey (wide : 6 ≤ cfg.stateBits) (now : BitVec 16) (fits : Fits s)
    (keycode : BitVec 16) (record : Record) (isComboKey : Bool) :
    (settleKey host now s keycode record isComboKey).view =
      Combo.settleKey host now s.view keycode record isComboKey := by
  rw [settleKey, Combo.settleKey, apply_ite State.view, apply_ite State.view]
  refine if_congr Iff.rfl rfl (if_congr Iff.rfl (view_applyCombos host wide fits) ?_)
  rw [view_clearCombos]
  rfl

theorem view_processCombo (host : Host World) (wide : 6 ≤ cfg.stateBits) (now : BitVec 16) (fits : Fits s)
    {keycode : BitVec 16} (keyed : Keyed cfg keycode) (record : Record) :
    viewResult (processCombo host now s keycode record) =
      Combo.processCombo host now s.view keycode record := by
  have looped := view_processCombosFrom host wide now keyed record
    (List.range cfg.keyCombos.length) s
  have loopFits : Fits (processCombosFrom host now keycode record
      (List.range cfg.keyCombos.length) s).1 := by
    unfold Fits
    rw [processCombosFrom_keyBuffer host wide now keyed]
    exact fits
  rw [processCombo, Combo.processCombo, apply_ite viewResult, apply_ite viewResult,
    apply_ite viewResult]
  refine if_congr Iff.rfl rfl (if_congr Iff.rfl (congrArg (·, true) (view_comboDisable s))
    (if_congr Iff.rfl (congrArg (·, true) (view_comboToggle s)) ?_))
  dsimp only
  rw [← looped]
  exact congrArg (·, _) (view_settleKey wide now loopFits keycode record _)

theorem view_comboTask (wide : 6 ≤ cfg.stateBits) (now : BitVec 16) (fits : Fits s) :
    (comboTask host now s).view = Combo.comboTask host now s.view := by
  have applied := view_applyCombos host wide fits
  rw [comboTask, Combo.comboTask, apply_ite State.view, apply_ite State.view]
  refine if_congr Iff.rfl (if_congr Iff.rfl ?_ ?_) rfl
  · exact congrArg (fun t : Combo.State cfg World => { t with longestTerm := 0, timer := 0 }) applied
  · rw [view_clearCombos]
    rfl

theorem Fits.processCombo (wide : 6 ≤ cfg.stateBits) (now : BitVec 16) (fits : Fits s)
    {keycode : BitVec 16} (keyed : Keyed cfg keycode) (record : Record) :
    Fits (processCombo host now s keycode record).1 := by
  have looped := processCombosFrom_keyBuffer host wide now keyed record
    (List.range cfg.keyCombos.length) s
  have emptied {t : State cfg World} (empty : t.keyBuffer = []) : Fits t := by
    unfold Fits
    rw [empty]
    exact fun _ member => absurd member List.not_mem_nil
  unfold Short.processCombo
  split
  · exact fits
  · split
    · exact emptied rfl
    · split
      · unfold comboToggle
        split
        · exact emptied rfl
        · exact fits
      · dsimp only
        unfold settleKey
        split
        · unfold Fits
          dsimp only
          rw [looped]
          split
          · exact List.forall_mem_append.mpr ⟨fits, by simpa using keyed⟩
          · exact fits
        · split
          · exact emptied rfl
          · exact emptied rfl

theorem Fits.comboTask (now : BitVec 16) (fits : Fits s) : Fits (comboTask host now s) := by
  have emptied {t : State cfg World} (empty : t.keyBuffer = []) : Fits t := by
    unfold Fits
    rw [empty]
    exact fun _ member => absurd member List.not_mem_nil
  unfold Short.comboTask
  split
  · split
    · exact emptied rfl
    · exact emptied rfl
  · exact fits

/-! ### Runs -/

/-- A key event with the time of `timer_read`, a call of `combo_task`, or a command. -/
inductive Command where
  | processCombo (now keycode : BitVec 16) (record : Record)
  | comboTask (now : BitVec 16)
  | comboEnable
  | comboDisable
  | comboToggle

/-- A command to the packed build, beside what its calls of `process_combo` returned. -/
def Command.packed (host : Host World) (w : State cfg World × List Bool) :
    Command → State cfg World × List Bool
  | .processCombo now keycode record =>
    let result := Short.processCombo host now w.1 keycode record
    (result.1, w.2 ++ [result.2])
  | .comboTask now => (Short.comboTask host now w.1, w.2)
  | .comboEnable => (Short.comboEnable w.1, w.2)
  | .comboDisable => (Short.comboDisable host w.1, w.2)
  | .comboToggle => (Short.comboToggle host w.1, w.2)

/-- The same to the build with fields of their own. -/
def Command.plain (host : Host World) (w : Combo.State cfg World × List Bool) :
    Command → Combo.State cfg World × List Bool
  | .processCombo now keycode record =>
    let result := Combo.processCombo host now w.1 keycode record
    (result.1, w.2 ++ [result.2])
  | .comboTask now => (Combo.comboTask host now w.1, w.2)
  | .comboEnable => (Combo.comboEnable w.1, w.2)
  | .comboDisable => (Combo.comboDisable host w.1, w.2)
  | .comboToggle => (Combo.comboToggle host w.1, w.2)

/-- The event is none of `KC_NO`, which every combo takes for the key behind its last,
unless no combo has six keys. -/
def Command.named (cfg : Config) : Command → Prop
  | .processCombo _ keycode _ =>
    keycode = comboEnd → ∀ chord ∈ cfg.keyCombos, chord.keys.length ≠ 6
  | _ => True

/-- The end of the keys is found behind them. -/
theorem keyed_of_named (short : ∀ chord ∈ cfg.keyCombos, chord.keys.length ≤ 6)
    {keycode : BitVec 16}
    (named : keycode = comboEnd → ∀ chord ∈ cfg.keyCombos, chord.keys.length ≠ 6) :
    Keyed cfg keycode := by
  intro index keyIndex found
  have chord : (cfg.keyCombo index).keys = [] ∨ cfg.keyCombo index ∈ cfg.keyCombos := by
    rw [Config.keyCombo, List.getD_eq_getElem?_getD]
    cases entry : cfg.keyCombos[index]? with
    | none => exact .inl rfl
    | some chord => exact .inr (List.mem_of_getElem? entry)
  by_cases none : keycode = comboEnd
  · subst none
    rw [findKeyIndexAndCount, findKey_end, Option.some.injEq, Nat.zero_add] at found
    rcases chord with empty | member
    · rw [empty] at found
      exact found ▸ (by decide)
    · have most := short _ member
      have six := named rfl _ member
      omega
  · have inside := findKey_fst_lt none _ (fun _ early => by cases early) found
    rw [Nat.zero_add] at inside
    rcases chord with empty | member
    · rw [empty] at inside
      cases inside
    · exact lt_of_lt_of_le inside (short _ member)

theorem packed_simulates (wide : 6 ≤ cfg.stateBits)
    (short : ∀ chord ∈ cfg.keyCombos, chord.keys.length ≤ 6) (w : State cfg World × List Bool)
    (v : Combo.State cfg World × List Bool) (command : Command)
    (related : (w.1.view, w.2) = v ∧ Fits w.1) (named : command.named cfg) :
    ((command.packed host w).1.view, (command.packed host w).2) = command.plain host v ∧
      Fits (command.packed host w).1 := by
  obtain ⟨rfl, fits⟩ := related
  cases command with
  | processCombo now keycode record =>
    have keyed := keyed_of_named short named
    have same := view_processCombo host wide now fits keyed record
    refine ⟨?_, fits.processCombo wide now keyed record⟩
    exact congrArg₂ Prod.mk (congrArg Prod.fst same)
      (congrArg (w.2 ++ [·]) (congrArg Prod.snd same))
  | comboTask now => exact ⟨congrArg (·, w.2) (view_comboTask wide now fits), fits.comboTask now⟩
  | comboEnable => exact ⟨rfl, fits⟩
  | comboDisable =>
    exact ⟨congrArg (·, w.2) (view_comboDisable w.1), fun _ member => absurd member List.not_mem_nil⟩
  | comboToggle =>
    refine ⟨congrArg (·, w.2) (view_comboToggle w.1), ?_⟩
    unfold Fits Command.packed comboToggle
    dsimp only
    split
    · exact fun _ member => absurd member List.not_mem_nil
    · exact fits

/-- Unless a key event of `KC_NO` meets a combo of six keys, the packed build goes
through a run as the other does: it forwards and buffers the same and its combos have
the same keys down and the same flags. -/
theorem short_combos_pack (host : Host World) (wide : 6 ≤ cfg.stateBits)
    (short : ∀ chord ∈ cfg.keyCombos, chord.keys.length ≤ 6) (world : World)
    (commands : List Command) (named : ∀ command ∈ commands, command.named cfg) :
    ((run (Command.packed host) (({ world := world } : State cfg World), []) commands).1.view,
        (run (Command.packed host) (({ world := world } : State cfg World), []) commands).2) =
      run (Command.plain host) (boot cfg world, []) commands := by
  have blank : unpack cfg.stateBits 0 = {} := by
    have bits : keyBits cfg.stateBits 0 = 0 := BitVec.setWidth_zero _ _
    rw [unpack, bits]
    rfl
  have start : ({ world := world } : State cfg World).view = boot cfg world := by
    simp only [State.view, boot, blank]
  have initial : ((({ world := world } : State cfg World).view, ([] : List Bool)) =
      (boot cfg world, [])) ∧ Fits ({ world := world } : State cfg World) :=
    ⟨congrArg (·, []) start, fun _ member => absurd member List.not_mem_nil⟩
  exact (run_simulates (packed_simulates wide short) initial (along_of_mem named _)).1

/-- A combo of six keys. -/
def sixKeys : Config where
  keyCombos := [{ keys := [4, 5, 6, 7, 8, 9], keycode := 30 }]
  ringed := (by decide : 0 < 1 + 2 + 1)

/-- A press of a keycode. -/
def press (keycode : BitVec 16) : Command :=
  .processCombo 7 keycode { event := { key := { row := 0, col := 1 }, pressed := true, time := 7 } }

theorem six_keys_pack :
    ((run (Command.packed deaf) (({ world := () } : State sixKeys Unit), [])
          [press 4, press 5, press 6, press 7, press 8, press 9, .comboTask 80]).1.view,
        (run (Command.packed deaf) (({ world := () } : State sixKeys Unit), [])
          [press 4, press 5, press 6, press 7, press 8, press 9, .comboTask 80]).2) =
      run (Command.plain deaf) (boot sixKeys (), [])
        [press 4, press 5, press 6, press 7, press 8, press 9, .comboTask 80] :=
  short_combos_pack deaf (by decide) (by decide) () _
    (by simp [Command.named, press, comboEnd])

/-- A press of `KC_NO` sets the bit behind the sixth key, which disables the packed
combo: the next key is forwarded and no longer buffered. -/
theorem six_keys_leak :
    (∀ chord ∈ sixKeys.keyCombos, chord.keys.length ≤ 6) ∧
      (run (Command.packed deaf) (({ world := () } : State sixKeys Unit), [])
        [press 0, press 4]).2 = [false, true] ∧
      (run (Command.plain deaf) (boot sixKeys (), []) [press 0, press 4]).2 = [false, false] := by
  decide +kernel

end QmkSonix.Combo.Short
