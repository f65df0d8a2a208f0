import Mathlib
import QmkSonix.Lib.Ring
import QmkSonix.Lib.Run
import QmkSonix.Combo.Model

/-! The ring of the ready combos as a list, and what applying them leaves of it.
An entry leaves the ring only from its head, so that a disabled one holds up
all those behind it. -/

namespace QmkSonix.Combo

open Lib

variable {cfg : Config} {World : Type*} {host : Host World} {s : State cfg World}

/-- The combos in the ring, from `combo_buffer_read` to `combo_buffer_write`. -/
def State.pending (s : State cfg World) : List Nat :=
  stretch s.comboBuffer cfg.comboBufferLength s.comboBufferRead s.comboBufferWrite

/-- The indices of the ring are inside it. -/
structure Ringed (s : State cfg World) : Prop where
  read : s.comboBufferRead < cfg.comboBufferLength
  write : s.comboBufferWrite < cfg.comboBufferLength

theorem incrementMod_lt (cfg : Config) (i : Nat) : cfg.incrementMod i < cfg.comboBufferLength :=
  Nat.mod_lt _ cfg.ringed

theorem Ringed.pending_eq_nil_iff (ringed : Ringed s) :
    s.pending = [] ↔ s.comboBufferRead = s.comboBufferWrite :=
  stretch_eq_nil_iff ringed.read ringed.write

theorem Ringed.pending_cons (ringed : Ringed s) (more : s.comboBufferRead ≠ s.comboBufferWrite) :
    s.pending = s.comboBuffer s.comboBufferRead ::
      { s with comboBufferRead := cfg.incrementMod s.comboBufferRead }.pending :=
  stretch_cons ringed.read ringed.write more

theorem Ringed.length_pending_lt (ringed : Ringed s) :
    s.pending.length < cfg.comboBufferLength :=
  length_stretch_lt ringed.read ringed.write

theorem ring_walk {i : Nat} (inside : i < cfg.comboBufferLength)
    (written : s.comboBufferWrite < cfg.comboBufferLength) (more : i ≠ s.comboBufferWrite) :
    stretch s.comboBuffer cfg.comboBufferLength i s.comboBufferWrite = s.comboBuffer i ::
      stretch s.comboBuffer cfg.comboBufferLength (cfg.incrementMod i) s.comboBufferWrite :=
  stretch_cons inside written more

@[simp] theorem update_combos_self (s : State cfg World) (index : Nat)
    (change : Progress cfg.stateBits → Progress cfg.stateBits) :
    (s.update index change).combos index = change (s.combos index) := by
  simp [State.update]

theorem update_combos_of_ne (s : State cfg World) {index other : Nat} (apart : other ≠ index)
    (change : Progress cfg.stateBits → Progress cfg.stateBits) :
    (s.update index change).combos other = s.combos other := by
  simp [State.update, apart]

@[simp] theorem pending_update (s : State cfg World) (index : Nat)
    (change : Progress cfg.stateBits → Progress cfg.stateBits) :
    (s.update index change).pending = s.pending := rfl

@[simp] theorem pending_disableCombo (s : State cfg World) (index : Nat) :
    (disableCombo s index).pending = s.pending := rfl

/-! ### Dropping one combo -/

/-- Behind the head of the ring the loop only disables. -/
theorem dropFrom_behind (ringed : Ringed s) (comboIndex steps i : Nat)
    (inside : i < cfg.comboBufferLength)
    (behind : (stretch s.comboBuffer cfg.comboBufferLength i s.comboBufferWrite).length <
      s.pending.length)
    (enough : (stretch s.comboBuffer cfg.comboBufferLength i s.comboBufferWrite).length ≤ steps) :
    dropFrom comboIndex steps i s =
      if comboIndex ∈ stretch s.comboBuffer cfg.comboBufferLength i s.comboBufferWrite then
        disableCombo s comboIndex
      else s := by
  induction steps generalizing i with
  | zero =>
    have nothing := List.length_eq_zero_iff.mp (Nat.le_zero.mp enough)
    simp [dropFrom, nothing]
  | succ steps ih =>
    by_cases done : i = s.comboBufferWrite
    · simp [dropFrom, done]
    have walk := ring_walk inside ringed.write done
    rw [walk, List.length_cons] at behind enough
    rw [dropFrom, if_neg done, walk]
    by_cases found : s.comboBuffer i = comboIndex
    · have away : i ≠ s.comboBufferRead := by
        rintro rfl
        have whole : s.pending.length = _ := congrArg List.length walk
        rw [List.length_cons] at whole
        omega
      simp [found, away]
    · rw [if_neg found, ih _ (incrementMod_lt cfg i) (Nat.lt_of_succ_lt behind)
        (Nat.le_of_succ_le_succ enough)]
      simp only [List.mem_cons, Ne.symm found, false_or]

theorem dropComboFromBuffer_head (ringed : Ringed s) {comboIndex : Nat} {rest : List Nat}
    (pending : s.pending = comboIndex :: rest) :
    dropComboFromBuffer s comboIndex =
      { disableCombo s comboIndex with comboBufferRead := cfg.incrementMod s.comboBufferRead } ∧
      (dropComboFromBuffer s comboIndex).pending = rest := by
  have more : s.comboBufferRead ≠ s.comboBufferWrite := by
    intro same
    rw [ringed.pending_eq_nil_iff.mpr same] at pending
    cases pending
  have walk := ringed.pending_cons more
  rw [pending, List.cons.injEq] at walk
  obtain ⟨steps, size⟩ := Nat.exists_eq_succ_of_ne_zero cfg.ringed.ne'
  have dropped : dropComboFromBuffer s comboIndex =
      { disableCombo s comboIndex with
        comboBufferRead := cfg.incrementMod s.comboBufferRead } := by
    rw [dropComboFromBuffer, size, dropFrom, if_neg more]
    simp [← walk.1]
  refine ⟨dropped, ?_⟩
  rw [dropped, walk.2]
  rfl

theorem dropComboFromBuffer_behind (ringed : Ringed s) {comboIndex first : Nat} {rest : List Nat}
    (pending : s.pending = first :: rest) (apart : first ≠ comboIndex) :
    dropComboFromBuffer s comboIndex =
      if comboIndex ∈ rest then disableCombo s comboIndex else s := by
  have more : s.comboBufferRead ≠ s.comboBufferWrite := by
    intro same
    rw [ringed.pending_eq_nil_iff.mpr same] at pending
    cases pending
  have walk := ringed.pending_cons more
  have whole := ringed.length_pending_lt
  rw [pending, List.cons.injEq] at walk
  obtain ⟨steps, size⟩ := Nat.exists_eq_succ_of_ne_zero cfg.ringed.ne'
  have behind : rest = stretch s.comboBuffer cfg.comboBufferLength
      (cfg.incrementMod s.comboBufferRead) s.comboBufferWrite := walk.2
  rw [pending, List.length_cons, size] at whole
  have searched := dropFrom_behind ringed comboIndex steps
    (cfg.incrementMod s.comboBufferRead) (incrementMod_lt cfg _)
    (by rw [← behind, pending]; simp) (by rw [← behind]; omega)
  rw [← behind] at searched
  rw [dropComboFromBuffer, size, dropFrom, if_neg more, if_neg (walk.1 ▸ apart), searched]

theorem dropComboFromBuffer_absent (ringed : Ringed s) {comboIndex : Nat}
    (absent : comboIndex ∉ s.pending) : dropComboFromBuffer s comboIndex = s := by
  cases pending : s.pending with
  | nil =>
    have empty := ringed.pending_eq_nil_iff.mp pending
    obtain ⟨steps, size⟩ := Nat.exists_eq_succ_of_ne_zero cfg.ringed.ne'
    rw [dropComboFromBuffer, size, dropFrom, if_pos empty]
  | cons first rest =>
    rw [pending, List.mem_cons, not_or] at absent
    rw [dropComboFromBuffer_behind ringed pending (Ne.symm absent.1), if_neg absent.2]

theorem dropFrom_cases (comboIndex steps i : Nat) (s : State cfg World) :
    dropFrom comboIndex steps i s = s ∨ dropFrom comboIndex steps i s = disableCombo s comboIndex ∨
      dropFrom comboIndex steps i s =
        { disableCombo s comboIndex with
          comboBufferRead := cfg.incrementMod s.comboBufferRead } := by
  induction steps generalizing i with
  | zero => exact .inl rfl
  | succ steps ih =>
    rw [dropFrom]
    split
    · exact .inl rfl
    split
    · split
      · exact .inr (.inr rfl)
      · exact .inr (.inl rfl)
    · exact ih _

/-! ### Shedding combos -/

/-- Combos may be disabled or deactivated and their keys go up; disabled ones may
leave the ring at its head. -/
structure Sheds (s after : State cfg World) : Prop where
  comboBuffer : after.comboBuffer = s.comboBuffer
  comboBufferWrite : after.comboBufferWrite = s.comboBufferWrite
  keyBuffer : after.keyBuffer = s.keyBuffer
  ringed : Ringed s → Ringed after
  disabled : ∀ index, (s.combos index).disabled → (after.combos index).disabled
  active : ∀ index, (after.combos index).active → (s.combos index).active
  state : ∀ index key, (after.combos index).state.getLsbD key → (s.combos index).state.getLsbD key
  suffix : Ringed s → after.pending <:+ s.pending
  gone : Ringed s → ∀ index ∈ s.pending, index ∈ after.pending ∨ (after.combos index).disabled

theorem Sheds.refl (s : State cfg World) : Sheds s s :=
  ⟨rfl, rfl, rfl, id, fun _ => id, fun _ => id, fun _ _ => id, fun _ => List.suffix_rfl,
    fun _ _ member => .inl member⟩

theorem Sheds.trans {later after : State cfg World} (first : Sheds s after)
    (second : Sheds after later) : Sheds s later where
  comboBuffer := second.comboBuffer.trans first.comboBuffer
  comboBufferWrite := second.comboBufferWrite.trans first.comboBufferWrite
  keyBuffer := second.keyBuffer.trans first.keyBuffer
  ringed ringed := second.ringed (first.ringed ringed)
  disabled index disabled := second.disabled index (first.disabled index disabled)
  active index active := first.active index (second.active index active)
  state index key down := first.state index key (second.state index key down)
  suffix ringed := (second.suffix (first.ringed ringed)).trans (first.suffix ringed)
  gone ringed index member := by
    rcases first.gone ringed index member with stays | disabled
    · exact second.gone (first.ringed ringed) index stays
    · exact .inr (second.disabled index disabled)

/-- A change of the combos alone. -/
theorem sheds_of_combos {after : State cfg World} (comboBuffer : after.comboBuffer = s.comboBuffer)
    (comboBufferWrite : after.comboBufferWrite = s.comboBufferWrite)
    (comboBufferRead : after.comboBufferRead = s.comboBufferRead)
    (keyBuffer : after.keyBuffer = s.keyBuffer)
    (disabled : ∀ index, (s.combos index).disabled → (after.combos index).disabled)
    (active : ∀ index, (after.combos index).active → (s.combos index).active)
    (state : ∀ index key, (after.combos index).state.getLsbD key →
      (s.combos index).state.getLsbD key) : Sheds s after := by
  have pending : after.pending = s.pending := by
    rw [State.pending, State.pending, comboBuffer, comboBufferWrite, comboBufferRead]
  refine ⟨comboBuffer, comboBufferWrite, keyBuffer, ?_, disabled, active, state, ?_, ?_⟩
  · exact fun ringed => ⟨comboBufferRead ▸ ringed.read, comboBufferWrite ▸ ringed.write⟩
  · exact fun _ => pending ▸ List.suffix_rfl
  · exact fun _ index member => .inl (pending ▸ member)

/-- A combo that only loses what it had, or is disabled. -/
structure Weakens {bits : Nat} (combo after : Progress bits) : Prop where
  disabled : combo.disabled → after.disabled
  active : after.active → combo.active
  state : ∀ key, after.state.getLsbD key → combo.state.getLsbD key

theorem update_weakens {index : Nat} {change : Progress cfg.stateBits → Progress cfg.stateBits}
    (weakens : Weakens (s.combos index) (change (s.combos index))) (other : Nat) :
    Weakens (s.combos other) ((s.update index change).combos other) := by
  by_cases same : other = index
  · subst same
    rw [update_combos_self]
    exact weakens
  · rw [update_combos_of_ne s same]
    exact ⟨id, id, fun _ => id⟩

theorem sheds_update {index : Nat} {change : Progress cfg.stateBits → Progress cfg.stateBits}
    (weakens : Weakens (s.combos index) (change (s.combos index))) :
    Sheds s (s.update index change) :=
  sheds_of_combos rfl rfl rfl rfl (fun other => (update_weakens weakens other).disabled)
    (fun other => (update_weakens weakens other).active)
    (fun other => (update_weakens weakens other).state)

theorem weakens_disable {bits : Nat} (combo : Progress bits) :
    Weakens combo { combo with disabled := true } :=
  ⟨fun _ => rfl, id, fun _ => id⟩

theorem sheds_disableCombo (s : State cfg World) (index : Nat) :
    Sheds s (disableCombo s index) :=
  sheds_update (weakens_disable _)

/-- The head of the ring is disabled and leaves it. -/
theorem sheds_head (s : State cfg World) {index : Nat}
    (more : s.comboBufferRead ≠ s.comboBufferWrite)
    (head : s.comboBuffer s.comboBufferRead = index) :
    Sheds s { disableCombo s index with
      comboBufferRead := cfg.incrementMod s.comboBufferRead } := by
  have walk (ringed : Ringed s) : s.pending = index ::
      State.pending { disableCombo s index with
        comboBufferRead := cfg.incrementMod s.comboBufferRead } :=
    head ▸ ringed.pending_cons more
  have disables := sheds_disableCombo s index
  refine ⟨rfl, rfl, rfl, fun ringed => ⟨incrementMod_lt cfg _, ringed.write⟩,
    disables.disabled, disables.active, disables.state, ?_, ?_⟩
  · intro ringed
    rw [walk ringed]
    exact List.suffix_cons _ _
  · intro ringed other member
    rw [walk ringed] at member
    rcases List.mem_cons.mp member with rfl | later
    · right
      have disabled : ((disableCombo s other).combos other).disabled = true := by
        simp [disableCombo]
      exact disabled
    · exact .inl later

theorem sheds_dropFrom (comboIndex steps i : Nat) (s : State cfg World) :
    Sheds s (dropFrom comboIndex steps i s) := by
  induction steps generalizing i with
  | zero => exact Sheds.refl s
  | succ steps ih =>
    rw [dropFrom]
    split
    · exact Sheds.refl s
    next more =>
    split
    · next found =>
      split
      · next head =>
        subst head
        exact sheds_head s more found
      · exact sheds_disableCombo s comboIndex
    · exact ih _

theorem sheds_dropComboFromBuffer (s : State cfg World) (comboIndex : Nat) :
    Sheds s (dropComboFromBuffer s comboIndex) :=
  sheds_dropFrom _ _ _ s

theorem overlaps_cases {combo1 combo2 : Chord} {index1 index2 drop : Nat}
    (overlapping : overlaps combo1 combo2 index1 index2 = some drop) :
    drop = index1 ∨ drop = index2 := by
  unfold overlaps at overlapping
  split at overlapping
  · rw [Option.some.injEq] at overlapping
    split at overlapping
    · exact .inr overlapping.symm
    · exact .inl overlapping.symm
  · cases overlapping

/-- A combo overlaps itself. -/
theorem overlaps_self {combo : Chord} (keyed : combo.keys ≠ []) (index : Nat) :
    overlaps combo combo index index = some index := by
  obtain ⟨key, rest, keys⟩ := List.exists_cons_of_ne_nil keyed
  simp [overlaps, keys]

/-- What the search for overlaps with some entries of the ring comes to: the combo
is disabled, or gives way to none of them. -/
structure Resolves (comboIndex : Nat) (entries : List Nat) (s : State cfg World)
    (resolved : State cfg World × Bool) : Prop where
  sheds : Sheds s resolved.1
  dropped : resolved.2 = true → (resolved.1.combos comboIndex).disabled
  kept : resolved.2 = false → ∀ buffered ∈ entries,
    overlaps (cfg.keyCombo buffered) (cfg.keyCombo comboIndex) buffered comboIndex ≠
      some comboIndex

theorem dropOverlaps_resolves (comboIndex steps i : Nat) (s : State cfg World)
    (inside : i < cfg.comboBufferLength) (written : s.comboBufferWrite < cfg.comboBufferLength)
    (enough : (stretch s.comboBuffer cfg.comboBufferLength i s.comboBufferWrite).length ≤ steps) :
    Resolves comboIndex (stretch s.comboBuffer cfg.comboBufferLength i s.comboBufferWrite) s
      (dropOverlaps comboIndex steps i s) := by
  induction steps generalizing i s with
  | zero =>
    rw [List.length_eq_zero_iff.mp (Nat.le_zero.mp enough)]
    exact ⟨Sheds.refl s, by simp [dropOverlaps], by simp⟩
  | succ steps ih =>
    by_cases done : i = s.comboBufferWrite
    · simp only [dropOverlaps, done, if_true, stretch_self]
      exact ⟨Sheds.refl s, by simp, by simp⟩
    have walk := ring_walk inside written done
    rw [walk, List.length_cons] at enough
    have goes (later : State cfg World) (sheds : Sheds s later)
        (spared : overlaps (cfg.keyCombo (s.comboBuffer i)) (cfg.keyCombo comboIndex)
          (s.comboBuffer i) comboIndex ≠ some comboIndex) :
        Resolves comboIndex (stretch s.comboBuffer cfg.comboBufferLength i s.comboBufferWrite) s
          (dropOverlaps comboIndex steps (cfg.incrementMod i) later) := by
      have rest := ih (cfg.incrementMod i) later (incrementMod_lt cfg i)
        (by rw [sheds.comboBufferWrite]; exact written)
        (by rw [sheds.comboBuffer, sheds.comboBufferWrite]; exact Nat.le_of_succ_le_succ enough)
      rw [sheds.comboBuffer, sheds.comboBufferWrite] at rest
      refine ⟨sheds.trans rest.sheds, rest.dropped, fun kept => ?_⟩
      rw [walk, List.forall_mem_cons]
      exact ⟨spared, rest.kept kept⟩
    rw [dropOverlaps, if_neg done]
    cases overlapping : overlaps (cfg.keyCombo (s.comboBuffer i)) (cfg.keyCombo comboIndex)
        (s.comboBuffer i) comboIndex with
    | none =>
      simp only [overlapping]
      exact goes s (Sheds.refl s) (by simp [overlapping])
    | some drop =>
      simp only [overlapping]
      by_cases own : drop = comboIndex
      · subst own
        simp only [if_true]
        exact ⟨sheds_disableCombo s drop, fun _ => by simp [disableCombo], by simp⟩
      have buffered : drop = s.comboBuffer i := (overlaps_cases overlapping).resolve_right own
      have spared : overlaps (cfg.keyCombo (s.comboBuffer i)) (cfg.keyCombo comboIndex)
          (s.comboBuffer i) comboIndex ≠ some comboIndex := by
        simpa [overlapping] using own
      simp only [own, if_false]
      split
      · next head =>
        subst head
        exact goes _ (sheds_head s done buffered.symm) spared
      · exact goes _ (sheds_disableCombo s drop) spared

/-! ### Keys of one combo -/

theorem weakens_keyUp {bits : Nat} (combo : Progress bits) (keyIndex : Nat) :
    Weakens combo { combo with state := keyStateUp combo.state keyIndex } := by
  refine ⟨id, id, fun key down => ?_⟩
  rw [keyStateUp, BitVec.getLsbD_and, Bool.and_eq_true] at down
  exact down.1

theorem sheds_releaseCombo (host : Host World) (now : BitVec 16) (s : State cfg World)
    (index : Nat) : Sheds s (releaseCombo host now s index) := by
  have rested (other : Nat) : Weakens (s.combos other)
      ((s.update index fun combo => { combo with active := false }).combos other) :=
    update_weakens ⟨id, fun active => (Bool.false_ne_true active).elim, fun _ => id⟩ other
  exact sheds_of_combos rfl rfl rfl rfl (fun other => (rested other).disabled)
    (fun other => (rested other).active) (fun other => (rested other).state)

theorem sheds_releaseComboKey (host : Host World) (now : BitVec 16) (s : State cfg World)
    (comboIndex keyIndex keyCount : Nat) :
    Sheds s (releaseComboKey host now s comboIndex keyIndex keyCount).1 := by
  unfold releaseComboKey
  dsimp only
  refine Sheds.trans ?_ (sheds_update (weakens_keyUp _ keyIndex))
  split
  · split
    · exact sheds_dropComboFromBuffer s comboIndex
    · exact Sheds.refl s
  split
  · exact sheds_releaseCombo host now s comboIndex
  split <;> exact Sheds.refl s

/-- The first half of `process_single_combo` for a press. -/
def keyPressed (s : State cfg World) (comboIndex keyIndex : Nat) : State cfg World :=
  if (s.combos comboIndex).active then s
  else
    { s.update comboIndex fun combo => { combo with state := keyStateDown combo.state keyIndex } with
      longestTerm := if s.longestTerm < cfg.comboTerm then cfg.comboTerm else s.longestTerm }

theorem keyPressed_combos (s : State cfg World) (comboIndex keyIndex index : Nat) :
    (keyPressed s comboIndex keyIndex).combos index = s.combos index ∨
      index = comboIndex ∧ (keyPressed s comboIndex keyIndex).combos index =
        { s.combos index with state := keyStateDown (s.combos index).state keyIndex } := by
  unfold keyPressed
  split
  · exact .inl rfl
  · by_cases same : index = comboIndex
    · subst same
      exact .inr ⟨rfl, by simp [State.update]⟩
    · exact .inl (by simp [State.update, same])

theorem keyPressed_disabled (s : State cfg World) (comboIndex keyIndex index : Nat) :
    ((keyPressed s comboIndex keyIndex).combos index).disabled = (s.combos index).disabled := by
  rcases keyPressed_combos s comboIndex keyIndex index with same | ⟨-, same⟩ <;> rw [same]

theorem keyPressed_pending (s : State cfg World) (comboIndex keyIndex : Nat) :
    (keyPressed s comboIndex keyIndex).pending = s.pending := by
  unfold keyPressed
  split <;> rfl

theorem keyPressed_keyBuffer (s : State cfg World) (comboIndex keyIndex : Nat) :
    (keyPressed s comboIndex keyIndex).keyBuffer = s.keyBuffer := by
  unfold keyPressed
  split <;> rfl

theorem Ringed.keyPressed (ringed : Ringed s) (comboIndex keyIndex : Nat) :
    Ringed (keyPressed s comboIndex keyIndex) := by
  unfold Combo.keyPressed
  split
  · exact ringed
  · exact ⟨ringed.read, ringed.write⟩

theorem keyPressed_timer (s : State cfg World) (comboIndex keyIndex : Nat) :
    (keyPressed s comboIndex keyIndex).timer = s.timer := by
  unfold keyPressed
  split <;> rfl

/-- A ready combo is saved at the end of the ring. -/
def saveReady (s : State cfg World) (comboIndex : Nat) : State cfg World :=
  { s with
    comboBuffer := Function.update s.comboBuffer s.comboBufferWrite comboIndex
    comboBufferWrite := cfg.incrementMod s.comboBufferWrite }

theorem pressComboKey_eq (now : BitVec 16) (s : State cfg World)
    (comboIndex keyIndex keyCount : Nat) :
    pressComboKey now s comboIndex keyIndex keyCount =
      if allComboKeysAreDown ((keyPressed s comboIndex keyIndex).combos comboIndex).state keyCount
      then readyCombo now (keyPressed s comboIndex keyIndex) comboIndex
      else keyPressed s comboIndex keyIndex := rfl

/-- A ready combo is disabled, or it is saved and gives way to none in the ring. -/
theorem readyCombo_cases (now : BitVec 16) (ringed : Ringed s) (comboIndex : Nat) :
    (Sheds s (readyCombo now s comboIndex) ∧
      ((readyCombo now s comboIndex).combos comboIndex).disabled) ∨
    ∃ cleared, Sheds s cleared ∧ readyCombo now s comboIndex = saveReady cleared comboIndex ∧
      ∀ buffered ∈ s.pending, overlaps (cfg.keyCombo buffered) (cfg.keyCombo comboIndex) buffered
        comboIndex ≠ some comboIndex := by
  rw [readyCombo]
  split
  · exact .inl ⟨sheds_disableCombo s comboIndex, by simp [disableCombo]⟩
  have resolves := dropOverlaps_resolves comboIndex cfg.comboBufferLength s.comboBufferRead s
    ringed.read ringed.write ringed.length_pending_lt.le
  dsimp only
  split
  · next dropped => exact .inl ⟨resolves.sheds, resolves.dropped dropped⟩
  · next kept =>
    exact .inr ⟨_, resolves.sheds, rfl, resolves.kept (Bool.not_eq_true _ ▸ kept)⟩

/-- The ring takes one combo less than it has entries; the next one makes it look
empty. -/
theorem pending_saveReady (ringed : Ringed s) (comboIndex : Nat) :
    (saveReady s comboIndex).pending =
      if s.pending.length + 1 < cfg.comboBufferLength then s.pending ++ [comboIndex] else [] := by
  have read := ringed.read
  have write := ringed.write
  have size : s.pending.length = _ := length_stretch
  have wraps : (s.comboBufferWrite + 1) % cfg.comboBufferLength = s.comboBufferRead ↔
      ¬s.pending.length + 1 < cfg.comboBufferLength := by
    rw [size, ahead_mod read write, next_mod write]
    split <;> split <;> omega
  split
  · next room => exact stretch_push read write (fun full => wraps.mp full room) comboIndex
  · next full =>
    have same : (saveReady s comboIndex).comboBufferRead =
        (saveReady s comboIndex).comboBufferWrite := (wraps.mpr full).symm
    rw [State.pending, same, stretch_self]

theorem Ringed.saveReady (ringed : Ringed s) (comboIndex : Nat) :
    Ringed (saveReady s comboIndex) :=
  ⟨ringed.read, incrementMod_lt cfg _⟩

/-- A search for a keycode that is no `COMBO_END` finds a key of the combo. -/
theorem findKey_snd (keycode : BitVec 16) (keys : List (BitVec 16)) (found : Option Nat)
    (count : Nat) : (findKey keycode keys found count).2 = count + keys.length := by
  induction keys generalizing found count with
  | nil => rfl
  | cons key rest ih =>
    rw [findKey, ih, List.length_cons]
    omega

theorem findKey_fst_lt {keycode : BitVec 16} (real : keycode ≠ comboEnd) (keys : List (BitVec 16))
    {found : Option Nat} {count index : Nat} (before : ∀ early, found = some early → early < count)
    (here : (findKey keycode keys found count).1 = some index) : index < count + keys.length := by
  induction keys generalizing found count with
  | nil =>
    rw [findKey, if_neg real] at here
    exact before index here
  | cons key rest ih =>
    rw [findKey] at here
    have within := ih ?_ here
    · rw [List.length_cons]
      omega
    · intro early is
      split at is
      · obtain rfl : count = early := Option.some.inj is
        omega
      · exact Nat.lt_succ_of_lt (before early is)

theorem findKey_end {keys : List (BitVec 16)} (found : Option Nat) (count : Nat) :
    (findKey comboEnd keys found count).1 = some (count + keys.length) := by
  induction keys generalizing found count with
  | nil => simp [findKey]
  | cons key rest ih =>
    rw [findKey, ih, List.length_cons]
    congr 1
    omega

/-! ### Applying the combos -/

/-- What applying or dropping one combo leaves alone. -/
structure Spares (index : Nat) (s after : State cfg World) : Prop where
  comboBuffer : after.comboBuffer = s.comboBuffer
  comboBufferWrite : after.comboBufferWrite = s.comboBufferWrite
  others : ∀ other, other ≠ index → after.combos other = s.combos other
  keycodes : after.keyBuffer.map QueuedRecord.keycode = s.keyBuffer.map QueuedRecord.keycode
  ringed : Ringed s → Ringed after

theorem spares_dropComboFromBuffer (s : State cfg World) (index : Nat) :
    Spares index s (dropComboFromBuffer s index) := by
  have others : ∀ other, other ≠ index → (disableCombo s index).combos other = s.combos other :=
    fun other apart => update_combos_of_ne s apart _
  rcases dropFrom_cases index cfg.comboBufferLength s.comboBufferRead s with same | same | same <;>
    rw [dropComboFromBuffer, same]
  · exact ⟨rfl, rfl, fun _ _ => rfl, rfl, id⟩
  · exact ⟨rfl, rfl, others, rfl, fun ringed => ⟨ringed.read, ringed.write⟩⟩
  · exact ⟨rfl, rfl, others, rfl, fun ringed => ⟨incrementMod_lt cfg _, ringed.write⟩⟩

theorem applyToKeys_keycodes {bits : Nat} (combo : Chord) (comboIndex : Nat) (state : BitVec bits)
    (buffer : List QueuedRecord) :
    (applyToKeys combo comboIndex state buffer).1.map QueuedRecord.keycode =
      buffer.map QueuedRecord.keycode := by
  induction buffer generalizing state with
  | nil => rfl
  | cons qrecord rest ih =>
    rw [applyToKeys]
    split
    · simp [ih]
    · dsimp only
      split
      · simp
      · simp [ih]

theorem applyCombo_disabled {index : Nat} (disabled : (s.combos index).disabled) :
    applyCombo s index = s := by
  rw [applyCombo, if_pos disabled]

/-- The state in which `apply_combo` drops an enabled combo. -/
def activated (s : State cfg World) (index : Nat) : State cfg World :=
  let applied := applyToKeys (cfg.keyCombo index) index (0 : BitVec cfg.stateBits) s.keyBuffer
  { s with keyBuffer := applied.1 }.update index fun combo =>
    { combo with active := combo.active || applied.2 }

theorem Ringed.activated (ringed : Ringed s) (index : Nat) : Ringed (activated s index) :=
  ⟨ringed.read, ringed.write⟩

theorem applyCombo_enabled {index : Nat} (enabled : (s.combos index).disabled = false) :
    applyCombo s index = dropComboFromBuffer (activated s index) index := by
  have same (applied : List QueuedRecord × Bool) :
      (if applied.2 then { s with keyBuffer := applied.1 }.update index fun combo =>
          { combo with active := true }
        else { s with keyBuffer := applied.1 }) =
      { s with keyBuffer := applied.1 }.update index fun combo =>
        { combo with active := combo.active || applied.2 } := by
    cases applied.2 <;> simp [State.update]
  rw [applyCombo, if_neg (by simp [enabled])]
  exact congrArg (dropComboFromBuffer · index) (same _)

theorem spares_applyCombo (s : State cfg World) (index : Nat) :
    Spares index s (applyCombo s index) := by
  cases enabled : (s.combos index).disabled with
  | true =>
    rw [applyCombo_disabled enabled]
    exact ⟨rfl, rfl, fun _ _ => rfl, rfl, id⟩
  | false =>
    rw [applyCombo_enabled enabled]
    have dropped := spares_dropComboFromBuffer (activated s index) index
    refine ⟨dropped.comboBuffer, dropped.comboBufferWrite, ?_, ?_, ?_⟩
    · intro other apart
      rw [dropped.others other apart, activated, update_combos_of_ne _ apart]
    · rw [dropped.keycodes]
      exact applyToKeys_keycodes _ _ _ _
    · exact fun ringed => dropped.ringed (ringed.activated index)

/-- `apply_combos` applies the combos that are in the ring when it starts. -/
theorem applyFrom_eq_foldl (steps i : Nat) (ringed : Ringed s) (inside : i < cfg.comboBufferLength)
    (enough : (stretch s.comboBuffer cfg.comboBufferLength i s.comboBufferWrite).length ≤ steps) :
    applyFrom steps i s =
      (stretch s.comboBuffer cfg.comboBufferLength i s.comboBufferWrite).foldl applyCombo s := by
  induction steps generalizing i s with
  | zero =>
    rw [List.length_eq_zero_iff.mp (Nat.le_zero.mp enough)]
    rfl
  | succ steps ih =>
    by_cases done : i = s.comboBufferWrite
    · simp [applyFrom, done]
    have walk := ring_walk inside ringed.write done
    rw [walk, List.length_cons] at enough
    have spares := spares_applyCombo s (s.comboBuffer i)
    have later := ih (cfg.incrementMod i) (spares.ringed ringed) (incrementMod_lt cfg i)
      (by rw [spares.comboBuffer, spares.comboBufferWrite]
          exact Nat.le_of_succ_le_succ enough)
    rw [spares.comboBuffer, spares.comboBufferWrite] at later
    rw [applyFrom, if_neg done, later, walk]
    rfl

theorem applyCombos_eq (ringed : Ringed s) :
    applyCombos host s = clearCombos (dumpKeyBuffer host (s.pending.foldl applyCombo s)) := by
  rw [applyCombos, applyFrom_eq_foldl _ _ ringed ringed.read ringed.length_pending_lt.le]
  rfl

theorem applyCombo_head (ringed : Ringed s) {index : Nat} {rest : List Nat}
    (pending : s.pending = index :: rest) (enabled : (s.combos index).disabled = false) :
    (applyCombo s index).pending = rest := by
  rw [applyCombo_enabled enabled]
  have still : (activated s index).pending = index :: rest := pending
  exact (dropComboFromBuffer_head (ringed.activated index) still).2

theorem applyCombo_behind (ringed : Ringed s) {index first : Nat} {rest : List Nat}
    (pending : s.pending = first :: rest) (apart : first ≠ index) :
    (applyCombo s index).pending = first :: rest := by
  cases enabled : (s.combos index).disabled with
  | true => rw [applyCombo_disabled enabled, pending]
  | false =>
    have still : (activated s index).pending = first :: rest := pending
    rw [applyCombo_enabled enabled,
      dropComboFromBuffer_behind (ringed.activated index) still apart]
    split
    · rw [pending_disableCombo, still]
    · exact still

/-- Once an entry is held up, so are all those behind it. -/
theorem applied_held (ringed : Ringed s) {first : Nat} {held todo : List Nat}
    (pending : s.pending = first :: held) (fresh : first ∉ todo) :
    (todo.foldl applyCombo s).pending = first :: held := by
  induction todo generalizing s with
  | nil => exact pending
  | cons index rest ih =>
    rw [List.mem_cons, not_or] at fresh
    exact ih ((spares_applyCombo s index).ringed ringed)
      (applyCombo_behind ringed pending fresh.1) fresh.2

/-- The ring empties exactly when no combo in it is disabled. -/
theorem applied_pending_eq_nil_iff (ringed : Ringed s) (distinct : s.pending.Nodup) :
    (s.pending.foldl applyCombo s).pending = [] ↔
      ∀ index ∈ s.pending, (s.combos index).disabled = false := by
  induction entries : s.pending generalizing s with
  | nil => simp [entries]
  | cons index rest ih =>
    rw [entries, List.nodup_cons] at distinct
    have spares := spares_applyCombo s index
    cases enabled : (s.combos index).disabled with
    | true =>
      rw [List.foldl_cons, applyCombo_disabled enabled, applied_held ringed entries distinct.1]
      simp [enabled]
    | false =>
      have left := applyCombo_head ringed entries enabled
      have later := ih (spares.ringed ringed) (by rw [left]; exact distinct.2) left
      rw [List.foldl_cons, later, List.forall_mem_cons]
      constructor
      · intro rested
        refine ⟨enabled, fun other member => ?_⟩
        rw [← spares.others other (ne_of_mem_of_not_mem member distinct.1)]
        exact rested other member
      · rintro ⟨-, rested⟩ other member
        rw [spares.others other (ne_of_mem_of_not_mem member distinct.1)]
        exact rested other member

end QmkSonix.Combo
