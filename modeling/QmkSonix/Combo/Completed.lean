import QmkSonix.Combo.Stale

/-! Combos that are completed within their terms before the waiting keys are
settled, and what becomes of them: each is in the ring or disabled, and the key
buffer holds its keys, as long as both had room when it was completed. -/

namespace QmkSonix.Combo

open Lib

variable {cfg : Config} {World : Type*} (host : Host World)

/-! ### Completing combos -/

/-- `process_single_combo` finds the combo fully pressed within its term. -/
def completes (now : BitVec 16) (s : State cfg World) (keycode : BitVec 16) (record : Record)
    (comboIndex : Nat) : Bool :=
  match findKeyIndexAndCount (cfg.keyCombo comboIndex).keys keycode with
  | (none, _) => false
  | (some keyIndex, keyCount) =>
    record.pressed && !(s.combos comboIndex).disabled && s.comboEnabled &&
      allComboKeysAreDown ((keyPressed s comboIndex keyIndex).combos comboIndex).state keyCount &&
      !decide (s.timer ≠ 0 ∧ cfg.comboTerm < now - s.timer)

/-- The combos that the loop of `process_combo` completes. -/
def completedFrom (now keycode : BitVec 16) (record : Record) :
    List Nat → State cfg World → List Nat
  | [], _ => []
  | index :: rest, s =>
    (if completes now s keycode record index then [index] else []) ++
      completedFrom now keycode record rest
        (processSingleCombo host now s keycode record index).1

def Call.completing (s : State cfg World) : Call → List Nat
  | .processCombo now keycode record =>
    if switches keycode record then []
    else completedFrom host now keycode record (List.range cfg.keyCombos.length) s
  | .comboTask _ => []

/-- A state, with the combos completed since the waiting keys were last settled, and
whether each of them found room when it was completed. -/
structure Watched (cfg : Config) (World : Type*) where
  state : State cfg World
  completed : List Nat := []
  roomy : Bool := true

/-- There is room for some more combos in the ring and for one more key in the key
buffer, and no `KC_NO` waits there. -/
def HasRoom (s : State cfg World) (more : Nat) : Prop :=
  s.pending.length + more < cfg.comboBufferLength ∧
    s.keyBuffer.length < cfg.comboKeyBufferLength ∧
    comboEnd ∉ s.keyBuffer.map QueuedRecord.keycode

instance (s : State cfg World) (more : Nat) : Decidable (HasRoom s more) :=
  inferInstanceAs (Decidable (_ ∧ _ ∧ _))

def Watched.exec (w : Watched cfg World) (call : Call) : Watched cfg World :=
  let after := call.exec host w.state
  let completing := call.completing host w.state
  if (call.settling host w.state).isSome || call.turnsOff w.state then { state := after }
  else
    { state := after
      completed := w.completed ++ completing
      roomy := w.roomy && decide (completing = [] ∨ HasRoom w.state completing.length) }

/-- Combos without a common key. -/
def Apart (cfg : Config) (first second : Nat) : Prop :=
  ∀ key ∈ (cfg.keyCombo first).keys, key ∉ (cfg.keyCombo second).keys

instance (cfg : Config) (first second : Nat) : Decidable (Apart cfg first second) :=
  inferInstanceAs (Decidable (∀ _ ∈ _, _))

/-- When a step settles the waiting keys, each of the completed combos is activated,
provided they do not overlap. -/
def NoneLost (w : Watched cfg World) (call : Call) : Prop :=
  (call.settling host w.state).isSome → w.completed.Pairwise (Apart cfg) →
    ∀ index ∈ w.completed, ((call.exec host w.state).combos index).active

/-- When a step settles the waiting keys, each of the completed combos, if they do not
overlap, has found room and is not disabled. -/
def Spared (w : Watched cfg World) (call : Call) : Prop :=
  ∀ ready ∈ call.settling host w.state, w.completed.Pairwise (Apart cfg) →
    w.roomy ∧ ∀ index ∈ w.completed, (ready.combos index).disabled = false

instance (w : Watched cfg World) (call : Call) : Decidable (NoneLost host w call) :=
  inferInstanceAs (Decidable (_ → _ → ∀ _ ∈ _, _))

instance (w : Watched cfg World) (call : Call) : Decidable (Spared host w call) :=
  inferInstanceAs (Decidable (∀ ready ∈ call.settling host w.state, _))

/-! ### Keys of a completed combo in the key buffer -/

/-- Some of the first keycodes are all the keys of the combo, without a `KC_NO`. -/
def HeldBy (cfg : Config) (keycodes : List (BitVec 16)) (comboIndex : Nat) : Prop :=
  (cfg.keyCombo comboIndex).keys ≠ [] ∧ (cfg.keyCombo comboIndex).keys.length ≤ cfg.stateBits ∧
    ∃ first, first <+: keycodes ∧ comboEnd ∉ first ∧
      ∀ key < (cfg.keyCombo comboIndex).keys.length, ∃ keycode ∈ first,
        (findKeyIndexAndCount (cfg.keyCombo comboIndex).keys keycode).1 = some key

section Keys

variable {host} {s after : State cfg World} {keycodes : List (BitVec 16)} {completed : List Nat}

theorem getLsbD_keyStateDown {bits : Nat} (state : BitVec bits) (keyIndex key : Nat) :
    (keyStateDown state keyIndex).getLsbD key =
      (state.getLsbD key || (decide (keyIndex < bits) && decide (keyIndex = key))) := by
  rw [keyStateDown, BitVec.getLsbD_or, BitVec.getLsbD_twoPow]

theorem missing_keycode {bits : Nat} {combo : Chord} (fits : combo.keys.length ≤ bits)
    {state : BitVec bits} {first : List (BitVec 16)}
    (below : ∀ key, state.getLsbD key → key < combo.keys.length)
    (missing : ¬allComboKeysAreDown state combo.keys.length)
    (every : ∀ key < combo.keys.length, state.getLsbD key ∨ ∃ keycode ∈ first,
      (findKeyIndexAndCount combo.keys keycode).1 = some key) : first ≠ [] := by
  rintro rfl
  apply missing
  refine (allComboKeysAreDown_iff _ _).mpr ⟨fits, fun key => ?_⟩
  by_cases inside : key < combo.keys.length
  · simpa [inside] using every key inside
  · simpa [inside] using fun down => inside (below key down)

/-- `apply_combo` finds the last key of a combo whose keys wait in the key buffer. -/
theorem applyToKeys_reaches {bits : Nat} {combo : Chord} (comboIndex : Nat)
    (fits : combo.keys.length ≤ bits) {state : BitVec bits} {buffer : List QueuedRecord}
    {first : List (BitVec 16)} (within : first <+: buffer.map QueuedRecord.keycode)
    (real : comboEnd ∉ first) (below : ∀ key, state.getLsbD key → key < combo.keys.length)
    (missing : ¬allComboKeysAreDown state combo.keys.length)
    (every : ∀ key < combo.keys.length, state.getLsbD key ∨ ∃ keycode ∈ first,
      (findKeyIndexAndCount combo.keys keycode).1 = some key) :
    (applyToKeys combo comboIndex state buffer).2 = true := by
  induction buffer generalizing state first with
  | nil =>
    exact absurd (List.prefix_nil.mp within) (missing_keycode fits below missing every)
  | cons qrecord rest ih =>
    obtain ⟨keycode, others, rfl⟩ :=
      List.exists_cons_of_ne_nil (missing_keycode fits below missing every)
    rw [List.map_cons, List.cons_prefix_cons] at within
    obtain ⟨rfl, within⟩ := within
    rw [List.mem_cons, not_or] at real
    have counted := findKeyIndexAndCount_snd combo.keys qrecord.keycode
    rw [applyToKeys]
    split
    · next other =>
      refine ih within real.2 below missing fun key inside => ?_
      refine (every key inside).imp_right ?_
      rintro ⟨keycode, member, here⟩
      rcases List.mem_cons.mp member with rfl | later
      · rw [other] at here
        cases here
      · exact ⟨keycode, later, here⟩
    · next keyIndex keyCount found =>
      rw [found] at counted
      subst counted
      dsimp only
      split
      · rfl
      · next still =>
        have bound : keyIndex < 0 + combo.keys.length :=
          findKey_fst_lt (Ne.symm real.1) combo.keys (by simp) (congrArg Prod.fst found)
        refine ih within real.2 ?_ still fun key inside => ?_
        · intro key down
          rw [getLsbD_keyStateDown, Bool.or_eq_true, Bool.and_eq_true, decide_eq_true_eq,
            decide_eq_true_eq] at down
          rcases down with down | ⟨-, rfl⟩
          · exact below key down
          · omega
        · rw [getLsbD_keyStateDown]
          rcases every key inside with down | ⟨keycode, member, here⟩
          · exact .inl (by simp [down])
          · rcases List.mem_cons.mp member with rfl | later
            · rw [found] at here
              obtain rfl := Option.some.inj here
              left
              simp
              omega
            · exact .inr ⟨keycode, later, here⟩

theorem HeldBy.reaches (held : HeldBy cfg (s.keyBuffer.map QueuedRecord.keycode) index) :
    (applyToKeys (cfg.keyCombo index) index (0 : BitVec cfg.stateBits) s.keyBuffer).2 = true := by
  obtain ⟨keyed, fits, first, within, real, every⟩ := held
  have some : 0 < (cfg.keyCombo index).keys.length := List.length_pos_iff.mpr keyed
  refine applyToKeys_reaches index fits within real (by simp) ?_ fun key inside => .inr (every key inside)
  intro down
  have zeroth := ((allComboKeysAreDown_iff _ _).mp down).2 0
  simp [some] at zeroth

theorem HeldBy.mono {more : List (BitVec 16)} (held : HeldBy cfg keycodes index)
    (grows : keycodes <+: more) : HeldBy cfg more index := by
  obtain ⟨keyed, fits, first, within, rest⟩ := held
  exact ⟨keyed, fits, first, within.trans grows, rest⟩

end Keys

/-! ### The completed combos along a run -/

/-- While the key buffer has room, the keys that are down are among those typed. -/
structure Covered (s : State cfg World) (keycodes : List (BitVec 16)) : Prop where
  orderly : Orderly s
  typed : s.keyBuffer.length < cfg.comboKeyBufferLength → ∀ index,
    (s.combos index).disabled = false → ∀ key, (s.combos index).state.getLsbD key →
      ∃ keycode ∈ keycodes, (findKeyIndexAndCount (cfg.keyCombo index).keys keycode).1 = some key

/-- Completed combos are in the ring or disabled, and their keys have been typed. -/
structure Listed (s : State cfg World) (keycodes : List (BitVec 16)) (completed : List Nat) :
    Prop where
  ready : ∀ index ∈ completed, index ∈ s.pending ∨ (s.combos index).disabled
  held : ∀ index ∈ completed, HeldBy cfg keycodes index

section Loop

variable {host} {s after : State cfg World} {keycodes : List (BitVec 16)} {completed : List Nat}

theorem Covered.sheds (covered : Covered s keycodes) (sheds : Sheds s after) :
    Covered after keycodes := by
  refine ⟨covered.orderly.sheds sheds, fun room index enabled key down => ?_⟩
  rw [sheds.keyBuffer] at room
  refine covered.typed room index ?_ key (sheds.state index key down)
  by_contra disabled
  have stays := sheds.disabled index (Bool.not_eq_false _ ▸ disabled)
  rw [enabled] at stays
  exact Bool.false_ne_true stays

theorem Listed.sheds (listed : Listed s keycodes completed) (ringed : Ringed s)
    (sheds : Sheds s after) : Listed after keycodes completed := by
  refine ⟨fun index member => ?_, listed.held⟩
  rcases listed.ready index member with stays | disabled
  · exact sheds.gone ringed index stays
  · exact .inr (sheds.disabled index disabled)

/-- A key that has been typed goes down. -/
theorem Covered.keyPressed (covered : Covered s keycodes) {keycode : BitVec 16}
    (typed : keycode ∈ keycodes) {comboIndex keyIndex : Nat}
    (found : (findKeyIndexAndCount (cfg.keyCombo comboIndex).keys keycode).1 = some keyIndex) :
    Covered (keyPressed s comboIndex keyIndex) keycodes := by
  refine ⟨covered.orderly.keyPressed comboIndex keyIndex, fun room index enabled key down => ?_⟩
  rw [keyPressed_keyBuffer] at room
  rw [keyPressed_disabled] at enabled
  rcases keyPressed_combos s comboIndex keyIndex index with same | ⟨rfl, same⟩ <;> rw [same] at down
  · exact covered.typed room index enabled key down
  · rw [getLsbD_keyStateDown, Bool.or_eq_true, Bool.and_eq_true, decide_eq_true_eq,
      decide_eq_true_eq] at down
    rcases down with down | ⟨-, rfl⟩
    · exact covered.typed room index enabled key down
    · exact ⟨keycode, typed, found⟩

theorem Covered.saveReady (covered : Covered s keycodes) {comboIndex : Nat}
    (absent : comboIndex ∉ s.pending) : Covered (saveReady s comboIndex) keycodes :=
  ⟨covered.orderly.saveReady absent, covered.typed⟩

theorem Covered.readyCombo (covered : Covered s keycodes) (now : BitVec 16) {comboIndex : Nat}
    (keyed : (cfg.keyCombo comboIndex).keys ≠ []) :
    Covered (readyCombo now s comboIndex) keycodes := by
  have ringed := covered.orderly.ringed
  rcases readyCombo_cases now ringed comboIndex with ⟨sheds, -⟩ | ⟨cleared, sheds, saved, kept⟩
  · exact covered.sheds sheds
  · rw [saved]
    refine (covered.sheds sheds).saveReady fun member => ?_
    exact kept comboIndex ((sheds.suffix ringed).subset member) (overlaps_self keyed _)

theorem Covered.processSingleCombo (covered : Covered s keycodes) (bits : 0 < cfg.stateBits)
    (now keycode : BitVec 16) (record : Record) (typed : keycode ∈ keycodes) (comboIndex : Nat) :
    Covered (processSingleCombo host now s keycode record comboIndex).1 keycodes := by
  rcases processSingleCombo_cases host now s keycode record comboIndex with
    same | ⟨keyIndex, found, ⟨presses, same⟩ | ⟨-, same⟩⟩ <;> rw [same]
  · exact covered
  · rw [Bool.and_eq_true, Bool.and_eq_true, Bool.not_eq_true'] at presses
    rw [pressComboKey_eq]
    split
    · next down =>
      exact (covered.keyPressed typed found).readyCombo now
        (keyed_of_down bits found (covered.orderly.idle presses.1.2) down)
    · exact covered.keyPressed typed found
  · exact covered.sheds (sheds_releaseComboKey host now s comboIndex keyIndex _)

theorem Listed.keyPressed (listed : Listed s keycodes completed) (comboIndex keyIndex : Nat) :
    Listed (keyPressed s comboIndex keyIndex) keycodes completed := by
  refine ⟨fun index member => ?_, listed.held⟩
  rw [keyPressed_pending, keyPressed_disabled]
  exact listed.ready index member

theorem completes_iff {now keycode : BitVec 16} {record : Record} {comboIndex : Nat} :
    completes now s keycode record comboIndex ↔ ∃ keyIndex,
      (findKeyIndexAndCount (cfg.keyCombo comboIndex).keys keycode).1 = some keyIndex ∧
        (record.pressed && !(s.combos comboIndex).disabled && s.comboEnabled) = true ∧
        allComboKeysAreDown ((keyPressed s comboIndex keyIndex).combos comboIndex).state
          (cfg.keyCombo comboIndex).keys.length ∧
        ¬(s.timer ≠ 0 ∧ cfg.comboTerm < now - s.timer) := by
  have counted := findKeyIndexAndCount_snd (cfg.keyCombo comboIndex).keys keycode
  unfold completes
  split
  · next none =>
    simp [none]
  · next keyIndex keyCount found =>
    rw [found] at counted
    subst counted
    rw [found]
    simp only [Option.some.injEq, exists_eq_left', Bool.and_eq_true, Bool.not_eq_true',
      decide_eq_false_iff_not, and_assoc]

/-- A combo that is ready too late is only disabled. -/
theorem readyCombo_late {now : BitVec 16} (late : s.timer ≠ 0 ∧ cfg.comboTerm < now - s.timer)
    (comboIndex : Nat) : Sheds s (readyCombo now s comboIndex) := by
  rw [readyCombo, if_pos late]
  exact sheds_disableCombo s comboIndex

/-- A press or release that completes nothing. -/
theorem Listed.processSingleCombo (listed : Listed s keycodes completed) (ringed : Ringed s)
    {now keycode : BitVec 16} {record : Record} {comboIndex : Nat}
    (incomplete : ¬completes now s keycode record comboIndex) :
    Listed (Combo.processSingleCombo host now s keycode record comboIndex).1 keycodes completed := by
  rcases processSingleCombo_cases host now s keycode record comboIndex with
    same | ⟨keyIndex, found, ⟨presses, same⟩ | ⟨-, same⟩⟩ <;> rw [same]
  · exact listed
  · rw [pressComboKey_eq]
    have down := listed.keyPressed comboIndex keyIndex
    split
    · next complete =>
      have late : s.timer ≠ 0 ∧ cfg.comboTerm < now - s.timer := by
        by_contra inTerm
        exact incomplete (completes_iff.mpr ⟨keyIndex, found, presses, complete, inTerm⟩)
      rw [← keyPressed_timer s comboIndex keyIndex] at late
      exact down.sheds (ringed.keyPressed comboIndex keyIndex) (readyCombo_late late comboIndex)
    · exact down
  · exact listed.sheds ringed (sheds_releaseComboKey host now s comboIndex keyIndex _)

/-- The keys of a combo that are all down have been typed. -/
theorem Covered.held (covered : Covered s (keycodes ++ [keycode])) {comboIndex : Nat}
    (room : s.keyBuffer.length < cfg.comboKeyBufferLength) (real : comboEnd ∉ keycodes)
    (enabled : (s.combos comboIndex).disabled = false)
    (keyed : (cfg.keyCombo comboIndex).keys ≠ [])
    (down : allComboKeysAreDown (s.combos comboIndex).state
      (cfg.keyCombo comboIndex).keys.length) : HeldBy cfg (keycodes ++ [keycode]) comboIndex := by
  obtain ⟨fits, bitsDown⟩ := (allComboKeysAreDown_iff _ _).mp down
  have typed (key : Nat) (inside : key < (cfg.keyCombo comboIndex).keys.length) :
      ∃ keycode' ∈ keycodes ++ [keycode],
        (findKeyIndexAndCount (cfg.keyCombo comboIndex).keys keycode').1 = some key :=
    covered.typed room comboIndex enabled key (by rw [bitsDown]; simpa using inside)
  refine ⟨keyed, fits, ?_⟩
  by_cases last : keycode = comboEnd
  · -- `KC_NO` is no key of a combo
    refine ⟨keycodes, List.prefix_append _ _, real, fun key inside => ?_⟩
    obtain ⟨keycode', member, here⟩ := typed key inside
    rcases List.mem_append.mp member with early | own
    · exact ⟨keycode', early, here⟩
    · rw [List.mem_singleton.mp own, last, findKeyIndexAndCount, findKey_end] at here
      have past := Option.some.inj here
      omega
  · refine ⟨keycodes ++ [keycode], List.prefix_rfl, ?_, typed⟩
    rw [List.mem_append, List.mem_singleton, not_or]
    exact ⟨real, Ne.symm last⟩

/-- A press that completes a combo, with room in both buffers. -/
theorem Listed.complete (listed : Listed s (keycodes ++ [keycode]) completed)
    (covered : Covered s (keycodes ++ [keycode])) (bits : 0 < cfg.stateBits)
    {now : BitVec 16} {record : Record} {comboIndex : Nat}
    (complete : completes now s keycode record comboIndex)
    (ringRoom : s.pending.length + 1 < cfg.comboBufferLength)
    (room : s.keyBuffer.length < cfg.comboKeyBufferLength) (real : comboEnd ∉ keycodes) :
    Listed (Combo.processSingleCombo host now s keycode record comboIndex).1 (keycodes ++ [keycode])
      (completed ++ [comboIndex]) := by
  obtain ⟨keyIndex, found, presses, down, inTerm⟩ := completes_iff.mp complete
  have enabled : (s.combos comboIndex).disabled = false := by
    rw [Bool.and_eq_true, Bool.and_eq_true, Bool.not_eq_true'] at presses
    exact presses.1.2
  have keyed := keyed_of_down bits found (covered.orderly.idle enabled) down
  have pressed := covered.keyPressed (List.mem_append_right _ (List.mem_singleton_self _)) found
  have held : HeldBy cfg (keycodes ++ [keycode]) comboIndex :=
    pressed.held (by rwa [keyPressed_keyBuffer]) real (by rwa [keyPressed_disabled]) keyed down
  have ringed := pressed.orderly.ringed
  have done : (Combo.processSingleCombo host now s keycode record comboIndex).1 =
      readyCombo now (Combo.keyPressed s comboIndex keyIndex) comboIndex := by
    rw [processSingleCombo_press host found presses, pressComboKey_eq, if_pos down]
  have before := listed.keyPressed comboIndex keyIndex
  rw [done]
  refine ⟨?_, List.forall_mem_append.mpr ⟨listed.held, by simpa using held⟩⟩
  rcases readyCombo_cases now ringed comboIndex with ⟨sheds, disabled⟩ | ⟨cleared, sheds, saved, -⟩
  · refine List.forall_mem_append.mpr ⟨(before.sheds ringed sheds).ready, ?_⟩
    simpa using .inr disabled
  · have shorter : cleared.pending.length ≤ s.pending.length := by
      rw [← keyPressed_pending s comboIndex keyIndex]
      exact (sheds.suffix ringed).sublist.length_le
    have joined : (Combo.saveReady cleared comboIndex).pending = cleared.pending ++ [comboIndex] := by
      rw [pending_saveReady (sheds.ringed ringed), if_pos (by omega)]
    rw [saved, joined]
    refine List.forall_mem_append.mpr ⟨fun index member => ?_, by simp⟩
    exact ((before.sheds ringed sheds).ready index member).imp_left (List.mem_append_left _)

theorem processSingleCombo_keyBuffer (host : Host World) (now : BitVec 16) (ringed : Ringed s)
    (keycode : BitVec 16) (record : Record) (comboIndex : Nat) :
    (processSingleCombo host now s keycode record comboIndex).1.keyBuffer = s.keyBuffer := by
  rcases processSingleCombo_cases host now s keycode record comboIndex with
    same | ⟨keyIndex, found, ⟨presses, same⟩ | ⟨-, same⟩⟩ <;> simp only [same]
  · rw [pressComboKey_eq]
    split
    · rcases readyCombo_cases now (ringed.keyPressed comboIndex keyIndex) comboIndex with
        ⟨sheds, -⟩ | ⟨cleared, sheds, saved, -⟩
      · rw [sheds.keyBuffer, keyPressed_keyBuffer]
      · rw [saved, ← keyPressed_keyBuffer s comboIndex keyIndex, ← sheds.keyBuffer]
        rfl
    · rw [keyPressed_keyBuffer]
  · exact (sheds_releaseComboKey host now s comboIndex keyIndex _).keyBuffer

/-- The ring grows by one for a completed combo at most. -/
theorem processSingleCombo_pending (host : Host World) (now : BitVec 16) (ringed : Ringed s)
    (keycode : BitVec 16) (record : Record) (comboIndex : Nat) :
    (processSingleCombo host now s keycode record comboIndex).1.pending.length ≤
      s.pending.length + if completes now s keycode record comboIndex then 1 else 0 := by
  rcases processSingleCombo_cases host now s keycode record comboIndex with
    same | ⟨keyIndex, found, ⟨presses, same⟩ | ⟨-, same⟩⟩ <;> simp only [same]
  · omega
  · rw [pressComboKey_eq]
    have pressed := ringed.keyPressed comboIndex keyIndex
    have pending := keyPressed_pending s comboIndex keyIndex
    split
    · next down =>
      by_cases inTerm : s.timer ≠ 0 ∧ cfg.comboTerm < now - s.timer
      · rw [← keyPressed_timer s comboIndex keyIndex] at inTerm
        have fewer := ((readyCombo_late inTerm comboIndex).suffix pressed).sublist.length_le
        rw [pending] at fewer
        omega
      · rw [if_pos (completes_iff.mpr ⟨keyIndex, found, presses, down, inTerm⟩)]
        rcases readyCombo_cases now pressed comboIndex with
          ⟨sheds, -⟩ | ⟨cleared, sheds, saved, -⟩
        · have fewer := (sheds.suffix pressed).sublist.length_le
          rw [pending] at fewer
          omega
        · have fewer := (sheds.suffix pressed).sublist.length_le
          rw [pending] at fewer
          rw [saved, pending_saveReady (sheds.ringed pressed)]
          split
          · rw [List.length_append, List.length_singleton]
            omega
          · rw [List.length_nil]
            omega
    · rw [pending]
      omega
  · have fewer := ((sheds_releaseComboKey host now s comboIndex keyIndex
      (cfg.keyCombo comboIndex).keys.length).suffix ringed).sublist.length_le
    omega

/-- The combos that the loop completes join the list, if there is room for them. -/
theorem Listed.processCombosFrom (bits : 0 < cfg.stateBits) (now keycode : BitVec 16)
    (record : Record) (indices : List Nat) (covered : Covered s (keycodes ++ [keycode]))
    (listed : Listed s (keycodes ++ [keycode]) completed)
    (ringRoom : s.pending.length + (completedFrom host now keycode record indices s).length <
      cfg.comboBufferLength)
    (room : s.keyBuffer.length < cfg.comboKeyBufferLength) (real : comboEnd ∉ keycodes) :
    Listed (processCombosFrom host now keycode record indices s).1 (keycodes ++ [keycode])
      (completed ++ completedFrom host now keycode record indices s) := by
  induction indices generalizing s completed with
  | nil => simpa [completedFrom, Combo.processCombosFrom] using listed
  | cons index rest ih =>
    have ringed := covered.orderly.ringed
    have next : Covered (Combo.processSingleCombo host now s keycode record index).1 _ :=
      covered.processSingleCombo bits now keycode record (by simp) index
    have grown := processSingleCombo_pending host now ringed keycode record index
    have kept := processSingleCombo_keyBuffer host now ringed keycode record index
    simp only [completedFrom, List.length_append] at ringRoom
    rw [completedFrom, ← List.append_assoc]
    by_cases complete : completes now s keycode record index
    · simp only [complete, if_true, List.length_singleton] at ringRoom grown ⊢
      refine ih next (listed.complete covered bits complete (by omega) room real) (by omega) ?_
      rwa [kept]
    · simp only [complete, Bool.false_eq_true, if_false, List.length_nil, List.append_nil]
        at ringRoom grown ⊢
      refine ih next (listed.processSingleCombo ringed complete) (by omega) ?_
      rwa [kept]

end Loop

/-! ### Settling -/

section Settling

variable {host} {s ready after : State cfg World} {keycodes : List (BitVec 16)}
  {completed : List Nat}

/-- A loop that presses no key of an enabled combo only sheds. -/
theorem sheds_processCombosFrom (now keycode : BitVec 16) (record : Record) (indices : List Nat)
    (s : State cfg World) (unbuffered :
      ¬(record.pressed && (processCombosFrom host now keycode record indices s).2)) :
    Sheds s (processCombosFrom host now keycode record indices s).1 := by
  induction indices generalizing s with
  | nil => exact Sheds.refl s
  | cons index rest ih =>
    have first : Sheds s (processSingleCombo host now s keycode record index).1 := by
      rcases processSingleCombo_cases host now s keycode record index with
        same | ⟨keyIndex, found, ⟨presses, same⟩ | ⟨-, same⟩⟩ <;> simp only [same]
      · exact Sheds.refl s
      · rw [Bool.and_eq_true, Bool.and_eq_true] at presses
        exact absurd (by simp [processCombosFrom, same, presses.1.1]) unbuffered
      · exact sheds_releaseComboKey host now s index keyIndex _
    refine first.trans (ih _ fun buffered => unbuffered ?_)
    rw [Bool.and_eq_true] at buffered ⊢
    exact ⟨buffered.1, by simp [processCombosFrom, buffered.2]⟩

theorem sheds_settling {call : Call} (settles : call.settling host s = some ready) :
    Sheds s ready := by
  cases call with
  | processCombo now keycode record =>
    simp only [Call.settling] at settles
    split at settles
    · cases settles
    split at settles
    · cases settles
    · next unbuffered =>
      obtain rfl := Option.some.inj settles
      exact sheds_processCombosFrom now keycode record _ s unbuffered
  | comboTask now =>
    simp only [Call.settling] at settles
    split at settles
    · obtain rfl := Option.some.inj settles
      exact Sheds.refl s
    · cases settles

theorem dropComboFromBuffer_active (s : State cfg World) (index other : Nat) :
    ((dropComboFromBuffer s index).combos other).active = (s.combos other).active := by
  have disables : ((disableCombo s index).combos other).active = (s.combos other).active := by
    by_cases same : other = index <;> simp [disableCombo, State.update, same]
  rcases dropFrom_cases index cfg.comboBufferLength s.comboBufferRead s with same | same | same <;>
    rw [dropComboFromBuffer, same]
  · exact disables
  · exact disables

/-- Applying the combos in the ring activates an enabled one whose keys wait. -/
theorem applied_active (orderly : Orderly ready) {index : Nat} (member : index ∈ ready.pending)
    (enabled : (ready.combos index).disabled = false)
    (held : HeldBy cfg (ready.keyBuffer.map QueuedRecord.keycode) index) :
    ((ready.pending.foldl applyCombo ready).combos index).active := by
  have spared (todo : List Nat) (absent : index ∉ todo) (s : State cfg World) :
      (todo.foldl applyCombo s).combos index = s.combos index ∧
        (todo.foldl applyCombo s).keyBuffer.map QueuedRecord.keycode =
          s.keyBuffer.map QueuedRecord.keycode := by
    induction todo generalizing s with
    | nil => exact ⟨rfl, rfl⟩
    | cons other rest ih =>
      rw [List.mem_cons, not_or] at absent
      have spares := spares_applyCombo s other
      obtain ⟨combos, keys⟩ := ih absent.2 (applyCombo s other)
      exact ⟨combos.trans (spares.others index absent.1), keys.trans spares.keycodes⟩
  obtain ⟨before, behind, split⟩ := List.append_of_mem member
  have distinct := orderly.distinct
  rw [split, List.nodup_append, List.nodup_cons] at distinct
  have early : index ∉ before := fun inside =>
    distinct.2.2 index inside index List.mem_cons_self rfl
  obtain ⟨combos, keys⟩ := spared before early ready
  rw [split, List.foldl_append, List.foldl_cons, (spared behind distinct.2.1.1 _).1,
    applyCombo_enabled (by rw [combos]; exact enabled), dropComboFromBuffer_active, activated,
    update_combos_self]
  rw [← keys] at held
  dsimp only
  rw [held.reaches, Bool.or_true]

theorem clearCombos_active (s : State cfg World) (index : Nat)
    (active : (s.combos index).active) : ((clearCombos s).combos index).active := by
  simp [clearCombos, active]

theorem settled_active (orderly : Orderly ready) {index : Nat} (member : index ∈ ready.pending)
    (enabled : (ready.combos index).disabled = false)
    (held : HeldBy cfg (ready.keyBuffer.map QueuedRecord.keycode) index) :
    ((settled host ready).combos index).active := by
  have some : ready.comboBufferRead ≠ ready.comboBufferWrite := by
    intro none
    rw [orderly.ringed.pending_eq_nil_iff.mpr none] at member
    cases member
  rw [settled, if_pos some, applyCombos_eq orderly.ringed]
  exact clearCombos_active _ index (applied_active orderly member enabled held)

/-- Behind a settled step no key of an enabled combo is down and no key waits. -/
theorem covered_cleared (orderly : Orderly after)
    (rested : ∀ index, (after.combos index).active = false → (after.combos index).state = 0) :
    Covered after keycodes := by
  refine ⟨orderly, fun _ index enabled key down => ?_⟩
  rw [rested index (orderly.idle enabled)] at down
  simp at down

theorem clearCombos_state (s : State cfg World) (index : Nat)
    (idle : ((clearCombos s).combos index).active = false) :
    ((clearCombos s).combos index).state = 0 := by
  by_cases active : (s.combos index).active <;> simp_all [clearCombos]

theorem settled_state (ready : State cfg World) (index : Nat)
    (idle : ((settled host ready).combos index).active = false) :
    ((settled host ready).combos index).state = 0 := by
  unfold settled at idle ⊢
  split at idle
  · next some =>
    rw [if_pos some]
    exact clearCombos_state _ index idle
  · next none =>
    rw [if_neg none]
    exact clearCombos_state _ index idle

end Settling

/-! ### Runs -/

/-- What holds of the completed combos between two steps. -/
structure Tracks (w : Watched cfg World) : Prop where
  covered : Covered w.state (w.state.keyBuffer.map QueuedRecord.keycode)
  listed : w.roomy → Listed w.state (w.state.keyBuffer.map QueuedRecord.keycode) w.completed

section Runs

variable {host} {s : State cfg World} {w : Watched cfg World} {keycodes : List (BitVec 16)}
  {completed : List Nat}

theorem Covered.mono (covered : Covered s keycodes) (more : List (BitVec 16)) :
    Covered s (keycodes ++ more) := by
  refine ⟨covered.orderly, fun room index enabled key down => ?_⟩
  obtain ⟨keycode, member, here⟩ := covered.typed room index enabled key down
  exact ⟨keycode, List.mem_append_left more member, here⟩

theorem Listed.mono {more : List (BitVec 16)} (listed : Listed s keycodes completed)
    (grows : keycodes <+: more) : Listed s more completed :=
  ⟨listed.ready, fun index member => (listed.held index member).mono grows⟩

theorem Covered.processCombosFrom (covered : Covered s keycodes) (bits : 0 < cfg.stateBits)
    (now keycode : BitVec 16) (record : Record) (typed : keycode ∈ keycodes)
    (indices : List Nat) :
    Covered (processCombosFrom host now keycode record indices s).1 keycodes := by
  induction indices generalizing s with
  | nil => exact covered
  | cons index rest ih => exact ih (covered.processSingleCombo bits now keycode record typed index)

theorem processCombosFrom_keyBuffer (orderly : Orderly s) (bits : 0 < cfg.stateBits)
    (now keycode : BitVec 16) (record : Record) (indices : List Nat) :
    (processCombosFrom host now keycode record indices s).1.keyBuffer = s.keyBuffer := by
  induction indices generalizing s with
  | nil => rfl
  | cons index rest ih =>
    exact (ih (orderly.processSingleCombo bits now keycode record index)).trans
      (processSingleCombo_keyBuffer host now orderly.ringed keycode record index)

/-- A loop that completes no combo keeps the list. -/
theorem Listed.processCombosFrom_none (listed : Listed s keycodes completed) (orderly : Orderly s)
    (bits : 0 < cfg.stateBits) (now keycode : BitVec 16) (record : Record) (indices : List Nat)
    (none : completedFrom host now keycode record indices s = []) :
    Listed (Combo.processCombosFrom host now keycode record indices s).1 keycodes completed := by
  induction indices generalizing s with
  | nil => exact listed
  | cons index rest ih =>
    rw [completedFrom, List.append_eq_nil_iff] at none
    have incomplete : ¬completes now s keycode record index := by
      intro complete
      rw [if_pos complete] at none
      exact List.cons_ne_nil _ _ none.1
    exact ih (listed.processSingleCombo orderly.ringed incomplete)
      (orderly.processSingleCombo bits now keycode record index) none.2

theorem listed_nil (s : State cfg World) (keycodes : List (BitVec 16)) : Listed s keycodes [] :=
  ⟨by simp, by simp⟩

/-- A key event that buffers its key puts the combos it completes on the list. -/
theorem Tracks.buffered (tracks : Tracks w) (bits : 0 < cfg.stateBits) (now keycode : BitVec 16)
    (record : Record) (pressed : record.pressed) {looped : State cfg World} {completing : List Nat}
    (looping : looped = (processCombosFrom host now keycode record
      (List.range cfg.keyCombos.length) w.state).1)
    (completion : completing = completedFrom host now keycode record
      (List.range cfg.keyCombos.length) w.state) :
    Tracks {
      state := settleKey host now looped keycode record true
      completed := w.completed ++ completing
      roomy := w.roomy && decide (completing = [] ∨ HasRoom w.state completing.length) } := by
  have orderly := tracks.covered.orderly
  have kept : looped.keyBuffer = w.state.keyBuffer :=
    looping ▸ processCombosFrom_keyBuffer orderly bits now keycode record _
  have covered : Covered looped (w.state.keyBuffer.map QueuedRecord.keycode ++ [keycode]) :=
    looping ▸ (tracks.covered.mono [keycode]).processCombosFrom bits now keycode record (by simp) _
  have same : settleKey host now looped keycode record true =
      { looped with
        timer := now
        keyBuffer :=
          if w.state.keyBuffer.length < cfg.comboKeyBufferLength then
            w.state.keyBuffer ++ [{ record := record, keycode := keycode }]
          else w.state.keyBuffer } := by
    rw [settleKey, if_pos (by simp [pressed]), kept]
  have listed (roomy : w.roomy) (none : completing = []) :
      Listed looped (w.state.keyBuffer.map QueuedRecord.keycode) (w.completed ++ completing) := by
    rw [none, List.append_nil, looping]
    exact (tracks.listed roomy).processCombosFrom_none orderly bits now keycode record _
      (completion ▸ none)
  rw [same]
  by_cases room : w.state.keyBuffer.length < cfg.comboKeyBufferLength
  · have keys : (w.state.keyBuffer ++ [({ record, keycode } : QueuedRecord)]).map
        QueuedRecord.keycode = w.state.keyBuffer.map QueuedRecord.keycode ++ [keycode] := by simp
    rw [if_pos room]
    refine ⟨?_, fun roomy => ?_⟩ <;> dsimp only at * <;> rw [keys]
    · refine ⟨⟨⟨covered.orderly.ringed.read, covered.orderly.ringed.write⟩, covered.orderly.distinct,
        covered.orderly.spent⟩, fun _ => covered.typed (by rwa [kept])⟩
    · rw [Bool.and_eq_true, decide_eq_true_eq] at roomy
      rcases roomy.2 with none | ⟨ringRoom, -, real⟩
      · have before := (listed roomy.1 none).mono (List.prefix_append _ [keycode])
        exact ⟨before.ready, before.held⟩
      · have grown : Listed looped (w.state.keyBuffer.map QueuedRecord.keycode ++ [keycode])
            (w.completed ++ completing) := by
          rw [looping, completion]
          exact ((tracks.listed roomy.1).mono (List.prefix_append _ _)).processCombosFrom bits now
            keycode record _ (tracks.covered.mono [keycode]) (completion ▸ ringRoom) room real
        exact ⟨grown.ready, grown.held⟩
  · rw [if_neg room]
    refine ⟨⟨⟨⟨covered.orderly.ringed.read, covered.orderly.ringed.write⟩, covered.orderly.distinct,
      covered.orderly.spent⟩, fun more => absurd more room⟩, fun roomy => ?_⟩
    dsimp only at *
    rw [Bool.and_eq_true, decide_eq_true_eq] at roomy
    have before := listed roomy.1 (roomy.2.resolve_right fun hasRoom => room hasRoom.2.1)
    exact ⟨before.ready, before.held⟩

/-- Behind a step that settles or switches combos off, no key of an idle combo is
down. -/
theorem exec_rested {call : Call}
    (resets : (call.settling host s).isSome ∨ call.turnsOff s) (index : Nat)
    (idle : ((call.exec host s).combos index).active = false) :
    ((call.exec host s).combos index).state = 0 := by
  rcases resets with settles | off
  · obtain ⟨ready, settles⟩ := Option.isSome_iff_exists.mp settles
    obtain ⟨timer, longestTerm, same⟩ := exec_of_settling settles
    rw [same] at idle ⊢
    exact settled_state ready index idle
  · cases call with
    | comboTask now => cases off
    | processCombo now keycode record =>
      have plain : switches keycode record := by
        simp only [Call.turnsOff, Bool.and_eq_true, Bool.or_eq_true, decide_eq_true_eq] at off
        obtain ⟨pressed, rfl | ⟨rfl, -⟩⟩ := off
        · exact ⟨.inr (.inl rfl), pressed⟩
        · exact ⟨.inr (.inr rfl), pressed⟩
      rw [exec_of_switches plain, if_pos off] at idle ⊢
      exact clearCombos_state _ index idle

theorem Tracks.exec (tracks : Tracks w) (bits : 0 < cfg.stateBits) (call : Call) :
    Tracks (w.exec host call) := by
  have orderly' := tracks.covered.orderly
  have orderly : Orderly (call.exec host w.state) := orderly'.exec bits call
  unfold Watched.exec
  dsimp only
  split
  · next resets =>
    rw [Bool.or_eq_true] at resets
    refine ⟨covered_cleared orderly (exec_rested resets), fun _ => listed_nil _ _⟩
  · next goes =>
    rw [Bool.or_eq_true, not_or] at goes
    have unsettled : call.settling host w.state = none := by simpa using goes.1
    cases call with
    | comboTask now =>
      rw [comboTask_of_not_settling unsettled]
      refine ⟨tracks.covered, fun roomy => ?_⟩
      rw [Bool.and_eq_true] at roomy
      simpa [Call.completing] using tracks.listed roomy.1
    | processCombo now keycode record =>
      by_cases plain : switches keycode record
      · rw [exec_of_switches plain, if_neg goes.2]
        refine ⟨⟨⟨⟨orderly'.ringed.read, orderly'.ringed.write⟩, orderly'.distinct, orderly'.spent⟩,
          tracks.covered.typed⟩, fun roomy => ?_⟩
        rw [Bool.and_eq_true] at roomy
        have before := tracks.listed roomy.1
        simp only [Call.completing, if_pos plain, List.append_nil]
        exact ⟨before.ready, before.held⟩
      · obtain ⟨pressed, -, same⟩ := processCombo_of_not_settling plain unsettled
        rw [same]
        simpa only [Call.completing, if_neg plain] using
          tracks.buffered bits now keycode record pressed rfl rfl

theorem tracks_boot (cfg : Config) (world : World) : Tracks ⟨boot cfg world, [], true⟩ := by
  refine ⟨covered_cleared (orderly_boot cfg world) fun _ _ => rfl, fun _ => listed_nil _ _⟩

/-- A settling step activates the completed combos that it is spared for. -/
theorem Tracks.noneLost (tracks : Tracks w) {call : Call} (spared : Spared host w call) :
    NoneLost host w call := by
  intro settles apart index member
  obtain ⟨ready, settles⟩ := Option.isSome_iff_exists.mp settles
  obtain ⟨roomy, enabled⟩ := spared ready settles apart
  have orderly := tracks.covered.orderly
  have sheds := sheds_settling settles
  have listed := (tracks.listed roomy).sheds orderly.ringed sheds
  have waits : index ∈ ready.pending := by
    refine (listed.ready index member).resolve_right fun disabled => ?_
    rw [enabled index member] at disabled
    exact Bool.false_ne_true disabled
  have held := listed.held index member
  rw [← sheds.keyBuffer] at held
  obtain ⟨timer, longestTerm, same⟩ := exec_of_settling settles
  rw [same]
  exact settled_active (orderly.sheds sheds) waits (enabled index member) held

/-- In every run, combos that are completed within their terms before the waiting
keys are settled, and do not overlap, are all activated then, if each of them found
room in the ring and in the key buffer and none is disabled. -/
theorem completed_combos_activated (bits : 0 < cfg.stateBits) (world : World)
    (calls : List Call) :
    Along (Watched.exec host) (fun w call => Spared host w call → NoneLost host w call)
      ⟨boot cfg world, [], true⟩ calls := by
  have each : ∀ w : Watched cfg World, Tracks w → Along (Watched.exec host)
      (fun w call => Spared host w call → NoneLost host w call) w calls := by
    induction calls with
    | nil => exact fun _ _ => trivial
    | cons call rest ih => exact fun w tracks => ⟨tracks.noneLost, ih _ (tracks.exec bits call)⟩
  exact each _ (tracks_boot cfg world)

end Runs

/-- A key that is a combo of its own, in a ring of a given size. -/
def lonelyKey (entries : Nat) (ringed : 0 < entries) : Config where
  keyCombos := [{ keys := [4], keycode := 30 }]
  comboBufferLength := entries
  ringed := ringed

/-- Four combos without a common key, and buffers of the default sizes. -/
def fourChords : Config where
  keyCombos := [{ keys := [12, 13], keycode := 30 }, { keys := [14, 15], keycode := 31 },
    { keys := [16, 17], keycode := 32 }, { keys := [18, 19], keycode := 33 }]
  ringed := (by decide : 0 < 2 + 2)

theorem lonely_combo_activated :
    Along (Watched.exec deaf) (fun w call => Spared deaf w call → NoneLost deaf w call)
        ⟨boot (lonelyKey 2 (by decide)) (), [], true⟩ [typed true 4, typed false 4] ∧
      Along (Watched.exec deaf) (Spared deaf) ⟨boot (lonelyKey 2 (by decide)) (), [], true⟩
        [typed true 4, typed false 4] :=
  ⟨completed_combos_activated (by decide) () _, by decide +kernel⟩

/-- The presses of I to P. -/
def eightPresses : List Call :=
  [typed true 12, typed true 13, typed true 14, typed true 15, typed true 16, typed true 17,
    typed true 18, typed true 19]

/-- The last free entry of the ring makes it look empty: one combo in a ring of one,
or four in a ring of four, are completed and lost. -/
theorem full_ring_lost :
    ¬Along (Watched.exec deaf) (NoneLost deaf) ⟨boot (lonelyKey 1 (by decide)) (), [], true⟩
        [typed true 4, typed false 4] ∧
      (∀ index : Nat, index < 4 → (typed true (BitVec.ofNat 16 (13 + 2 * index))).completing deaf
        (Lib.run (Call.exec deaf) (boot fourChords ()) (eightPresses.take (2 * index + 1))) =
          [index]) ∧
      ∀ index : Nat, index < 4 → ((Lib.run (Call.exec deaf) (boot fourChords ())
        (eightPresses ++ [typed false 12])).combos index).active = false := by
  decide +kernel

end QmkSonix.Combo
