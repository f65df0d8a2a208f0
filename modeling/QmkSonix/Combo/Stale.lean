import QmkSonix.Combo.Ready

/-! Runs of key events and `combo_task` calls, and what `apply_combos` leaves in
the ring in them. -/

namespace QmkSonix.Combo

open Lib

variable {cfg : Config} {World : Type*} (host : Host World)

/-- The state after start-up. -/
def boot (cfg : Config) (world : World) : State cfg World := { world := world }

/-- A key event, with the time of `timer_read`, or a call of `combo_task`. -/
inductive Call where
  | processCombo (now keycode : BitVec 16) (record : Record)
  | comboTask (now : BitVec 16)

def Call.exec (s : State cfg World) : Call → State cfg World
  | .processCombo now keycode record => (Combo.processCombo host now s keycode record).1
  | .comboTask now => Combo.comboTask host now s

/-- The keycodes that switch combos on or off when they are pressed. -/
def switches (keycode : BitVec 16) (record : Record) : Prop :=
  (keycode = cmbOn ∨ keycode = cmbOff ∨ keycode = cmbTog) ∧ record.pressed

instance (keycode : BitVec 16) (record : Record) : Decidable (switches keycode record) :=
  inferInstanceAs (Decidable (_ ∧ _))

/-- The state in which a key event or a call of `combo_task` leaves the waiting keys
and combos to be settled, if it does. -/
def Call.settling (s : State cfg World) : Call → Option (State cfg World)
  | .processCombo now keycode record =>
    if switches keycode record then none
    else
      let looped :=
        processCombosFrom host now keycode record (List.range cfg.keyCombos.length) s
      if record.pressed && looped.2 then none else some looped.1
  | .comboTask now =>
    if s.comboEnabled ∧ s.timer ≠ 0 ∧ s.longestTerm < now - s.timer then some s else none

/-- The key that switches combos off is pressed. -/
def Call.turnsOff (s : State cfg World) : Call → Bool
  | .processCombo _ keycode record =>
    record.pressed && (keycode = cmbOff || (keycode = cmbTog && s.comboEnabled))
  | .comboTask _ => false

/-- The state in which `apply_combos` is called, if it is. -/
def Call.applying (s : State cfg World) (call : Call) : Option (State cfg World) :=
  (call.settling host s).filter fun ready => ready.comboBufferRead ≠ ready.comboBufferWrite

section Steps

variable {host} {s : State cfg World}

/-- What settling a state comes to: the ready combos are applied, if there are any. -/
def settled (host : Host World) (ready : State cfg World) : State cfg World :=
  if ready.comboBufferRead ≠ ready.comboBufferWrite then applyCombos host ready
  else clearCombos (dumpKeyBuffer host ready)

theorem settleKey_settles (host : Host World) (s : State cfg World) (now keycode : BitVec 16) (record : Record) {isComboKey : Bool}
    (unbuffered : ¬(record.pressed && isComboKey)) :
    ∃ timer, settleKey host now s keycode record isComboKey =
      { settled host s with timer := timer } := by
  rw [settleKey, if_neg unbuffered, settled]
  split
  · exact ⟨_, rfl⟩
  · exact ⟨_, rfl⟩

theorem processCombo_of_not_switches {now keycode : BitVec 16} {record : Record}
    (plain : ¬switches keycode record) :
    (processCombo host now s keycode record).1 =
      settleKey host now
        (processCombosFrom host now keycode record (List.range cfg.keyCombos.length) s).1
        keycode record
        (processCombosFrom host now keycode record (List.range cfg.keyCombos.length) s).2 := by
  have notOn : ¬(keycode = cmbOn ∧ record.pressed) := fun on => plain ⟨.inl on.1, on.2⟩
  have notOff : ¬(keycode = cmbOff ∧ record.pressed) := fun off => plain ⟨.inr (.inl off.1), off.2⟩
  have notTog : ¬(keycode = cmbTog ∧ record.pressed) := fun tog => plain ⟨.inr (.inr tog.1), tog.2⟩
  rw [processCombo, if_neg notOn, if_neg notOff, if_neg notTog]

theorem exec_of_switches {now keycode : BitVec 16} {record : Record}
    (plain : switches keycode record) :
    (Call.processCombo now keycode record).exec host s =
      if (Call.processCombo now keycode record).turnsOff s then comboDisable host s
      else comboEnable s := by
  obtain ⟨which, pressed⟩ := plain
  simp only [Call.exec, Call.turnsOff, processCombo, pressed, and_true, comboToggle]
  rcases which with rfl | rfl | rfl
  · simp [cmbOn, cmbOff, cmbTog]
  · simp [cmbOn, cmbOff]
  · simp [cmbOn, cmbOff, cmbTog]

theorem comboTask_of_not_settling {now : BitVec 16}
    (unsettled : (Call.comboTask now).settling host s = none) :
    (Call.comboTask now).exec host s = s := by
  simp only [Call.settling] at unsettled
  split at unsettled
  · cases unsettled
  · next waits => exact if_neg waits

/-- A key event that does not settle buffers its key. -/
theorem processCombo_of_not_settling {now keycode : BitVec 16} {record : Record}
    (plain : ¬switches keycode record)
    (unsettled : (Call.processCombo now keycode record).settling host s = none) :
    record.pressed ∧
      (processCombosFrom host now keycode record (List.range cfg.keyCombos.length) s).2 ∧
      (Call.processCombo now keycode record).exec host s = settleKey host now
        (processCombosFrom host now keycode record (List.range cfg.keyCombos.length) s).1
        keycode record true := by
  simp only [Call.settling, plain, if_false] at unsettled
  split at unsettled
  · next buffers =>
    rw [Bool.and_eq_true] at buffers
    exact ⟨buffers.1, buffers.2, (processCombo_of_not_switches plain).trans (by rw [buffers.2])⟩
  · cases unsettled

/-- The rest of a step that settles changes the timers only. -/
theorem exec_of_settling {call : Call} {ready : State cfg World}
    (settles : call.settling host s = some ready) :
    ∃ timer longestTerm, call.exec host s =
      { settled host ready with timer := timer, longestTerm := longestTerm } := by
  cases call with
  | processCombo now keycode record =>
    simp only [Call.settling] at settles
    split at settles
    · cases settles
    next plain =>
    split at settles
    · cases settles
    next unbuffered =>
    obtain rfl := Option.some.inj settles
    obtain ⟨timer, same⟩ := settleKey_settles host
      (processCombosFrom host now keycode record (List.range cfg.keyCombos.length) s).1
      now keycode record unbuffered
    exact ⟨timer, _, (processCombo_of_not_switches plain).trans same⟩
  | comboTask now =>
    simp only [Call.settling] at settles
    split at settles
    · next elapsed =>
      obtain rfl := Option.some.inj settles
      simp only [Call.exec, comboTask, if_pos elapsed, settled]
      split
      · exact ⟨_, _, rfl⟩
      · exact ⟨_, _, rfl⟩
    · cases settles

end Steps

/-! ### The ring along a run -/

/-- The ring holds no combo twice, and an active combo is disabled. -/
structure Orderly (s : State cfg World) : Prop where
  ringed : Ringed s
  distinct : s.pending.Nodup
  spent : ∀ index, (s.combos index).active → (s.combos index).disabled

section Orderly

variable {host} {s after : State cfg World}

theorem Orderly.sheds (orderly : Orderly s) (sheds : Sheds s after) : Orderly after :=
  ⟨sheds.ringed orderly.ringed, orderly.distinct.sublist (sheds.suffix orderly.ringed).sublist,
    fun index active => sheds.disabled index (orderly.spent index (sheds.active index active))⟩

theorem Orderly.keyPressed (orderly : Orderly s) (comboIndex keyIndex : Nat) :
    Orderly (keyPressed s comboIndex keyIndex) := by
  have pending := keyPressed_pending s comboIndex keyIndex
  refine ⟨orderly.ringed.keyPressed comboIndex keyIndex, pending ▸ orderly.distinct,
    fun index active => ?_⟩
  · rw [keyPressed_disabled]
    apply orderly.spent
    rcases keyPressed_combos s comboIndex keyIndex index with same | ⟨-, same⟩ <;>
      rwa [same] at active

/-- A combo that is not disabled is not active. -/
theorem Orderly.idle (orderly : Orderly s) {index : Nat}
    (enabled : (s.combos index).disabled = false) : (s.combos index).active = false := by
  by_contra active
  have disabled := orderly.spent index (Bool.not_eq_false _ ▸ active)
  rw [enabled] at disabled
  exact Bool.false_ne_true disabled

theorem allComboKeysAreDown_iff {bits : Nat} (state : BitVec bits) (keyCount : Nat) :
    allComboKeysAreDown state keyCount ↔
      keyCount ≤ bits ∧ ∀ key, state.getLsbD key = decide (key < keyCount) := by
  rw [allComboKeysAreDown, decide_eq_true_eq]
  constructor
  · intro same
    have fits : keyCount ≤ bits := by
      have bound := state.isLt
      rw [← same] at bound
      exact (Nat.pow_le_pow_iff_right (a := 2) (by decide)).mp (by omega)
    refine ⟨fits, fun key => ?_⟩
    rw [BitVec.getLsbD, ← same, Nat.testBit_two_pow_sub_one]
  · rintro ⟨-, down⟩
    apply Nat.eq_of_testBit_eq
    intro key
    rw [Nat.testBit_two_pow_sub_one, ← down key]
    rfl

/-- A combo with all keys down has a key. -/
theorem keyed_of_down (bits : 0 < cfg.stateBits) {keycode : BitVec 16} {comboIndex keyIndex : Nat}
    (found : (findKeyIndexAndCount (cfg.keyCombo comboIndex).keys keycode).1 = some keyIndex)
    (idle : (s.combos comboIndex).active = false)
    (down : allComboKeysAreDown ((keyPressed s comboIndex keyIndex).combos comboIndex).state
      (cfg.keyCombo comboIndex).keys.length) : (cfg.keyCombo comboIndex).keys ≠ [] := by
  intro none
  rw [none, findKeyIndexAndCount, findKey] at found
  obtain rfl : keyIndex = 0 := by
    split at found
    · exact (Option.some.inj found).symm
    · cases found
  have first := ((allComboKeysAreDown_iff _ _).mp down).2 0
  have pressed : ((keyPressed s comboIndex 0).combos comboIndex).state =
      keyStateDown (s.combos comboIndex).state 0 := by
    rw [keyPressed, if_neg (by simp [idle])]
    simp [State.update]
  rw [pressed, keyStateDown, none] at first
  simp [bits] at first

/-- Saving a combo that the ring does not hold. -/
theorem Orderly.saveReady (orderly : Orderly s) {comboIndex : Nat} (absent : comboIndex ∉ s.pending) :
    Orderly (saveReady s comboIndex) := by
  refine ⟨orderly.ringed.saveReady comboIndex, ?_, orderly.spent⟩
  rw [pending_saveReady orderly.ringed]
  split
  · rw [← List.concat_eq_append]
    exact orderly.distinct.concat absent
  · exact List.nodup_nil

theorem Orderly.readyCombo (orderly : Orderly s) (now : BitVec 16) {comboIndex : Nat}
    (keyed : (cfg.keyCombo comboIndex).keys ≠ []) : Orderly (readyCombo now s comboIndex) := by
  rcases readyCombo_cases now orderly.ringed comboIndex with
    ⟨sheds, -⟩ | ⟨cleared, sheds, saved, kept⟩
  · exact orderly.sheds sheds
  · rw [saved]
    refine (orderly.sheds sheds).saveReady fun member => ?_
    exact kept comboIndex ((sheds.suffix orderly.ringed).subset member) (overlaps_self keyed _)

theorem Orderly.pressComboKey (orderly : Orderly s) (bits : 0 < cfg.stateBits) (now : BitVec 16)
    {keycode : BitVec 16} {comboIndex keyIndex : Nat}
    (found : (findKeyIndexAndCount (cfg.keyCombo comboIndex).keys keycode).1 = some keyIndex)
    (enabled : (s.combos comboIndex).disabled = false) :
    Orderly (pressComboKey now s comboIndex keyIndex (cfg.keyCombo comboIndex).keys.length) := by
  rw [pressComboKey_eq]
  split
  · next down =>
    exact (orderly.keyPressed comboIndex keyIndex).readyCombo now
      (keyed_of_down bits found (orderly.idle enabled) down)
  · exact orderly.keyPressed comboIndex keyIndex

theorem findKeyIndexAndCount_snd (keys : List (BitVec 16)) (keycode : BitVec 16) :
    (findKeyIndexAndCount keys keycode).2 = keys.length := by
  rw [findKeyIndexAndCount, findKey_snd, Nat.zero_add]

/-- What `process_single_combo` does: nothing, a press or a release. -/
theorem processSingleCombo_cases (host : Host World) (now : BitVec 16) (s : State cfg World) (keycode : BitVec 16)
    (record : Record) (comboIndex : Nat) :
    processSingleCombo host now s keycode record comboIndex = (s, false) ∨
    ∃ keyIndex,
      (findKeyIndexAndCount (cfg.keyCombo comboIndex).keys keycode).1 = some keyIndex ∧
      ((record.pressed && !(s.combos comboIndex).disabled && s.comboEnabled) = true ∧
          processSingleCombo host now s keycode record comboIndex =
            (pressComboKey now s comboIndex keyIndex (cfg.keyCombo comboIndex).keys.length, true) ∨
        (record.pressed && !(s.combos comboIndex).disabled && s.comboEnabled) = false ∧
          processSingleCombo host now s keycode record comboIndex =
            releaseComboKey host now s comboIndex keyIndex
              (cfg.keyCombo comboIndex).keys.length) := by
  have counted := findKeyIndexAndCount_snd (cfg.keyCombo comboIndex).keys keycode
  unfold processSingleCombo
  split
  · exact .inl rfl
  · next keyIndex keyCount found =>
    obtain rfl : keyCount = (cfg.keyCombo comboIndex).keys.length := by
      rw [found] at counted
      exact counted
    refine .inr ⟨keyIndex, by rw [found], ?_⟩
    split
    · next presses => exact .inl ⟨presses, rfl⟩
    · next releases => exact .inr ⟨Bool.not_eq_true _ ▸ releases, rfl⟩

theorem processSingleCombo_press (host : Host World) {now keycode : BitVec 16} {record : Record}
    {comboIndex keyIndex : Nat}
    (found : (findKeyIndexAndCount (cfg.keyCombo comboIndex).keys keycode).1 = some keyIndex)
    (presses : (record.pressed && !(s.combos comboIndex).disabled && s.comboEnabled) = true) :
    processSingleCombo host now s keycode record comboIndex =
      (pressComboKey now s comboIndex keyIndex (cfg.keyCombo comboIndex).keys.length, true) := by
  have whole : findKeyIndexAndCount (cfg.keyCombo comboIndex).keys keycode =
      (some keyIndex, (cfg.keyCombo comboIndex).keys.length) :=
    Prod.ext found (findKeyIndexAndCount_snd _ _)
  rw [processSingleCombo, whole]
  exact if_pos presses

theorem Orderly.processSingleCombo (orderly : Orderly s) (bits : 0 < cfg.stateBits)
    (now keycode : BitVec 16) (record : Record) (comboIndex : Nat) :
    Orderly (processSingleCombo host now s keycode record comboIndex).1 := by
  rcases processSingleCombo_cases host now s keycode record comboIndex with
    same | ⟨keyIndex, found, ⟨presses, same⟩ | ⟨-, same⟩⟩ <;> rw [same]
  · exact orderly
  · rw [Bool.and_eq_true, Bool.and_eq_true, Bool.not_eq_true'] at presses
    exact orderly.pressComboKey bits now found presses.1.2
  · exact orderly.sheds (sheds_releaseComboKey host now s comboIndex keyIndex _)

theorem Orderly.processCombosFrom (orderly : Orderly s) (bits : 0 < cfg.stateBits)
    (now keycode : BitVec 16) (record : Record) (indices : List Nat) :
    Orderly (processCombosFrom host now keycode record indices s).1 := by
  induction indices generalizing s with
  | nil => exact orderly
  | cons index rest ih => exact ih (orderly.processSingleCombo bits now keycode record index)

/-- An applied combo is dropped, so that it is disabled once it is active. -/
theorem Orderly.applyCombo (orderly : Orderly s) {index : Nat} (member : index ∈ s.pending) :
    Orderly (applyCombo s index) := by
  cases enabled : (s.combos index).disabled with
  | true =>
    rw [applyCombo_disabled enabled]
    exact orderly
  | false =>
    have spares := spares_applyCombo s index
    have sheds := sheds_dropComboFromBuffer (activated s index) index
    have suffix : (Combo.applyCombo s index).pending <:+ s.pending := by
      rw [applyCombo_enabled enabled]
      exact sheds.suffix (orderly.ringed.activated index)
    refine ⟨spares.ringed orderly.ringed, orderly.distinct.sublist suffix.sublist, ?_⟩
    intro other active
    by_cases same : other = index
    · subst same
      rw [applyCombo_enabled enabled]
      have entries : (activated s other).pending = s.pending := rfl
      obtain ⟨first, rest, split⟩ := List.exists_cons_of_ne_nil (List.ne_nil_of_mem member)
      rw [split] at entries member
      by_cases head : first = other
      · subst head
        rw [(dropComboFromBuffer_head (orderly.ringed.activated first) entries).1]
        simp [disableCombo]
      · have later : other ∈ rest := (List.mem_cons.mp member).resolve_left (Ne.symm head)
        rw [dropComboFromBuffer_behind (orderly.ringed.activated other) entries head, if_pos later]
        simp [disableCombo]
    · rw [spares.others other same] at active ⊢
      exact orderly.spent other active

theorem Orderly.applied (orderly : Orderly s) {todo : List Nat} (distinct : todo.Nodup)
    (within : ∀ index ∈ todo, index ∈ s.pending) : Orderly (todo.foldl Combo.applyCombo s) := by
  induction todo generalizing s with
  | nil => exact orderly
  | cons index rest ih =>
    rw [List.nodup_cons] at distinct
    rw [List.forall_mem_cons] at within
    refine ih (orderly.applyCombo within.1) distinct.2 fun other member => ?_
    have apart : other ≠ index := ne_of_mem_of_not_mem member distinct.1
    cases enabled : (s.combos index).disabled with
    | true =>
      rw [applyCombo_disabled enabled]
      exact within.2 other member
    | false =>
      obtain ⟨first, later, split⟩ := List.exists_cons_of_ne_nil (List.ne_nil_of_mem within.1)
      by_cases head : first = index
      · subst head
        rw [applyCombo_head orderly.ringed split enabled]
        have here := within.2 other member
        rw [split] at here
        exact (List.mem_cons.mp here).resolve_left apart
      · rw [applyCombo_behind orderly.ringed split head, ← split]
        exact within.2 other member

theorem Orderly.clearCombos (orderly : Orderly s) : Orderly (clearCombos s) := by
  refine ⟨⟨orderly.ringed.read, orderly.ringed.write⟩, orderly.distinct, fun index => ?_⟩
  unfold Combo.clearCombos
  dsimp only
  split
  · exact orderly.spent index
  · next idle => exact fun active => absurd active idle

theorem Orderly.dumpKeyBuffer (orderly : Orderly s) : Orderly (dumpKeyBuffer host s) :=
  ⟨⟨orderly.ringed.read, orderly.ringed.write⟩, orderly.distinct, orderly.spent⟩

theorem Orderly.applyCombos (orderly : Orderly s) : Orderly (applyCombos host s) := by
  rw [applyCombos_eq orderly.ringed]
  exact (orderly.applied orderly.distinct fun _ member => member).dumpKeyBuffer.clearCombos

theorem Orderly.settled (orderly : Orderly s) : Orderly (settled host s) := by
  unfold Combo.settled
  split
  · exact orderly.applyCombos
  · exact orderly.dumpKeyBuffer.clearCombos

theorem Orderly.comboDisable (orderly : Orderly s) : Orderly (comboDisable host s) := by
  have emptied : Orderly { s with
      timer := 0, comboEnabled := false, comboBufferRead := s.comboBufferWrite } := by
    refine ⟨⟨orderly.ringed.write, orderly.ringed.write⟩, ?_, orderly.spent⟩
    rw [State.pending, stretch_self]
    exact List.nodup_nil
  exact emptied.clearCombos.dumpKeyBuffer

/-- The state in which a settling step settles is orderly. -/
theorem Orderly.settling (orderly : Orderly s) (bits : 0 < cfg.stateBits) {call : Call}
    (settles : call.settling host s = some after) : Orderly after := by
  cases call with
  | processCombo now keycode record =>
    simp only [Call.settling] at settles
    split at settles
    · cases settles
    split at settles
    · cases settles
    · obtain rfl := Option.some.inj settles
      exact orderly.processCombosFrom bits now keycode record _
  | comboTask now =>
    simp only [Call.settling] at settles
    split at settles
    · obtain rfl := Option.some.inj settles
      exact orderly
    · cases settles

theorem Orderly.exec (orderly : Orderly s) (bits : 0 < cfg.stateBits) (call : Call) :
    Orderly (call.exec host s) := by
  cases settles : call.settling host s with
  | some ready =>
    obtain ⟨timer, longestTerm, same⟩ := exec_of_settling settles
    have kept : Orderly (Combo.settled host ready) := (orderly.settling bits settles).settled
    rw [same]
    exact ⟨⟨kept.ringed.read, kept.ringed.write⟩, kept.distinct, kept.spent⟩
  | none =>
    cases call with
    | comboTask now =>
      rw [comboTask_of_not_settling settles]
      exact orderly
    | processCombo now keycode record =>
      by_cases plain : switches keycode record
      · rw [exec_of_switches plain]
        split
        · exact orderly.comboDisable
        · exact ⟨⟨orderly.ringed.read, orderly.ringed.write⟩, orderly.distinct, orderly.spent⟩
      · obtain ⟨pressed, -, same⟩ := processCombo_of_not_settling plain settles
        have looped : Orderly (Combo.processCombosFrom host now keycode record
            (List.range cfg.keyCombos.length) s).1 :=
          orderly.processCombosFrom bits now keycode record _
        rw [same, settleKey, if_pos (by simp [pressed])]
        exact ⟨⟨looped.ringed.read, looped.ringed.write⟩, looped.distinct, looped.spent⟩

theorem orderly_boot (cfg : Config) (world : World) : Orderly (boot cfg world) := by
  have empty : (boot cfg world).pending = [] := stretch_self _ _ _
  refine ⟨⟨cfg.ringed, cfg.ringed⟩, ?_, fun _ active => (Bool.false_ne_true active).elim⟩
  rw [empty]
  exact List.nodup_nil

theorem pending_applyCombos (ringed : Ringed s) :
    (applyCombos host s).pending = (s.pending.foldl Combo.applyCombo s).pending := by
  rw [applyCombos_eq ringed]
  rfl

end Orderly

/-! ### Stale combos -/

/-- When a step calls `apply_combos`, it returns with an empty ring. -/
def Empties (s : State cfg World) (call : Call) : Prop :=
  ∀ ready ∈ call.applying host s,
    (applyCombos host ready).comboBufferRead = (applyCombos host ready).comboBufferWrite

/-- When a step calls `apply_combos`, no combo in the ring is disabled. -/
def AppliesEnabled (s : State cfg World) (call : Call) : Prop :=
  ∀ ready ∈ call.applying host s,
    ∀ index ∈ ready.pending, (ready.combos index).disabled = false

instance (s : State cfg World) (call : Call) : Decidable (Empties host s call) :=
  inferInstanceAs (Decidable (∀ ready ∈ call.applying host s, _))

instance (s : State cfg World) (call : Call) : Decidable (AppliesEnabled host s call) :=
  inferInstanceAs (Decidable (∀ ready ∈ call.applying host s, _))

/-- Each call of `apply_combos` in a run leaves the ring empty exactly when none of
them finds a disabled combo in it. -/
theorem ready_combos_emptied_iff (bits : 0 < cfg.stateBits) (world : World)
    (calls : List Call) :
    Along (Call.exec host) (Empties host) (boot cfg world) calls ↔
      Along (Call.exec host) (AppliesEnabled host) (boot cfg world) calls := by
  have agree : ∀ (s : State cfg World) (call : Call), Orderly s →
      (Empties host s call ↔ AppliesEnabled host s call) := by
    intro s call orderly
    refine forall₂_congr fun ready applies => ?_
    obtain ⟨settles, -⟩ := Option.filter_eq_some_iff.mp applies
    have here := orderly.settling bits settles
    have applied : Orderly (applyCombos host ready) := here.applyCombos
    rw [← applied.ringed.pending_eq_nil_iff, pending_applyCombos here.ringed]
    exact applied_pending_eq_nil_iff here.ringed here.distinct
  exact along_congr (fun s call orderly _ => orderly.exec bits call) agree (orderly_boot cfg world) calls

/-- A firmware that takes no notice. -/
def deaf : Host Unit where
  actionTappingProcess world _ := world
  processComboEvent world _ _ := world

/-- A key with a keycode goes down or up, inside the term of every combo. -/
def typed (pressed : Bool) (keycode : BitVec 16) : Call :=
  .processCombo 1 keycode { event := { key := { row := 0, col := 0 }, pressed, time := 1 } }

/-- A combo of A and B, one of C and D, and one of C, D and E. -/
def nestedChords : Config where
  keyCombos := [{ keys := [20, 21], keycode := 30 }, { keys := [22, 23], keycode := 31 },
    { keys := [22, 23, 24], keycode := 32 }]
  ringed := (by decide : 0 < 3 + 1)

theorem ready_combos_emptied_disjoint :
    Along (Call.exec deaf) (Empties deaf) (boot nestedChords ())
      [typed true 20, typed true 21, typed true 22, typed true 23, typed false 20] :=
  (ready_combos_emptied_iff deaf (by decide) () _).mpr (by decide +kernel)

/-- The combo of S and T is disabled between the two others in the ring. It stays
there with the one behind it. -/
theorem stale_combo_stays :
    ¬Along (Call.exec deaf) (Empties deaf) (boot nestedChords ())
      [typed true 20, typed true 21, typed true 22, typed true 23, typed true 24, typed false 20] ∧
    (Lib.run (Call.exec deaf) (boot nestedChords ())
      [typed true 20, typed true 21, typed true 22, typed true 23, typed true 24,
        typed false 20]).pending = [1, 2] := by
  decide +kernel

end QmkSonix.Combo
