import QmkSonix.Tapping.Drain

/-! The state of the tapping key that `waiting_buffer_scan_tap` calls invalid, and
the first tap that leads to it: one that `process_action` cancels and releases. -/

namespace QmkSonix.Tapping

open QmkSonix.Keyboard QmkSonix.Lib

variable {World : Type*}

/-- A record of a released key with a tap count of 0. -/
def isInvalid (record : KeyRecord) : Bool :=
  !isNoEvent record.event && !record.pressed && record.tap.count = 0

/-- The invalid state: the tapping key is released and its tap count is 0. -/
def State.invalid (s : State World) : Bool := s.isTappingReleased && s.tappingKey.tap.count = 0

namespace Firmware

variable (fw : Firmware World)

/-- The press uses up a oneshot layer whose key is released already, and
`process_action` releases the key that was pressed. -/
def releasesOneshot (world : World) (record : KeyRecord) (action : Action) : Bool :=
  let cleared := fw.clearOneshotLayerState world
  fw.usesOneshotLayer world record action && !fw.isOneshotLayerActive cleared &&
    !fw.keepsOneshotLayer cleared action && !fw.oneshotPressed (fw.perform cleared record action)

/-- `process_record` of a press cancels its tap and releases it. -/
def cancelsAndReleases (world : World) (record : KeyRecord) : Bool :=
  let quantum := fw.processRecordQuantum world record
  let stored := fw.storeOrGetAction quantum.2 record.pressed record.key
  quantum.1 && fw.releasesOneshot stored.2 record stored.1 &&
    fw.cancelsTap (fw.clearOneshotLayerState stored.2) record stored.1

/-- The tapping key with its first tap counted. -/
def firstTap (s : State World) : KeyRecord :=
  { s.tappingKey with tap := { s.tappingKey.tap with count := 1 } }

/-- The tapping key is released in time, and its first tap is cancelled and
released by `process_action`. -/
def losesFirstTap (s : State World) (keyp : KeyRecord) : Bool :=
  s.unresolved && fw.withinTappingTerm s keyp.event && s.isTappingKey keyp.key && !keyp.pressed &&
    fw.cancelsAndReleases s.world (firstTap s)

/-- The calls of `process_tapping` that an input makes. -/
def offers (s : State World) (input : Input World) : List (State World × KeyRecord) :=
  match input.event? with
  | none => []
  | some event => (s, { event := event }) :: fw.bufferedOffers s input

/-- The states behind each call of `process_tapping` that an input makes, and the
state behind the input. -/
def passes (s : State World) (input : Input World) : List (State World) :=
  (fw.offers s input).map (fun offered => (fw.processTapping offered.1 offered.2).state) ++
    [fw.exec s input]

end Firmware

/-- A record that has not been interrupted as a press. -/
def IsFresh (record : KeyRecord) : Prop := record.pressed = true → record.tap.interrupted = false

/-- No press in the waiting buffer has been interrupted. -/
def State.Fresh (s : State World) : Prop := ∀ waiting ∈ s.waitingBuffer, IsFresh waiting

variable {fw : Firmware World} {s : State World} {keyp record : KeyRecord}
  {verdict : Verdict World}

section Records

variable {again : World → KeyRecord → Processed World} {world : World} {action : Action}

theorem isInvalid_pressed (pressed : record.pressed = true) : isInvalid record = false := by
  simp [isInvalid, pressed]

theorem isInvalid_counted (counted : record.tap.count ≠ 0) : isInvalid record = false := by
  simp [isInvalid, counted]

@[simp] theorem isInvalid_noRecord : isInvalid noRecord = false := rfl

/-- A release is left as it is, or emptied when it was counted. -/
theorem leaveRecord_released (released : record.pressed = false) :
    fw.leaveRecord world record action = record ∨
      fw.leaveRecord world record action = noRecord ∧ record.tap.count ≠ 0 := by
  unfold Firmware.leaveRecord
  split
  next cancels => simp [Firmware.cancelsTap, released] at cancels
  next =>
    split
    next resets =>
      simp only [Firmware.resetsTap, decide_eq_true_eq] at resets
      exact .inr ⟨rfl, Nat.pos_iff_ne_zero.mp resets.2.2.2⟩
    next => exact .inl rfl

theorem leaveRecord_pressed (pressed : record.pressed = true) :
    fw.leaveRecord world record action =
      if fw.cancelsTap world record action then
        { record with tap := { record.tap with count := 0 } }
      else record := by
  simp [Firmware.leaveRecord, Firmware.resetsTap, pressed]

theorem leaveRecord_isInvalid (pressed : record.pressed = true) :
    isInvalid (fw.leaveRecord world record action) = false := by
  rw [leaveRecord_pressed pressed]
  split <;> exact isInvalid_pressed pressed

theorem processAction_released (released : record.pressed = false) :
    (fw.processAction again world record action).record =
      fw.leaveRecord world record action := by
  simp [Firmware.processAction, Firmware.usesOneshotLayer, released]

/-- What `process_record` leaves of a release. -/
theorem processRecordBody_left (fw : Firmware World) (again : World → KeyRecord → Processed World)
    (world : World) (released : record.pressed = false) :
    (fw.processRecordBody again world record).record = record ∨
      (fw.processRecordBody again world record).record = noRecord ∧ record.tap.count ≠ 0 := by
  unfold Firmware.processRecordBody
  split
  next => exact .inl rfl
  next =>
    dsimp only
    split
    next =>
      dsimp only [Firmware.processRecordHandler]
      rw [processAction_released released]
      exact leaveRecord_released released
    next => exact .inl rfl

/-- `process_action` leaves a press as a release only for a oneshot layer. -/
theorem processAction_pressed (pressed : record.pressed = true) :
    (fw.processAction again world record action).record =
      if fw.releasesOneshot world record action then
        let left := fw.leaveRecord (fw.clearOneshotLayerState world) record action
        (again (fw.oneshotLayerOn (fw.perform (fw.clearOneshotLayerState world) record action))
          { left with event := { left.event with pressed := false } }).record
      else
        fw.leaveRecord (if fw.usesOneshotLayer world record action then
          fw.clearOneshotLayerState world else world) record action := by
  unfold Firmware.processAction Firmware.releasesOneshot
  cases uses : fw.usesOneshotLayer world record action with
  | false => rfl
  | true =>
    simp only [↓reduceIte, Bool.true_and]
    split <;> rfl

/-- `process_action` leaves a counted press invalid exactly when it cancels its tap
and releases it for a oneshot layer. -/
theorem processAction_isInvalid (pressed : record.pressed = true)
    (event : isNoEvent record.event = false) (counted : record.tap.count ≠ 0) :
    isInvalid (fw.processAction (fw.processRecordBody again) world record action).record =
      (fw.releasesOneshot world record action &&
        fw.cancelsTap (fw.clearOneshotLayerState world) record action) := by
  rw [processAction_pressed pressed]
  cases releases : fw.releasesOneshot world record action with
  | false =>
    rw [if_neg Bool.false_ne_true, Bool.false_and]
    exact leaveRecord_isInvalid pressed
  | true =>
    rw [if_pos rfl, Bool.true_and, leaveRecord_pressed pressed]
    generalize fw.oneshotLayerOn _ = entered
    cases cancels : fw.cancelsTap (fw.clearOneshotLayerState world) record action with
    | false =>
      simp only [Bool.false_eq_true, ↓reduceIte]
      have released : KeyRecord.pressed
          { record with event := { record.event with pressed := false } } = false := rfl
      rcases processRecordBody_left fw again entered released with left | ⟨left, -⟩
      · rw [left]
        exact isInvalid_counted counted
      · rw [left]
        rfl
    | true =>
      simp only [↓reduceIte]
      -- A record that counts no tap is not emptied.
      let cancelled : KeyRecord :=
        { event := { record.event with pressed := false }, tap := { record.tap with count := 0 } }
      have released : cancelled.pressed = false := rfl
      have left := (processRecordBody_left fw again entered released).resolve_right fun emptied =>
        emptied.2 rfl
      have stillEvent : isNoEvent cancelled.event = false := event
      rw [left, isInvalid, stillEvent, released]
      rfl

/-- A counted press is left invalid exactly when its tap is cancelled and it is
released for a oneshot layer. -/
theorem processRecord_isInvalid (event : isNoEvent record.event = false)
    (pressed : record.pressed = true) (counted : record.tap.count ≠ 0) :
    isInvalid (fw.processRecord world record).record = fw.cancelsAndReleases world record := by
  unfold Firmware.processRecord Firmware.cancelsAndReleases
  rw [Firmware.processRecordBody, event, if_neg Bool.false_ne_true]
  cases passes : (fw.processRecordQuantum world record).1 with
  | false => simpa [passes] using isInvalid_pressed pressed
  | true =>
    simp only [passes, ↓reduceIte, Bool.true_and, Firmware.processRecordHandler]
    exact processAction_isInvalid pressed event counted

/-- A release that was counted is not left invalid. -/
theorem processRecord_release (released : record.pressed = false)
    (counted : record.tap.count ≠ 0) : isInvalid (fw.processRecord world record).record = false := by
  rw [Firmware.processRecord]
  rcases processRecordBody_left fw (fw.processRecordBody fun world record =>
    { world := world, record := record, calls := [] }) world released with left | ⟨left, -⟩
  · rw [left]
    exact isInvalid_counted counted
  · rw [left]
    rfl

/-- A press that was not interrupted is not left invalid. -/
theorem processRecord_uninterrupted (counted : record.tap.count ≠ 0)
    (apart : record.tap.interrupted = false) :
    isInvalid (fw.processRecord world record).record = false := by
  by_cases empty : isNoEvent record.event = true
  · rw [processRecord_noEvent empty]
    exact isInvalid_counted counted
  · have event := Bool.eq_false_iff.mpr empty
    cases pressed : record.pressed with
    | false => exact processRecord_release pressed counted
    | true =>
      rw [processRecord_isInvalid event pressed counted]
      simp [Firmware.cancelsAndReleases, Firmware.cancelsTap, apart]

end Records

section Steps

theorem State.invalid_eq (s : State World) : s.invalid = isInvalid s.tappingKey := rfl

theorem invalid_flagged {held : State World} (flag : held = s ∨ held = s.interrupt) :
    held.invalid = s.invalid := by
  rcases flag with rfl | rfl <;> rfl

theorem invalid_process (record : KeyRecord) : (fw.process s record).1.invalid = s.invalid := rfl

theorem losesFirstTap_resolved (resolved : s.unresolved = false) :
    fw.losesFirstTap s keyp = false := by
  simp [Firmware.losesFirstTap, resolved]

theorem losesFirstTap_apart (apart : fw.withinTappingTerm s keyp.event = true →
    s.isTappingKey keyp.key = true → keyp.pressed = true) : fw.losesFirstTap s keyp = false := by
  by_contra loses
  simp only [Firmware.losesFirstTap, Bool.not_eq_false, Bool.and_eq_true, Bool.not_eq_true'] at loses
  obtain ⟨⟨⟨⟨-, within⟩, own⟩, released⟩, -⟩ := loses
  simp [apart within own] at released

theorem startTapping_valid (fw : Firmware World) (s : State World) (pressed : keyp.pressed = true)
    (fresh : IsFresh keyp) : (fw.startTapping s keyp).invalid = false := by
  rcases startTapping_cases fw s keyp with ⟨counted, -, -, -, starts⟩ | ⟨starts, -⟩
  · rw [starts]
    exact processRecord_uninterrupted Nat.one_ne_zero (fresh pressed)
  · rw [starts]
    exact isInvalid_pressed pressed

theorem tapOnce_invalid (unresolved : s.unresolved = true) :
    (fw.tapOnce s).invalid = fw.cancelsAndReleases s.world (Firmware.firstTap s) := by
  simp only [State.unresolved, State.isTappingPressed, Bool.and_eq_true, Bool.not_eq_true'] at unresolved
  have event : isNoEvent (Firmware.firstTap s).event = false := unresolved.1.1
  exact processRecord_isInvalid event unresolved.1.2 Nat.one_ne_zero

/-- A call of `process_tapping` leads to the invalid state exactly when it loses the
first tap. -/
theorem Offered.invalid (offered : Offered fw s keyp verdict) (valid : s.invalid = false)
    (fresh : IsFresh keyp) : verdict.state.invalid = fw.losesFirstTap s keyp := by
  cases offered with
  | tapped unresolved within own released =>
    rw [tapOnce_invalid unresolved]
    simp [Firmware.losesFirstTap, unresolved, within, own, released]
  | ended _ held flag apart => rw [losesFirstTap_apart apart]; rfl
  | kept _ held flag apart =>
    rw [losesFirstTap_apart fun _ => apart, invalid_flagged flag, valid]
  | early _ _ foreign =>
    rw [losesFirstTap_apart fun _ own => absurd own (by simp [foreign]), invalid_process, valid]
  | ownRelease _ counted _ released next follows =>
    rw [losesFirstTap_resolved (by simp [State.unresolved, counted])]
    rcases follows with rfl | rfl
    · rfl
    · exact processRecord_release released counted
  | restarted _ counted _ pressed =>
    have resolved : s.unresolved = false := by
      simp [State.unresolved, Nat.ne_of_gt (Nat.zero_lt_of_lt counted)]
    rw [losesFirstTap_resolved resolved, startTapping_valid fw _ pressed fresh]
  | started resolved _ pressed => rw [losesFirstTap_resolved resolved, startTapping_valid fw _ pressed fresh]
  | startedAgain tapping _ _ pressed =>
    rw [losesFirstTap_resolved (isTappingReleased_resolved tapping)]
    exact isInvalid_pressed pressed
  | sequential tapping _ _ _ tap counts apart =>
    rw [losesFirstTap_resolved (isTappingReleased_resolved tapping)]
    exact processRecord_uninterrupted (Nat.ne_of_gt (Nat.zero_lt_of_lt counts)) apart
  | passed resolved held flag =>
    rw [losesFirstTap_resolved resolved, invalid_process, invalid_flagged flag, valid]
  | forgotten tapping =>
    rw [losesFirstTap_resolved (isTappingReleased_resolved tapping)]
    rfl

end Steps

section Freshness

theorem startTapping_fresh (fw : Firmware World) (fresh : s.Fresh) (keyp : KeyRecord) :
    (fw.startTapping s keyp).Fresh := by
  rcases startTapping_cases fw s keyp with ⟨counted, found, -, -, starts⟩ | ⟨starts, -⟩
  · rw [starts]
    obtain ⟨before, waiting, after, split, rfl, -, -⟩ := countFirst_some found
    intro record member
    rcases List.mem_append.mp member with early | late
    · exact fresh record (split ▸ List.mem_append_left _ early)
    · rcases List.mem_cons.mp late with rfl | later
      · exact fresh waiting (split ▸ List.mem_append_right _ (List.mem_cons_self ..))
      · exact fresh record (split ▸ List.mem_append_right _ (List.mem_cons_of_mem _ later))
  · rw [starts]
    exact fresh

theorem Offered.fresh (offered : Offered fw s keyp verdict) (fresh : s.Fresh) :
    verdict.state.Fresh := by
  cases offered with
  | tapped => exact fresh
  | ended _ held flag => rcases flag with rfl | rfl <;> exact fresh
  | kept _ held flag => rcases flag with rfl | rfl <;> exact fresh
  | early => exact fresh
  | ownRelease => exact fresh
  | restarted => exact startTapping_fresh fw (s := (fw.process s _).1) fresh keyp
  | started _ _ _ world => exact startTapping_fresh fw (s := { s with world := world }) fresh keyp
  | startedAgain => exact fresh
  | sequential => exact fresh
  | passed _ held flag => rcases flag with rfl | rfl <;> exact fresh
  | forgotten => exact fresh

theorem Offered.refused_fresh (offered : Offered fw s keyp verdict) (fresh : IsFresh keyp)
    (refused : verdict.done = false) : IsFresh verdict.keyp := by
  cases offered with
  | tapped _ _ _ released => exact fun pressed => absurd (released.symm.trans pressed) (by decide)
  | ended => exact fresh
  | kept => exact fresh
  | forgotten => exact fresh
  | _ => cases refused

theorem waitingBufferEnq_fresh (fresh : s.Fresh) (freshRecord : IsFresh record) :
    (fw.waitingBufferEnq s record).Fresh := by
  unfold Firmware.waitingBufferEnq
  split
  next => exact fresh
  next =>
    split
    next => exact fun waiting member => absurd member List.not_mem_nil
    next =>
      intro waiting member
      rcases List.mem_append.mp member with early | last
      · exact fresh waiting early
      · rwa [List.mem_singleton.mp last]

theorem admit_fresh (fresh : s.Fresh) (freshRecord : IsFresh record) :
    (fw.admitRecord s record).Fresh := by
  have offered := processTapping_offered fw s record
  simp only [Firmware.admitRecord]
  split
  next => exact offered.fresh fresh
  next refused =>
    exact waitingBufferEnq_fresh (offered.fresh fresh)
      (offered.refused_fresh freshRecord (Bool.eq_false_iff.mpr refused))

theorem fresh_tail (fresh : s.Fresh) : State.Fresh { s with waitingBuffer := s.waitingBuffer.tail } :=
  fun waiting member => fresh waiting (List.mem_of_mem_tail member)

theorem drain_fresh (steps : Nat) (fresh : s.Fresh) : (fw.drain steps s).Fresh := by
  induction steps generalizing s with
  | zero => exact fresh
  | succ steps ih =>
    cases buffer : s.waitingBuffer with
    | nil => simpa [Firmware.drain, buffer] using fresh
    | cons waiting rest =>
      have offered := processTapping_offered fw s waiting
      have behind := offered.fresh fresh
      simp only [Firmware.drain, buffer]
      split
      next => exact ih (fresh_tail behind)
      next refused =>
        intro record member
        rcases List.mem_cons.mp member with rfl | later
        · have first := fresh waiting (buffer ▸ List.mem_cons_self ..)
          exact offered.refused_fresh first (Bool.eq_false_iff.mpr refused)
        · exact behind record (List.mem_of_mem_tail later)

theorem exec_fresh (fresh : s.Fresh) (input : Input World) : (fw.exec s input).Fresh := by
  cases input with
  | meanwhile change => exact fresh
  | key event => exact drain_fresh _ (admit_fresh fresh fun _ => rfl)
  | tick time => exact drain_fresh _ (admit_fresh fresh fun _ => rfl)

end Freshness

section Runs

/-- No call of `process_tapping` in the loop leads to the invalid state exactly when
none of them loses the first tap, and then the loop does not end in it. -/
theorem drain_valid_iff (steps : Nat) (valid : s.invalid = false) (fresh : s.Fresh) :
    ((∀ offered ∈ fw.drainOffers steps s,
        (fw.processTapping offered.1 offered.2).state.invalid = false) ∧
        (fw.drain steps s).invalid = false) ↔
      ∀ offered ∈ fw.drainOffers steps s, fw.losesFirstTap offered.1 offered.2 = false := by
  induction steps generalizing s with
  | zero => simp [Firmware.drainOffers, Firmware.drain, valid]
  | succ steps ih =>
    cases buffer : s.waitingBuffer with
    | nil => simp [Firmware.drainOffers, Firmware.drain, buffer, valid]
    | cons waiting rest =>
      have offered := processTapping_offered fw s waiting
      have step := offered.invalid valid (fresh waiting (buffer ▸ List.mem_cons_self ..))
      simp only [Firmware.drainOffers, Firmware.drain, buffer, List.forall_mem_cons, step]
      cases loses : fw.losesFirstTap s waiting with
      | true => simp
      | false =>
        rw [loses] at step
        simp only [true_and]
        split
        next => exact ih step (fresh_tail (offered.fresh fresh))
        next =>
          refine iff_of_true ⟨fun _ member => absurd member List.not_mem_nil, step⟩ ?_
          exact fun _ member => absurd member List.not_mem_nil

theorem waitingBufferEnq_valid (valid : s.invalid = false) (record : KeyRecord) :
    (fw.waitingBufferEnq s record).invalid = false := by
  unfold Firmware.waitingBufferEnq
  split
  next => exact valid
  next => split <;> [rfl; exact valid]

theorem admit_valid (record : KeyRecord)
    (valid : (fw.processTapping s record).state.invalid = false) :
    (fw.admitRecord s record).invalid = false := by
  simp only [Firmware.admitRecord]
  split
  next => exact valid
  next => exact waitingBufferEnq_valid valid _

theorem passes_valid_iff (s : State World) (input : Input World) :
    (∀ passed ∈ fw.passes s input, passed.invalid = false) ↔
      (∀ offered ∈ fw.offers s input,
        (fw.processTapping offered.1 offered.2).state.invalid = false) ∧
        (fw.exec s input).invalid = false := by
  rw [Firmware.passes, List.forall_mem_append, List.forall_mem_map, List.forall_mem_singleton]

/-- An event passes the invalid state exactly when it loses a first tap. -/
theorem actionTappingProcess_valid_iff (valid : s.invalid = false) (fresh : s.Fresh)
    (event : KeyEvent) :
    ((∀ offered ∈ (s, { event := event }) ::
          fw.drainOffers (fw.admitRecord s { event := event }).waitingBuffer.length
            (fw.admitRecord s { event := event }),
        (fw.processTapping offered.1 offered.2).state.invalid = false) ∧
        (fw.actionTappingProcess s { event := event }).invalid = false) ↔
      ∀ offered ∈ (s, { event := event }) ::
          fw.drainOffers (fw.admitRecord s { event := event }).waitingBuffer.length
            (fw.admitRecord s { event := event }), fw.losesFirstTap offered.1 offered.2 = false := by
  have step := (processTapping_offered fw s { event := event }).invalid valid fun _ => rfl
  rw [List.forall_mem_cons, List.forall_mem_cons, and_assoc, ← step]
  refine and_congr_right fun passes => ?_
  exact drain_valid_iff _ (admit_valid _ passes) (admit_fresh fresh fun _ => rfl)

theorem exec_valid_iff (valid : s.invalid = false) (fresh : s.Fresh) (input : Input World) :
    (∀ passed ∈ fw.passes s input, passed.invalid = false) ↔
      ∀ offered ∈ fw.offers s input, fw.losesFirstTap offered.1 offered.2 = false := by
  rw [passes_valid_iff]
  cases input with
  | meanwhile change =>
    refine iff_of_true ⟨fun _ member => absurd member List.not_mem_nil, valid⟩ ?_
    exact fun _ member => absurd member List.not_mem_nil
  | key event => exact actionTappingProcess_valid_iff valid fresh event
  | tick time => exact actionTappingProcess_valid_iff valid fresh (tickEvent time)

/-- A run never passes the invalid state exactly when it loses no first tap: no
release of an interrupted mod-tap in time meets a oneshot layer that its tap uses
up and that is no longer held. -/
theorem tapping_never_invalid_iff (fw : Firmware World) (world : World)
    (inputs : List (Input World)) :
    Along fw.exec (fun s input => ∀ passed ∈ fw.passes s input, passed.invalid = false)
        { world := world } inputs ↔
      Along fw.exec (fun s input => ∀ offered ∈ fw.offers s input,
        fw.losesFirstTap offered.1 offered.2 = false) { world := world } inputs := by
  have start : State.invalid ({ world := world } : State World) = false ∧
      State.Fresh ({ world := world } : State World) :=
    ⟨rfl, fun waiting member => absurd member List.not_mem_nil⟩
  have keeps : ∀ (s : State World) (input : Input World), s.invalid = false ∧ s.Fresh →
      (∀ passed ∈ fw.passes s input, passed.invalid = false) →
      (fw.exec s input).invalid = false ∧ (fw.exec s input).Fresh := by
    rintro s input ⟨-, fresh⟩ passes
    exact ⟨((passes_valid_iff s input).mp passes).2, exec_fresh fresh input⟩
  refine along_congr keeps ?_ start inputs
  rintro s input ⟨valid, fresh⟩
  exact exec_valid_iff valid fresh input

/-- A keyboard with a oneshot layer key, a row of mod-tap keys below it, and other
keys. The world is `oneshot_layer_data` as far as its two state bits. -/
def oneshotBoard : Firmware (BitVec 2) where
  layerSwitchGetAction _ key :=
    if key.row = 0 then 0xA1F4 else if key.row = 1 then 0x2204 else 0x0005
  storeOrGetAction world _ key :=
    (if key.row = 0 then 0xA1F4 else if key.row = 1 then 0x2204 else 0x0005, world)
  processRecordQuantum world _ := (true, world)
  postProcessRecordQuantum world _ := world
  processRecordTapHint world _ := world
  perform world record action :=
    if action = 0xA1F4 then if record.pressed then 0b11 else world &&& 0b10 else world
  isOneshotLayerActive world := world ≠ 0
  oneshotPressed world := world.getLsbD 0
  oneshotDisable _ := false
  clearOneshotLayerState world := world &&& 0b01
  oneshotLayerOn world := world
  oneshotLayerOff world := world
  oneshotTapToggle := false
  clearKeyboard world := world
  getTappingTerm _ _ _ := 200
  getPermissiveHold _ _ _ := false
  getHoldOnOtherKeyPress _ _ _ := false
  getTappingForceHold _ _ _ := false
  getIgnoreModTapInterrupt _ _ := false

/-- The oneshot layer key is tapped; then a mod-tap key is, while another key goes down. -/
def interruptedTap : List (Input (BitVec 2)) :=
  [.key ⟨{ key := { row := 0, col := 0 }, pressed := true, time := 2 }, rfl⟩,
    .key ⟨{ key := { row := 0, col := 0 }, pressed := false, time := 22 }, rfl⟩,
    .key ⟨{ key := { row := 1, col := 0 }, pressed := true, time := 42 }, rfl⟩,
    .key ⟨{ key := { row := 2, col := 0 }, pressed := true, time := 62 }, rfl⟩,
    .key ⟨{ key := { row := 1, col := 0 }, pressed := false, time := 82 }, rfl⟩]

/-- The mod-tap key is left in the invalid state. -/
theorem interrupted_tap_invalid :
    (run oneshotBoard.exec { world := 0 } interruptedTap).invalid = true := by
  decide

end Runs

end QmkSonix.Tapping
