import QmkSonix.Tapping.Model

/-! What `process_record` and `process_tapping` can do: which records reach
`process_record`, what happens to the tapping key, and what stays in the buffer. -/

namespace QmkSonix.Tapping

open QmkSonix.Keyboard QmkSonix.Lib

variable {World : Type*} {fw : Firmware World}

section Records

variable {again : World → KeyRecord → Processed World} {world : World} {record : KeyRecord}

@[simp] theorem isNoEvent_noRecord : isNoEvent noRecord.event = true := rfl

@[simp] theorem noRecord_pressed : noRecord.pressed = false := rfl

/-- A TICK or an empty record passes `process_record` without a call. -/
theorem processRecord_noEvent (empty : isNoEvent record.event = true) :
    fw.processRecord world record = { world := world, record := record, calls := [] } := by
  simp [Firmware.processRecord, Firmware.processRecordBody, empty]

/-- What `process_action` makes of the record before its call for a oneshot layer. -/
inductive Left (record : KeyRecord) : KeyRecord → Prop
  | kept : Left record record
  | cancelled (pressed : record.pressed = true) :
      Left record { record with tap := { record.tap with count := 0 } }
  | reset (released : record.pressed = false) : Left record noRecord

theorem leaveRecord_left (fw : Firmware World) (world : World) (record : KeyRecord)
    (action : Action) : Left record (fw.leaveRecord world record action) := by
  unfold Firmware.leaveRecord
  split
  next cancels =>
    simp only [Firmware.cancelsTap, decide_eq_true_eq] at cancels
    exact .cancelled cancels.2.2.2.1
  next =>
    split
    next resets =>
      simp only [Firmware.resetsTap, decide_eq_true_eq] at resets
      exact .reset resets.2.2.1
    next => exact .kept

theorem processAction_cases (fw : Firmware World) (again : World → KeyRecord → Processed World)
    (world : World) (record : KeyRecord) (action : Action) :
    ∃ left, Left record left ∧
      (((fw.processAction again world record action).record = left ∧
          (fw.processAction again world record action).calls = []) ∨
        record.pressed = true ∧ ∃ entered,
          (fw.processAction again world record action).record =
            (again entered { left with event := { left.event with pressed := false } }).record ∧
          (fw.processAction again world record action).calls =
            (again entered { left with event := { left.event with pressed := false } }).calls) := by
  unfold Firmware.processAction
  by_cases uses : fw.usesOneshotLayer world record action = true
  · refine ⟨_, leaveRecord_left fw (fw.clearOneshotLayerState world) record action, ?_⟩
    have pressed : record.pressed = true := by
      simp only [Firmware.usesOneshotLayer, decide_eq_true_eq] at uses
      exact uses.2.1
    simp only [uses, ↓reduceIte]
    split
    next => exact .inr ⟨pressed, _, rfl, rfl⟩
    next => exact .inl ⟨rfl, rfl⟩
  · refine ⟨_, leaveRecord_left fw world record action, .inl ?_⟩
    simp [uses]

theorem processRecordBody_cases (fw : Firmware World)
    (again : World → KeyRecord → Processed World) (world : World)
    (event : isNoEvent record.event = false) :
    ((fw.processRecordBody again world record).record = record ∧
        (fw.processRecordBody again world record).calls = [{ world := world, record := record }]) ∨
      ∃ world' action,
        (fw.processRecordBody again world record).record =
          (fw.processAction again world' record action).record ∧
        (fw.processRecordBody again world record).calls =
          { world := world, record := record } ::
            (fw.processAction again world' record action).calls := by
  unfold Firmware.processRecordBody
  rw [event, if_neg Bool.false_ne_true]
  by_cases passes : (fw.processRecordQuantum world record).1 = true
  · simp only [passes, ↓reduceIte]
    exact .inr ⟨_, _, rfl, rfl⟩
  · simp [passes]

/-- A release is called with once, and is left or emptied. -/
theorem processRecordBody_released (fw : Firmware World)
    (again : World → KeyRecord → Processed World) (world : World)
    (released : record.pressed = false) (event : isNoEvent record.event = false) :
    (fw.processRecordBody again world record).calls = [{ world := world, record := record }] ∧
      (fw.processRecordBody again world record).record.pressed = false := by
  rcases processRecordBody_cases fw again world event with
    ⟨record', calls⟩ | ⟨world', action, record', calls⟩
  · rw [record', calls]
    exact ⟨rfl, released⟩
  · obtain ⟨left, leaves, ⟨isLeft, none⟩ | ⟨pressed, -⟩⟩ :=
      processAction_cases fw again world' record action
    · rw [record', calls, isLeft, none]
      refine ⟨rfl, ?_⟩
      cases leaves with
      | kept => exact released
      | cancelled pressed => simp [released] at pressed
      | reset => rfl
    · simp [released] at pressed

/-- `process_record` of an event: one call, unless the press uses up a oneshot
layer and its release is processed with it. -/
theorem processRecord_cases (fw : Firmware World) (world : World)
    (event : isNoEvent record.event = false) :
    ((fw.processRecord world record).calls = [{ world := world, record := record }] ∧
        Left record (fw.processRecord world record).record) ∨
      record.pressed = true ∧ (fw.processRecord world record).record.pressed = false ∧
        ∃ nested : Call World, nested.record.pressed = false ∧
          (fw.processRecord world record).calls = [{ world := world, record := record }, nested] := by
  rcases processRecordBody_cases fw (fw.processRecordBody fun world record =>
    { world := world, record := record, calls := [] }) world event with
    ⟨record', calls⟩ | ⟨world', action, record', calls⟩
  · left
    rw [Firmware.processRecord, record', calls]
    exact ⟨rfl, .kept⟩
  · rw [Firmware.processRecord, record', calls]
    obtain ⟨left, leaves, ⟨isLeft, none⟩ | ⟨pressed, entered, isReleased, isCalled⟩⟩ :=
      processAction_cases fw (fw.processRecordBody fun world record =>
        { world := world, record := record, calls := [] }) world' record action
    · left
      rw [isLeft, none]
      exact ⟨rfl, leaves⟩
    · right
      have stillEvent : isNoEvent { left.event with pressed := false } = false := by
        cases leaves with
        | kept => exact event
        | cancelled => exact event
        | reset released => simp [released] at pressed
      have again := processRecordBody_released fw
        (fun world record => { world := world, record := record, calls := [] }) entered
        (rfl : ({ left with event := { left.event with pressed := false } } :
          KeyRecord).pressed = false) stillEvent
      obtain ⟨once, ended⟩ := again
      rw [isReleased, isCalled, once]
      exact ⟨pressed, ended, _, rfl, rfl⟩

/-- A record that is still pressed afterwards is still the same press. -/
theorem processRecord_pressed (pressed : (fw.processRecord world record).record.pressed = true) :
    (fw.processRecord world record).record.event = record.event := by
  by_cases empty : isNoEvent record.event = true
  · rw [processRecord_noEvent empty]
  · rcases processRecord_cases fw world (Bool.eq_false_iff.mpr empty) with ⟨-, leaves⟩ | ⟨-, released, -⟩
    · generalize (fw.processRecord world record).record = left at leaves pressed
      cases leaves with
      | kept => rfl
      | cancelled => rfl
      | reset => cases pressed
    · rw [released] at pressed
      cases pressed

end Records

section Scan

variable {wanted : KeyRecord → Bool} {records counted : List KeyRecord}

theorem countFirst_none (none : countFirst wanted records = none) :
    ∀ record ∈ records, wanted record = false := by
  induction records with
  | nil => simp
  | cons record rest ih =>
    unfold countFirst at none
    split at none
    next => cases none
    next unwanted =>
      have absent := ih (Option.map_eq_none_iff.mp none)
      simpa [Bool.eq_false_iff.mpr unwanted] using absent

theorem countFirst_some (found : countFirst wanted records = some counted) :
    ∃ before record after, records = before ++ record :: after ∧
      counted = before ++ { record with tap := { record.tap with count := 1 } } :: after ∧
      wanted record = true ∧ ∀ earlier ∈ before, wanted earlier = false := by
  induction records generalizing counted with
  | nil => cases found
  | cons record rest ih =>
    unfold countFirst at found
    split at found
    next here =>
      cases found
      exact ⟨[], record, rest, rfl, rfl, here, by simp⟩
    next unwanted =>
      obtain ⟨tail, inRest, rfl⟩ := Option.map_eq_some_iff.mp found
      obtain ⟨before, first, after, rfl, rfl, isWanted, earlier⟩ := ih inRest
      refine ⟨record :: before, first, after, rfl, rfl, isWanted, ?_⟩
      simpa [Bool.eq_false_iff.mpr unwanted] using earlier

/-- The records of the buffer keep their events when one is counted. -/
theorem countFirst_events (found : countFirst wanted records = some counted) :
    counted.map KeyRecord.event = records.map KeyRecord.event := by
  obtain ⟨before, record, after, rfl, rfl, -, -⟩ := countFirst_some found
  simp

end Scan

section Offers

variable {s : State World} {keyp : KeyRecord}

theorem isTappingReleased_resolved (tapping : s.isTappingReleased = true) :
    s.unresolved = false := by
  simp only [State.isTappingReleased, Bool.and_eq_true, Bool.not_eq_true'] at tapping
  simp [State.unresolved, State.isTappingPressed, tapping.2]

/-- A release of the tapping key that waits in the buffer and came in time. -/
def Firmware.releaseWaits (fw : Firmware World) (s : State World) (waiting : KeyRecord) : Bool :=
  s.isTappingKey waiting.key && !waiting.pressed && fw.withinTappingTerm s waiting.event

/-- A scan for a new press counts it as a tap, or finds no release in time. -/
theorem startTapping_cases (fw : Firmware World) (s : State World) (keyp : KeyRecord) :
    (∃ counted, countFirst (fw.releaseWaits { s with tappingKey := keyp }) s.waitingBuffer =
          some counted ∧ keyp.pressed = true ∧ keyp.tap.count = 0 ∧
        fw.startTapping s keyp =
          fw.tapOnce { s with tappingKey := keyp, waitingBuffer := counted }) ∨
      fw.startTapping s keyp = { s with tappingKey := keyp } ∧
        (keyp.pressed = true → keyp.tap.count = 0 →
          ∀ waiting ∈ s.waitingBuffer, fw.releaseWaits { s with tappingKey := keyp } waiting = false) := by
  unfold Firmware.startTapping Firmware.waitingBufferScanTap
  split
  next settled =>
    refine .inr ⟨rfl, fun pressed uncounted => ?_⟩
    simp [pressed, uncounted] at settled
  next unsettled =>
    have fresh : keyp.tap.count = 0 ∧ keyp.pressed = true := by simpa using unsettled
    split
    next absent => exact .inr ⟨rfl, fun _ _ => countFirst_none absent⟩
    next counted found => exact .inl ⟨counted, found, fresh.2, fresh.1, rfl⟩

/-- All that `process_tapping` can do with a record it is offered. -/
inductive Offered (fw : Firmware World) (s : State World) (keyp : KeyRecord) :
    Verdict World → Prop
  /-- The tapping key is released in time: its press is processed as a tap. -/
  | tapped (unresolved : s.unresolved = true) (within : fw.withinTappingTerm s keyp.event = true)
      (own : s.isTappingKey keyp.key = true) (released : keyp.pressed = false) :
      Offered fw s keyp
        { state := fw.tapOnce s
          keyp := { keyp with tap := (fw.tapOnce s).tappingKey.tap }
          done := false }
  /-- The tapping key is processed as a hold. -/
  | ended (unresolved : s.unresolved = true) (held : State World)
      (flag : held = s ∨ held = s.interrupt)
      (apart : fw.withinTappingTerm s keyp.event = true →
        s.isTappingKey keyp.key = true → keyp.pressed = true) :
      Offered fw s keyp { state := fw.endTapping held, keyp := keyp, done := false }
  /-- The record waits for the tapping key. -/
  | kept (unresolved : s.unresolved = true) (held : State World)
      (flag : held = s ∨ held = s.interrupt)
      (apart : s.isTappingKey keyp.key = true → keyp.pressed = true) :
      Offered fw s keyp { state := held, keyp := keyp, done := false }
  /-- The release of a key pressed before the tapping key. -/
  | early (unresolved : s.unresolved = true) (released : keyp.pressed = false)
      (foreign : s.isTappingKey keyp.key = false)
      (untyped : s.waitingBufferTyped keyp.event = false) :
      Offered fw s keyp
        { state := (fw.process s keyp).1, keyp := (fw.process s keyp).2, done := true }
  /-- The release of a tapping key that counts as a tap. -/
  | ownRelease (tapping : s.isTappingPressed = true) (counted : s.tappingKey.tap.count ≠ 0)
      (own : s.isTappingKey keyp.key = true) (released : keyp.pressed = false)
      (next : KeyRecord)
      (follows : next = noRecord ∨ next = (fw.process s { keyp with tap := s.tappingKey.tap }).2) :
      Offered fw s keyp
        { state := { (fw.process s { keyp with tap := s.tappingKey.tap }).1 with tappingKey := next }
          keyp := (fw.process s { keyp with tap := s.tappingKey.tap }).2
          done := true }
  /-- A tap key takes over from one that counts several taps, which is released. -/
  | restarted (tapping : s.isTappingPressed = true) (counted : 1 < s.tappingKey.tap.count)
      (tapRecord : fw.isTapRecord s.world keyp = true) (pressed : keyp.pressed = true) :
      Offered fw s keyp
        { state := fw.startTapping (fw.process s (Firmware.lastTapRelease s keyp)).1 keyp
          keyp := keyp
          done := true }
  /-- A tap key becomes the tapping key. -/
  | started (resolved : s.unresolved = false)
      (single : s.isTappingPressed = true → s.tappingKey.tap.count = 1)
      (pressed : keyp.pressed = true) (world : World) :
      Offered fw s keyp
        { state := fw.startTapping { s with world := world } keyp, keyp := keyp, done := true }
  /-- The released tapping key is pressed again, and starts anew without a scan. -/
  | startedAgain (tapping : s.isTappingReleased = true)
      (within : fw.withinTappingTerm s keyp.event = true)
      (own : s.isTappingKey keyp.key = true) (pressed : keyp.pressed = true)
      (anew : fw.isSequentialTap s keyp = false) :
      Offered fw s keyp { state := { s with tappingKey := keyp }, keyp := keyp, done := true }
  /-- The released tapping key is pressed again, and counts one tap more. -/
  | sequential (tapping : s.isTappingReleased = true) (own : s.isTappingKey keyp.key = true)
      (pressed : keyp.pressed = true) (again : fw.isSequentialTap s keyp = true)
      (tap : Tap) (counts : 1 < tap.count) (apart : tap.interrupted = false) :
      Offered fw s keyp
        { state := { (fw.process s { keyp with tap := tap }).1 with
            tappingKey := (fw.process s { keyp with tap := tap }).2 }
          keyp := (fw.process s { keyp with tap := tap }).2
          done := true }
  /-- Nothing waits for the tapping key, and the record is processed. -/
  | passed (resolved : s.unresolved = false) (held : State World)
      (flag : held = s ∨ held = s.interrupt)
      (apart : s.isTappingPressed = true → s.isTappingKey keyp.key = true → keyp.pressed = true) :
      Offered fw s keyp
        { state := (fw.process held keyp).1, keyp := (fw.process held keyp).2, done := true }
  /-- The tapping key has been released for longer than its term. -/
  | forgotten (tapping : s.isTappingReleased = true)
      (late : fw.withinTappingTerm s keyp.event = false) :
      Offered fw s keyp { state := { s with tappingKey := noRecord }, keyp := keyp, done := false }

theorem processUnresolved_offered (unresolved : s.unresolved = true)
    (within : fw.withinTappingTerm s keyp.event = true) :
    Offered fw s keyp (fw.processUnresolved s keyp) := by
  unfold Firmware.processUnresolved
  split
  next ownRelease =>
    obtain ⟨own, released⟩ : s.isTappingKey keyp.key = true ∧ keyp.pressed = false := by
      simpa using ownRelease
    exact .tapped unresolved within own released
  next foreign =>
    have apart : s.isTappingKey keyp.key = true → keyp.pressed = true := by simpa using foreign
    split
    next => exact .ended unresolved s (.inl rfl) fun _ => apart
    next =>
      split
      next early =>
        split
        next => exact .kept unresolved s (.inl rfl) apart
        next =>
          obtain ⟨event, untyped⟩ : isReleased keyp.event = true ∧
              s.waitingBufferTyped keyp.event = false := by simpa using early
          have released : keyp.pressed = false := by
            simp only [isReleased, Bool.and_eq_true, Bool.not_eq_true'] at event
            exact event.2
          have other : s.isTappingKey keyp.key = false := by
            by_contra own
            simp [apart (Bool.eq_true_of_not_eq_false own)] at released
          exact .early unresolved released other untyped
      next =>
        split
        next =>
          split
          next => exact .ended unresolved s.interrupt (.inr rfl) fun _ => apart
          next => exact .kept unresolved s.interrupt (.inr rfl) apart
        next => exact .kept unresolved s (.inl rfl) apart

theorem processTapped_offered (tapping : s.isTappingPressed = true)
    (counted : s.tappingKey.tap.count ≠ 0) : Offered fw s keyp (fw.processTapped s keyp) := by
  have resolved : s.unresolved = false := by simp [State.unresolved, counted]
  unfold Firmware.processTapped
  split
  next ownRelease =>
    obtain ⟨own, released⟩ : s.isTappingKey keyp.key = true ∧ keyp.pressed = false := by
      simpa using ownRelease
    refine .ownRelease tapping counted own released _ ?_
    split
    next => exact .inr rfl
    next => exact .inl rfl
  next foreign =>
    have apart : s.isTappingKey keyp.key = true → keyp.pressed = true := by simpa using foreign
    split
    next starts =>
      obtain ⟨tapRecord, pressed⟩ : fw.isTapRecord s.world keyp = true ∧ keyp.pressed = true := by
        simpa using starts
      dsimp only
      split
      next several => exact .restarted tapping several tapRecord pressed
      next few => exact .started resolved (fun _ => by omega) pressed s.world
    next => exact .passed resolved s (.inl rfl) fun _ => apart

theorem processReleased_offered (tapping : s.isTappingReleased = true)
    (within : fw.withinTappingTerm s keyp.event = true) :
    Offered fw s keyp (fw.processReleased s keyp) := by
  have unpressed : s.isTappingPressed = false := by
    simp only [State.isTappingReleased, State.isTappingPressed] at tapping ⊢
    simp_all
  have resolved : s.unresolved = false := by simp [State.unresolved, unpressed]
  have noPress {proposition : Prop} : s.isTappingPressed = true → proposition := by simp [unpressed]
  unfold Firmware.processReleased
  split
  next pressed =>
    split
    next own =>
      split
      next again =>
        obtain ⟨⟨-, apart⟩, counted⟩ := by
          simpa only [Firmware.isSequentialTap, Bool.and_eq_true, decide_eq_true_eq,
            Bool.not_eq_true'] using again
        refine .sequential tapping own pressed again _ ?_ ?_
        · split
          next => exact Nat.lt_add_of_pos_left counted
          next many => omega
        · split <;> exact apart
      next anew => exact .startedAgain tapping within own pressed (Bool.eq_false_iff.mpr anew)
    next =>
      split
      next => exact .started resolved noPress pressed s.world
      next => exact .passed resolved s.interrupt (.inr rfl) noPress
  next => exact .passed resolved s (.inl rfl) noPress

theorem processNotTapping_offered (idle : s.isTappingPressed = false) :
    Offered fw s keyp (fw.processNotTapping s keyp) := by
  have resolved : s.unresolved = false := by simp [State.unresolved, idle]
  have noPress {proposition : Prop} : s.isTappingPressed = true → proposition := by simp [idle]
  unfold Firmware.processNotTapping
  split
  next starts =>
    obtain ⟨pressed, -⟩ : keyp.pressed = true ∧ fw.isTapRecord s.world keyp = true := by
      simpa using starts
    exact .started resolved noPress pressed _
  next => exact .passed resolved s (.inl rfl) noPress

theorem processTapping_offered (fw : Firmware World) (s : State World) (keyp : KeyRecord) :
    Offered fw s keyp (fw.processTapping s keyp) := by
  unfold Firmware.processTapping
  split
  next tapping =>
    split
    next uncounted =>
      have unresolved : s.unresolved = true := by simp [State.unresolved, tapping, uncounted]
      split
      next within => exact processUnresolved_offered unresolved within
      next late => exact .ended unresolved s (.inl rfl) fun within => absurd within late
    next counted => exact processTapped_offered tapping counted
  next idle =>
    split
    next released =>
      split
      next within => exact processReleased_offered released within
      next late => exact .forgotten released (Bool.eq_false_iff.mpr late)
    next => exact processNotTapping_offered (Bool.eq_false_iff.mpr idle)

end Offers

end QmkSonix.Tapping
