import QmkSonix.Lib.Arrival
import QmkSonix.Tapping.Drain

/-! The order in which presses reach `process_record`. -/

namespace QmkSonix.Tapping

open QmkSonix.Keyboard QmkSonix.Lib

variable {World : Type*} {fw : Firmware World} {s : State World} {keyp : KeyRecord}
  {verdict : Verdict World}

/-- The press events of some records. -/
def presses (records : List KeyRecord) : List KeyEvent :=
  (records.map KeyRecord.event).filter isPressed

/-- The presses processed so far and the press of the tapping key that is next. -/
def State.lead (s : State World) : List KeyEvent := presses (s.delivered ++ s.front)

/-- The press events among some inputs. -/
def arrivedPresses (inputs : List (Input World)) : List KeyEvent :=
  (inputs.filterMap Input.event?).filter isPressed

section Lead

@[simp] theorem presses_append (first second : List KeyRecord) :
    presses (first ++ second) = presses first ++ presses second := by simp [presses]

theorem presses_cons (record : KeyRecord) (rest : List KeyRecord) :
    presses (record :: rest) = presses [record] ++ presses rest := by
  rw [← presses_append, List.singleton_append]

theorem presses_of_events {first second : List KeyRecord}
    (same : first.map KeyRecord.event = second.map KeyRecord.event) :
    presses first = presses second := by rw [presses, same, presses]

theorem presses_of_event {first second : KeyRecord} (same : first.event = second.event) :
    presses [first] = presses [second] := by simp [presses, same]

theorem presses_released (released : keyp.pressed = false) : presses [keyp] = [] := by
  have unpressed : keyp.event.pressed = false := released
  simp [presses, isPressed, unpressed]

theorem lead_resolved (resolved : s.unresolved = false) : s.lead = presses s.delivered := by
  simp [State.lead, State.front, resolved, presses]

/-- Each call of `process_record` for a press delivers that press, and nothing else. -/
theorem process_presses (fw : Firmware World) (s : State World) (record : KeyRecord) :
    presses (fw.process s record).1.delivered = presses s.delivered ++ presses [record] := by
  have calls : (fw.process s record).1.delivered =
      s.delivered ++ (fw.processRecord s.world record).calls.map Call.record := by
    simp [State.delivered, Firmware.process]
  rw [calls, presses_append]
  congr 1
  by_cases empty : isNoEvent record.event = true
  · simp [processRecord_noEvent empty, presses, isPressed, empty]
  · rcases processRecord_cases fw s.world (Bool.eq_false_iff.mpr empty) with
      ⟨once, -⟩ | ⟨-, -, nested, released, twice⟩
    · rw [once]
      rfl
    · rw [twice]
      have alone : presses [record, nested.record] = presses [record] := by
        rw [presses_cons, presses_released released, List.append_nil]
      exact alone

/-- While the tapping key is processed its press may still wait to be processed again. -/
theorem processTappingKey_lead (fw : Firmware World) (s : State World) :
    Covers (presses s.delivered ++ presses [s.tappingKey]) (fw.processTappingKey s).lead := by
  have delivered : presses (fw.processTappingKey s).delivered =
      presses s.delivered ++ presses [s.tappingKey] := process_presses fw s s.tappingKey
  cases unresolved : (fw.processTappingKey s).unresolved with
  | false =>
    rw [lead_resolved unresolved, delivered]
    exact Covers.refl _
  | true =>
    have still : isPressed (fw.processTappingKey s).tappingKey.event = true := by
      simp only [State.unresolved, State.isTappingPressed, Bool.and_eq_true] at unresolved
      simp only [isPressed, Bool.and_eq_true]
      exact unresolved.1
    have same : (fw.processTappingKey s).tappingKey.event = s.tappingKey.event := by
      simp only [isPressed, Bool.and_eq_true] at still
      exact processRecord_pressed still.2
    rw [same] at still
    have lead : (fw.processTappingKey s).lead =
        presses s.delivered ++ [s.tappingKey.event, s.tappingKey.event] := by
      rw [State.lead, presses_append, delivered, State.front, if_pos unresolved]
      simp [presses, same, still]
    have once : presses [s.tappingKey] = [s.tappingKey.event] := by simp [presses, still]
    rw [lead, once]
    exact covers_again _ _

theorem endTapping_lead (fw : Firmware World) (s : State World) :
    (fw.endTapping s).lead = presses s.delivered ++ presses [s.tappingKey] := by
  rw [lead_resolved endTapping_unresolved]
  exact process_presses fw s s.tappingKey

/-- A new tapping key is the next to be processed. -/
theorem newTappingKey_lead (s : State World) (keyp : KeyRecord) :
    Covers (presses s.delivered ++ presses [keyp]) ({ s with tappingKey := keyp } : State World).lead := by
  cases unresolved : ({ s with tappingKey := keyp } : State World).unresolved with
  | false =>
    rw [lead_resolved unresolved]
    exact covers_drop _ _
  | true =>
    rw [State.lead, presses_append, State.front, if_pos unresolved]
    exact Covers.refl _

theorem startTapping_lead (fw : Firmware World) (s : State World) (keyp : KeyRecord) :
    Covers (presses s.delivered ++ presses [keyp]) (fw.startTapping s keyp).lead := by
  rcases startTapping_cases fw s keyp with ⟨counted, -, -, -, starts⟩ | ⟨starts, -⟩
  · rw [starts]
    exact processTappingKey_lead fw { s with
      tappingKey := { keyp with tap := { keyp.tap with count := 1 } }
      waitingBuffer := counted }
  · rw [starts]
    exact newTappingKey_lead s keyp

theorem lead_unresolved (unresolved : s.unresolved = true) :
    s.lead = presses s.delivered ++ presses [s.tappingKey] := by
  simp [State.lead, State.front, unresolved]

theorem interrupt_lead (s : State World) : s.interrupt.lead = s.lead := by
  cases unresolved : s.unresolved with
  | false =>
    have stays : s.interrupt.unresolved = false := unresolved
    rw [lead_resolved unresolved, lead_resolved stays]
    rfl
  | true =>
    have stays : s.interrupt.unresolved = true := unresolved
    rw [lead_unresolved unresolved, lead_unresolved stays]
    rfl

/-- A release leaves no press behind, whatever becomes of it. -/
theorem processRecord_released (world : World) (released : keyp.pressed = false) :
    (fw.processRecord world keyp).record.pressed = false := by
  by_contra pressed
  have same := processRecord_pressed (Bool.eq_true_of_not_eq_false pressed)
  rw [KeyRecord.pressed, same] at pressed
  exact pressed released

/-- `process_tapping` processes the presses in their order: the tapping key's
first, then that of the record it is offered. -/
theorem Offered.lead (offered : Offered fw s keyp verdict) :
    Covers (s.lead ++ if verdict.done then presses [keyp] else []) verdict.state.lead := by
  cases offered with
  | tapped unresolved =>
    rw [lead_unresolved unresolved, if_neg Bool.false_ne_true, List.append_nil]
    exact processTappingKey_lead fw
      { s with tappingKey := { s.tappingKey with tap := { s.tappingKey.tap with count := 1 } } }
  | ended unresolved held flag =>
    rw [lead_unresolved unresolved, endTapping_lead, if_neg Bool.false_ne_true, List.append_nil]
    rcases flag with rfl | rfl <;> exact Covers.refl _
  | kept unresolved held flag =>
    rw [if_neg Bool.false_ne_true, List.append_nil]
    rcases flag with rfl | rfl
    · exact Covers.refl _
    · rw [interrupt_lead]
      exact Covers.refl _
  | early unresolved released foreign untyped =>
    have stays : (fw.process s keyp).1.unresolved = true := unresolved
    rw [lead_unresolved unresolved, lead_unresolved stays, process_presses,
      presses_released released, if_pos rfl, List.append_nil, List.append_nil]
    exact Covers.refl _
  | ownRelease tapping counted own released next follows =>
    have resolved : s.unresolved = false := by simp [State.unresolved, counted]
    have unpressed : next.pressed = false := by
      rcases follows with rfl | rfl
      · rfl
      · exact processRecord_released _ released
    have settled : ({ (fw.process s { keyp with tap := s.tappingKey.tap }).1 with
        tappingKey := next } : State World).unresolved = false := by
      simp [State.unresolved, State.isTappingPressed, unpressed]
    rw [lead_resolved resolved, lead_resolved settled]
    have delivered := process_presses fw s { keyp with tap := s.tappingKey.tap }
    exact delivered ▸ Covers.refl _
  | restarted tapping counted tapRecord pressed =>
    have resolved : s.unresolved = false := by
      simp [State.unresolved, Nat.ne_of_gt (Nat.zero_lt_of_lt counted)]
    have delivered := process_presses fw s (Firmware.lastTapRelease s keyp)
    rw [presses_released (by rfl), List.append_nil] at delivered
    rw [lead_resolved resolved, ← delivered]
    exact startTapping_lead fw _ keyp
  | started resolved single pressed world =>
    rw [lead_resolved resolved]
    exact startTapping_lead fw { s with world := world } keyp
  | startedAgain tapping within own pressed anew =>
    rw [lead_resolved (isTappingReleased_resolved tapping)]
    exact newTappingKey_lead s keyp
  | sequential tapping own pressed _ tap counts =>
    rw [lead_resolved (isTappingReleased_resolved tapping)]
    exact processTappingKey_lead fw { s with tappingKey := { keyp with tap := tap } }
  | passed resolved held flag apart =>
    have same : held.unresolved = s.unresolved ∧ held.delivered = s.delivered := by
      rcases flag with rfl | rfl <;> exact ⟨rfl, rfl⟩
    have settled : (fw.process held keyp).1.unresolved = false := same.1.trans resolved
    rw [lead_resolved resolved, lead_resolved settled, process_presses, same.2]
    exact Covers.refl _
  | forgotten tapping late =>
    have settled : ({ s with tappingKey := noRecord } : State World).unresolved = false := rfl
    rw [lead_resolved (isTappingReleased_resolved tapping), lead_resolved settled,
      if_neg Bool.false_ne_true, List.append_nil]
    exact Covers.refl _

/-- With the tapping key still to be processed only a release can be consumed. -/
theorem Offered.released_of_unresolved (offered : Offered fw s keyp verdict)
    (done : verdict.done = true) (unresolved : s.unresolved = true) : keyp.pressed = false := by
  have tapping : s.isTappingPressed = true ∧ s.tappingKey.tap.count = 0 := by
    simpa [State.unresolved] using unresolved
  cases offered with
  | early _ released => exact released
  | ownRelease _ _ _ released => exact released
  | restarted _ counted => omega
  | started resolved => simp [unresolved] at resolved
  | startedAgain released => simp [isTappingReleased_resolved released] at unresolved
  | sequential released => simp [isTappingReleased_resolved released] at unresolved
  | passed resolved => simp [unresolved] at resolved
  | _ => cases done

end Lead

section Runs

theorem presses_tail (waiting : KeyRecord) (rest : List KeyRecord)
    (same : verdict.state.waitingBuffer.map KeyRecord.event = (waiting :: rest).map KeyRecord.event) :
    presses verdict.state.waitingBuffer.tail = presses rest := by
  apply presses_of_events
  rw [List.map_tail, same]
  rfl

/-- The loop delivers the waiting presses in their order. -/
theorem drain_order (fw : Firmware World) (steps : Nat) {arrivals : List KeyEvent}
    (ordered : InArrivalOrder arrivals (s.lead ++ presses s.waitingBuffer)) :
    InArrivalOrder arrivals
      ((fw.drain steps s).lead ++ presses (fw.drain steps s).waitingBuffer) := by
  induction steps generalizing s with
  | zero => exact ordered
  | succ steps ih =>
    cases buffer : s.waitingBuffer with
    | nil => simpa [Firmware.drain, buffer] using ordered
    | cons waiting rest =>
      have offered := processTapping_offered fw s waiting
      have events := offered.events
      rw [buffer] at events ordered
      have onward := offered.lead
      have behind := presses_tail waiting rest events
      simp only [Firmware.drain, buffer]
      cases done : (fw.processTapping s waiting).done with
      | true =>
        rw [if_pos rfl]
        apply ih
        rw [done, if_pos rfl] at onward
        have next := onward arrivals (presses rest) (by
          rw [List.append_assoc, ← presses_append]
          exact ordered)
        rw [← behind] at next
        exact next
      | false =>
        rw [if_neg Bool.false_ne_true]
        rw [done, if_neg Bool.false_ne_true, List.append_nil] at onward
        have next := onward arrivals (presses (waiting :: rest)) ordered
        have waits : presses ((fw.processTapping s waiting).keyp ::
            (fw.processTapping s waiting).state.waitingBuffer.tail) = presses (waiting :: rest) := by
          rw [presses_cons, behind, presses_cons waiting]
          rw [presses_of_event (offered.refused done)]
        rw [← waits] at next
        exact next

/-- A record that is refused waits behind the others, where it finds room. -/
theorem waitingBufferEnq_order {arrivals : List KeyEvent}
    (room : isNoEvent keyp.event = true ∨ s.waitingBuffer.length + 1 ≠ waitingBufferSize)
    (ordered : InArrivalOrder arrivals (s.lead ++ presses (s.waitingBuffer ++ [keyp]))) :
    InArrivalOrder arrivals ((fw.waitingBufferEnq s keyp).lead ++
      presses (fw.waitingBufferEnq s keyp).waitingBuffer) := by
  unfold Firmware.waitingBufferEnq
  split
  next empty =>
    have none : presses [keyp] = [] := by simp [presses, isPressed, empty]
    rw [presses_append, none, List.append_nil] at ordered
    exact ordered
  next event =>
    have free : s.waitingBuffer.length + 1 ≠ waitingBufferSize := room.resolve_left event
    rw [if_neg free]
    exact ordered

theorem admit_order {arrivals : List KeyEvent} {record : KeyRecord} (guarded : s.Guarded)
    (room : (fw.processTapping s record).done = true ∨
      isNoEvent (fw.processTapping s record).keyp.event = true ∨
      (fw.processTapping s record).state.waitingBuffer.length + 1 ≠ waitingBufferSize)
    (ordered : InArrivalOrder arrivals (s.lead ++ presses s.waitingBuffer)) :
    InArrivalOrder (arrivals ++ presses [record])
      ((fw.admitRecord s record).lead ++ presses (fw.admitRecord s record).waitingBuffer) := by
  have offered := processTapping_offered fw s record
  have onward := offered.lead
  have events := presses_of_events offered.events
  have arrived : InArrivalOrder (arrivals ++ presses [record])
      (s.lead ++ presses s.waitingBuffer ++ presses [record]) := by
    by_cases pressed : isPressed record.event = true
    · simpa [presses, pressed] using ordered.push record.event
    · simpa [presses, pressed] using ordered
  cases done : (fw.processTapping s record).done with
  | true =>
    simp only [Firmware.admitRecord, done, ↓reduceIte]
    rw [done, if_pos rfl] at onward
    apply onward
    rw [events]
    -- A press is consumed only when nothing waits before it.
    have alone : presses s.waitingBuffer = [] ∨ presses [record] = [] := by
      by_cases empty : s.waitingBuffer = []
      · exact .inl (by rw [empty]; rfl)
      · refine .inr (presses_released ?_)
        exact offered.released_of_unresolved done (guarded empty)
    rcases alone with none | none
    · rw [none, List.append_nil] at arrived ⊢
      exact arrived
    · rw [none, List.append_nil, List.append_nil] at arrived
      rw [none, List.append_nil, List.append_nil]
      exact arrived
  | false =>
    simp only [Firmware.admitRecord, done, Bool.false_eq_true, ↓reduceIte]
    rw [done, if_neg Bool.false_ne_true, List.append_nil] at onward
    apply waitingBufferEnq_order (room.resolve_left (by simp [done]))
    rw [presses_append, events, presses_of_event (offered.refused done)]
    apply onward
    rw [← List.append_assoc]
    exact arrived

theorem actionTappingProcess_order {arrivals : List KeyEvent} {event : KeyEvent}
    (guarded : s.Guarded)
    (room : (fw.processTapping s { event := event }).done = true ∨
      isNoEvent (fw.processTapping s { event := event }).keyp.event = true ∨
      (fw.processTapping s { event := event }).state.waitingBuffer.length + 1 ≠ waitingBufferSize)
    (ordered : InArrivalOrder arrivals (s.lead ++ presses s.waitingBuffer)) :
    InArrivalOrder (arrivals ++ [event].filter isPressed)
      ((fw.actionTappingProcess s { event := event }).lead ++
        presses (fw.actionTappingProcess s { event := event }).waitingBuffer) :=
  drain_order fw _ (admit_order guarded room ordered)

theorem exec_order {arrivals : List KeyEvent} {input : Input World} (guarded : s.Guarded)
    (room : fw.overflows s input = false)
    (ordered : InArrivalOrder arrivals (s.lead ++ presses s.waitingBuffer)) :
    InArrivalOrder (arrivals ++ arrivedPresses [input])
      ((fw.exec s input).lead ++ presses (fw.exec s input).waitingBuffer) := by
  cases input with
  | meanwhile change =>
    have none : arrivedPresses [Input.meanwhile change] = [] := rfl
    rw [none, List.append_nil]
    exact ordered
  | key event =>
    apply actionTappingProcess_order guarded _ ordered
    simpa [Firmware.overflows, Input.event?, or_iff_not_imp_left] using room
  | tick time =>
    apply actionTappingProcess_order guarded _ ordered
    simpa [Firmware.overflows, Input.event?, or_iff_not_imp_left] using room

theorem run_order {arrivals : List KeyEvent} (inputs : List (Input World)) (guarded : s.Guarded)
    (fits : Along fw.exec (fun s input => fw.overflows s input = false) s inputs)
    (calm : Along fw.exec (fun s input => fw.stallsDrain s input = false) s inputs)
    (ordered : InArrivalOrder arrivals (s.lead ++ presses s.waitingBuffer)) :
    InArrivalOrder (arrivals ++ arrivedPresses inputs) (run fw.exec s inputs).lead := by
  induction inputs generalizing s arrivals with
  | nil =>
    rw [arrivedPresses, List.filterMap_nil, List.filter_nil, List.append_nil]
    exact ordered.sublist (List.sublist_append_left _ _)
  | cons input rest ih =>
    have split : arrivedPresses (input :: rest) = arrivedPresses [input] ++ arrivedPresses rest := by
      rw [arrivedPresses, arrivedPresses, arrivedPresses, ← List.filter_append,
        ← List.filterMap_append, List.singleton_append]
    rw [split, ← List.append_assoc]
    exact ih ((exec_guarded_iff guarded input).mpr calm.1) fits.2 calm.2
      (exec_order guarded fits.1 ordered)

/-- Presses reach `process_record` in the order of their arrival, and behind every
input records wait only for a tapping key that is pressed and not yet a tap,
exactly when no buffered record stalls the loop on the way. The waiting buffer
does not overflow. -/
theorem presses_in_order_iff (fw : Firmware World) (world : World) (inputs : List (Input World))
    (fits : Along fw.exec (fun s input => fw.overflows s input = false) { world := world } inputs) :
    (∀ cut, InArrivalOrder (arrivedPresses (inputs.take cut))
          (presses (run fw.exec { world := world } (inputs.take cut)).delivered) ∧
        (run fw.exec { world := world } (inputs.take cut)).Guarded) ↔
      Along fw.exec (fun s input => fw.stallsDrain s input = false) { world := world } inputs := by
  have start : State.Guarded ({ world := world } : State World) := fun waits => absurd rfl waits
  have guards : (∀ cut, (run fw.exec { world := world } (inputs.take cut)).Guarded) ↔
      Along fw.exec (fun s input => fw.stallsDrain s input = false) { world := world } inputs := by
    apply invariant_iff_along _ start
    exact fun s input guarded => exec_guarded_iff guarded input
  rw [← guards]
  constructor
  · intro holds cut
    exact (holds cut).2
  · intro guarded cut
    refine ⟨?_, guarded cut⟩
    have calm := guards.mp guarded
    rw [← List.take_append_drop cut inputs, along_append] at calm fits
    have ordered := run_order (inputs.take cut) start fits.1 calm.1 (inArrivalOrder_nil [])
    refine ordered.sublist ?_
    rw [State.lead, presses_append]
    exact List.sublist_append_left _ _

/-- A keyboard whose first row has mod-tap keys; a tapping term of 200 ms, and no
oneshot layers or hooks. -/
def modTapRow : Firmware Unit where
  layerSwitchGetAction _ key := if key.row = 0 then 0x2204 else 0x0005
  storeOrGetAction world _ key := (if key.row = 0 then 0x2204 else 0x0005, world)
  processRecordQuantum world _ := (true, world)
  postProcessRecordQuantum world _ := world
  processRecordTapHint world _ := world
  perform world _ _ := world
  isOneshotLayerActive _ := false
  oneshotPressed _ := false
  oneshotDisable _ := false
  clearOneshotLayerState world := world
  oneshotLayerOn world := world
  oneshotLayerOff world := world
  oneshotTapToggle := false
  clearKeyboard world := world
  getTappingTerm _ _ _ := 200
  getPermissiveHold _ _ _ := false
  getHoldOnOtherKeyPress _ _ _ := false
  getTappingForceHold _ _ _ := false
  getIgnoreModTapInterrupt _ _ := false

/-- Two mod-tap keys, and two other keys long after them, without a TICK. -/
def lateRoll : List (Input Unit) :=
  [.key ⟨{ key := { row := 0, col := 0 }, pressed := true, time := 1 }, rfl⟩,
    .key ⟨{ key := { row := 0, col := 1 }, pressed := true, time := 11 }, rfl⟩,
    .key ⟨{ key := { row := 1, col := 0 }, pressed := true, time := 301 }, rfl⟩,
    .key ⟨{ key := { row := 1, col := 1 }, pressed := true, time := 303 }, rfl⟩]

/-- The same keys, with a TICK at the end of the second key's term. -/
def tickedRoll : List (Input Unit) :=
  [.key ⟨{ key := { row := 0, col := 0 }, pressed := true, time := 1 }, rfl⟩,
    .key ⟨{ key := { row := 0, col := 1 }, pressed := true, time := 11 }, rfl⟩,
    .tick 205, .tick 213,
    .key ⟨{ key := { row := 1, col := 0 }, pressed := true, time := 301 }, rfl⟩,
    .key ⟨{ key := { row := 1, col := 1 }, pressed := true, time := 303 }, rfl⟩]

theorem ticked_roll_in_order :
    InArrivalOrder (arrivedPresses tickedRoll)
        (presses (run modTapRow.exec { world := () } tickedRoll).delivered) ∧
      (run modTapRow.exec { world := () } tickedRoll).Guarded :=
  (presses_in_order_iff modTapRow () tickedRoll (by decide)).mpr (by decide) 6

/-- The third press waits behind the second key, which times out in the loop, and
the fourth overtakes it. -/
theorem late_press_overtakes :
    Along modTapRow.exec (fun s input => modTapRow.overflows s input = false) { world := () }
        lateRoll ∧
      ¬InArrivalOrder (arrivedPresses lateRoll)
        (presses (run modTapRow.exec { world := () } lateRoll).delivered) ∧
      ¬(run modTapRow.exec { world := () } (lateRoll.take 3)).Guarded := by
  refine ⟨by decide, ?_, by unfold State.Guarded; decide⟩
  intro ordered
  have overtaken : List.Sublist
      [{ key := { row := 1, col := 1 }, pressed := true, time := 303 },
        { key := { row := 1, col := 0 }, pressed := true, time := 301 }]
      (presses (run modTapRow.exec { world := () } lateRoll).delivered) := by decide
  obtain ⟨i, j, le, fourth, third⟩ := ordered.pair overtaken
  revert i j
  decide

end Runs

end QmkSonix.Tapping
