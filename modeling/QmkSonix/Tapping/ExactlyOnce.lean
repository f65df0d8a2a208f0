import QmkSonix.Tapping.Once

/-! Runs of tapping that deliver every key event exactly once: each key's records
alternate, a release counts as its press did, and TICKs empty the waiting buffer. -/

namespace QmkSonix.Tapping

open QmkSonix.Keyboard QmkSonix.Lib

variable {World : Type*}

/-- The key event of an input, if it is one. -/
def Input.keyEvent? : Input World → Option KeyEvent
  | .key event => some event
  | _ => none

/-- The key events among some inputs. -/
def arrivedEvents (inputs : List (Input World)) : List KeyEvent := inputs.filterMap Input.keyEvent?

/-- The records that have not reached `process_record` yet. -/
def State.pending (s : State World) : List KeyRecord := s.front ++ s.waitingBuffer

/-- The records that have reached `process_record` for each key are a press, its release, and
so on, and each release carries the tap count of the press before it. -/
def State.KeysInTurn (s : State World) : Prop :=
  ∀ key, Alternates ((ofKey key s.delivered).map KeyRecord.event) ∧ SameCounts (ofKey key s.delivered)

namespace Firmware

variable (fw : Firmware World)

/-- An input that delivers its records in their turn: it does not stall the loop, every
call of `process_tapping` is regular, and what runs in between keeps the pending term. -/
def inTurn (s : State World) (input : Input World) : Bool :=
  !fw.stallsDrain s input && (fw.offers s input).all (fun offered => fw.regular offered.1 offered.2) &&
    match input with
    | .meanwhile change => fw.keepsTerm s { s with world := change s.world }
    | _ => true

/-- A TICK that comes later than the term of the pending tapping key. -/
def outlasts (s : State World) : Input World → Bool
  | .tick time => !(s.unresolved && fw.withinTappingTerm s (tickEvent time))
  | _ => false

end Firmware

variable {fw : Firmware World} {s : State World} {record : KeyRecord} {arrived : List KeyEvent}

section Steps

theorem admit_calls (fw : Firmware World) (s : State World) (record : KeyRecord) :
    (fw.admitRecord s record).calls = (fw.processTapping s record).state.calls := by
  unfold Firmware.admitRecord Firmware.waitingBufferEnq
  dsimp only
  split
  next => rfl
  next =>
    split
    next => rfl
    next => split <;> rfl

theorem exec_calls (fw : Firmware World) (s : State World) (input : Input World) :
    s.calls <+: (fw.exec s input).calls := by
  have processed (record : KeyRecord) : s.calls <+: (fw.actionTappingProcess s record).calls := by
    have admitted := (processTapping_offered fw s record).calls
    rw [← admit_calls] at admitted
    exact admitted.trans (drain_calls fw _ _)
  cases input with
  | key event => exact processed _
  | tick time => exact processed _
  | meanwhile change => exact List.prefix_rfl

theorem run_calls (fw : Firmware World) (s : State World) (inputs : List (Input World)) :
    s.calls <+: (run fw.exec s inputs).calls := by
  induction inputs generalizing s with
  | nil => exact List.prefix_rfl
  | cons input rest ih => exact (exec_calls fw s input).trans (ih (fw.exec s input))

theorem arrivedEvents_cons (input : Input World) (rest : List (Input World)) :
    arrivedEvents (input :: rest) = arrivedEvents [input] ++ arrivedEvents rest := by
  rw [arrivedEvents, arrivedEvents, arrivedEvents, ← List.filterMap_append, List.singleton_append]

theorem inTurn_event {input : Input World} {event : KeyEvent} (isEvent : input.event? = some event)
    (inTurn : fw.inTurn s input = true) :
    fw.regular s { event := event } = true ∧
      ∀ offered ∈ fw.drainOffers (fw.admitRecord s { event := event }).waitingBuffer.length
          (fw.admitRecord s { event := event }),
        fw.stalls offered.1 offered.2 = false ∧ fw.regular offered.1 offered.2 = true := by
  simp only [Firmware.inTurn, Firmware.stallsDrain, Firmware.offers, Firmware.bufferedOffers, isEvent,
    Bool.and_eq_true, Bool.not_eq_true', List.any_eq_false, List.all_cons, List.all_eq_true] at inTurn
  obtain ⟨⟨unstalled, first, later⟩, -⟩ := inTurn
  refine ⟨first, fun offered member => ⟨?_, later offered member⟩⟩
  exact Bool.eq_false_iff.mpr (unstalled offered member)

/-- Each input keeps every key's records in their line. -/
theorem exec_tracks {input : Input World} (physical : Physical (arrived ++ arrivedEvents [input]))
    (guarded : s.Guarded) (fits : fw.overflows s input = false) (inTurn : fw.inTurn s input = true)
    (calm : ∀ call ∈ (fw.exec s input).calls, fw.Undisturbed call) (tracks : Tracks fw arrived s) :
    Tracks fw (arrived ++ arrivedEvents [input]) (fw.exec s input) := by
  have admitted (event : KeyEvent)
      (calm : ∀ call ∈ (fw.actionTappingProcess s { event := event }).calls, fw.Undisturbed call) :
      ∀ call ∈ (fw.processTapping s { event := event }).state.calls, fw.Undisturbed call := by
    intro call member
    rw [← admit_calls] at member
    exact calm call ((drain_calls fw _ _).subset member)
  cases input with
  | key event =>
    have isEvent : (Input.key event : Input World).event? = some event.val := rfl
    obtain ⟨regular, offers⟩ := inTurn_event isEvent inTurn
    obtain ⟨single, scans, keeps⟩ := regular_iff.mp regular
    have offered := processTapping_offered fw s { event := event.val }
    have room : (fw.processTapping s { event := event.val }).done = true ∨
        (fw.processTapping s { event := event.val }).state.waitingBuffer.length + 1 ≠
          waitingBufferSize := by
      cases done : (fw.processTapping s { event := event.val }).done with
      | true => exact .inl rfl
      | false =>
        right
        have real : isNoEvent (fw.processTapping s { event := event.val }).keyp.event = false := by
          rw [offered.refused done]
          exact event.property
        simpa [Firmware.overflows, Input.event?, done, real] using fits
    have enters := offered.admitted physical keeps guarded tracks rfl room single scans
      (admitted event.val calm)
    exact drain_tracks physical _ offers calm enters
  | tick time =>
    have same : arrived ++ arrivedEvents [(Input.tick time : Input World)] = arrived :=
      List.append_nil arrived
    rw [same] at physical ⊢
    have isEvent : (Input.tick time : Input World).event? = some (tickEvent time) := rfl
    obtain ⟨regular, offers⟩ := inTurn_event isEvent inTurn
    obtain ⟨-, -, keeps⟩ := regular_iff.mp regular
    have offered := processTapping_offered fw s { event := tickEvent time }
    have enters := offered.ticked physical keeps tracks (by simp [isNoEvent, tickEvent]) ⟨rfl, rfl⟩ rfl
      (admitted (tickEvent time) calm)
    exact drain_tracks physical _ offers calm enters
  | meanwhile change =>
    have same : arrived ++ arrivedEvents [Input.meanwhile change] = arrived :=
      List.append_nil arrived
    rw [same]
    have keeps : fw.keepsTerm s { s with world := change s.world } = true := by
      simp only [Firmware.inTurn, Bool.and_eq_true] at inTurn
      exact inTurn.2
    exact tracks.elsewhere keeps

theorem tracks_start (fw : Firmware World) (world : World) : Tracks fw [] { world := world } where
  line key :=
    { inTurn := rfl
      same := List.isChain_nil
      ledger := fun record member => absurd member List.not_mem_nil }
  sorted := List.Pairwise.nil
  late unresolved := by cases unresolved
  counted tapping := by cases tapping

end Steps

section Pending

/-- What has arrived is delivered or pending, each event once. -/
theorem Tracks.perm (tracks : Tracks fw arrived s) :
    ((s.delivered ++ s.pending).map KeyRecord.event).Perm arrived := by
  rw [List.perm_iff_count]
  intro event
  have line := (tracks.line event.key).inTurn
  rw [← ofKey_append, ← ofKey_append] at line
  have mine : eventsOf event.key ((s.delivered ++ s.pending).map KeyRecord.event) =
      eventsOf event.key arrived := by
    rw [← line, ofKey, eventsOf, List.filter_map]
    rfl
  have counts (events : List KeyEvent) :
      (eventsOf event.key events).count event = events.count event :=
    List.count_filter (by simp)
  rw [← counts, mine, counts]

theorem Tracks.lengths (tracks : Tracks fw arrived s) :
    s.delivered.length + s.pending.length = arrived.length := by
  simpa using tracks.perm.length_eq

/-- A TICK later than the term delivers the pending tapping key. -/
theorem late_tick_delivers {time : BitVec 16} (guarded : s.Guarded) (waits : s.pending ≠ [])
    (late : fw.outlasts s (.tick time) = true) :
    s.delivered.length < (fw.exec s (.tick time)).delivered.length := by
  have unresolved : s.unresolved = true := by
    by_contra resolved
    have resolved := Bool.eq_false_iff.mpr resolved
    apply waits
    rw [State.pending, front_resolved resolved, List.nil_append]
    by_contra buffered
    exact absurd ((guarded buffered).symm.trans resolved) (by decide)
  have tapping := unresolved_pressed unresolved
  have outside : fw.withinTappingTerm s (tickEvent time) = false := by
    simpa [Firmware.outlasts, unresolved] using late
  have ends : fw.processTapping s { event := tickEvent time } =
      { state := fw.endTapping s, keyp := { event := tickEvent time }, done := false } := by
    simp [Firmware.processTapping, tapping, unresolved_uncounted unresolved, outside]
  have calls : (fw.admitRecord s { event := tickEvent time }).calls =
      s.calls ++ (fw.processRecord s.world s.tappingKey).calls := by
    rw [admit_calls, ends]
    rfl
  have called : 0 < (fw.processRecord s.world s.tappingKey).calls.length := by
    rcases processRecord_cases fw s.world (isTappingPressed_iff.mp tapping).1 with
      ⟨once, -⟩ | ⟨-, -, nested, -, twice⟩
    · rw [once]
      exact Nat.one_pos
    · rw [twice]
      exact Nat.two_pos
  have added := (drain_calls fw (fw.admitRecord s { event := tickEvent time }).waitingBuffer.length
    (fw.admitRecord s { event := tickEvent time })).length_le
  rw [calls, List.length_append] at added
  simp only [State.delivered, List.length_map, Firmware.exec, Firmware.actionTappingProcess]
  omega

theorem waitingBufferEnq_room (room : s.waitingBuffer.length < waitingBufferSize) :
    (fw.waitingBufferEnq s record).waitingBuffer.length < waitingBufferSize := by
  unfold Firmware.waitingBufferEnq
  split
  next => exact room
  next =>
    split
    next => exact Nat.zero_lt_succ 7
    next full =>
      rw [List.length_append, List.length_singleton]
      omega

theorem drain_waiting (fw : Firmware World) (steps : Nat) (s : State World) :
    (fw.drain steps s).waitingBuffer.length ≤ s.waitingBuffer.length := by
  induction steps generalizing s with
  | zero => exact Nat.le_refl _
  | succ steps ih =>
    cases here : s.waitingBuffer with
    | nil => simp [Firmware.drain, here]
    | cons waiting rest =>
      have same := processTapping_waiting fw s waiting
      rw [here, List.length_cons] at same
      simp only [Firmware.drain, here]
      split
      next =>
        refine (ih _).trans ?_
        rw [List.length_tail, same, List.length_cons]
        omega
      next => rw [List.length_cons, List.length_tail, same, List.length_cons, Nat.add_sub_cancel]

/-- The waiting buffer never holds as many records as its size. -/
theorem exec_room (input : Input World) (room : s.waitingBuffer.length < waitingBufferSize) :
    (fw.exec s input).waitingBuffer.length < waitingBufferSize := by
  have processed (record : KeyRecord) :
      (fw.actionTappingProcess s record).waitingBuffer.length < waitingBufferSize := by
    refine (drain_waiting fw _ _).trans_lt ?_
    have same := processTapping_waiting fw s record
    unfold Firmware.admitRecord
    dsimp only
    split
    next => exact same.trans_lt room
    next => exact waitingBufferEnq_room (same.trans_lt room)
  cases input with
  | key event => exact processed _
  | tick time => exact processed _
  | meanwhile change => exact room

theorem pending_room (room : s.waitingBuffer.length < waitingBufferSize) :
    s.pending.length ≤ waitingBufferSize := by
  have front : s.front.length ≤ 1 := by
    unfold State.front
    split
    next => exact Nat.le_refl 1
    next => exact Nat.zero_le 1
  rw [State.pending, List.length_append]
  omega

end Pending

section Runs

theorem run_tracks {inputs : List (Input World)}
    (physical : Physical (arrived ++ arrivedEvents inputs)) (guarded : s.Guarded)
    (fits : Along fw.exec (fun s input => fw.overflows s input = false) s inputs)
    (inTurn : Along fw.exec (fun s input => fw.inTurn s input = true) s inputs)
    (calm : ∀ call ∈ (run fw.exec s inputs).calls, fw.Undisturbed call)
    (tracks : Tracks fw arrived s) :
    Tracks fw (arrived ++ arrivedEvents inputs) (run fw.exec s inputs) ∧
      (run fw.exec s inputs).Guarded := by
  induction inputs generalizing s arrived with
  | nil =>
    rw [arrivedEvents, List.filterMap_nil, List.append_nil]
    exact ⟨tracks, guarded⟩
  | cons input rest ih =>
    rw [arrivedEvents_cons, ← List.append_assoc] at physical ⊢
    have unstalled : fw.stallsDrain s input = false := by
      have first := inTurn.1
      simp only [Firmware.inTurn, Bool.and_eq_true, Bool.not_eq_true'] at first
      exact first.1.1
    have step := exec_tracks physical.earlier guarded fits.1 inTurn.1
      (fun call member => calm call ((run_calls fw _ rest).subset member)) tracks
    exact ih physical ((exec_guarded_iff guarded input).mpr unstalled) fits.2 inTurn.2 calm step

/-- Each TICK later than the term leaves one record less pending. -/
theorem late_ticks_deliver {ticks : List (Input World)} (physical : Physical arrived)
    (guarded : s.Guarded)
    (fits : Along fw.exec (fun s input => fw.overflows s input = false) s ticks)
    (inTurn : Along fw.exec (fun s input => fw.inTurn s input = true) s ticks)
    (late : Along fw.exec (fun s input => fw.outlasts s input = true) s ticks)
    (calm : ∀ call ∈ (run fw.exec s ticks).calls, fw.Undisturbed call)
    (tracks : Tracks fw arrived s) :
    (run fw.exec s ticks).pending.length ≤ s.pending.length - ticks.length := by
  induction ticks generalizing s with
  | nil => exact Nat.le_refl _
  | cons input rest ih =>
    cases input with
    | key event => cases late.1
    | meanwhile change => cases late.1
    | tick time =>
      have same : arrived ++ arrivedEvents [(Input.tick time : Input World)] = arrived :=
        List.append_nil arrived
      have unchanged : Physical (arrived ++ arrivedEvents [(Input.tick time : Input World)]) := by
        rw [same]
        exact physical
      obtain ⟨step, guards⟩ := run_tracks unchanged guarded ⟨fits.1, trivial⟩ ⟨inTurn.1, trivial⟩
        (fun call member => calm call ((run_calls fw _ rest).subset member)) tracks
      rw [same] at step
      have onward := ih guards fits.2 inTurn.2 late.2 calm step
      have before := tracks.lengths
      have behind : (fw.exec s (.tick time)).delivered.length +
          (fw.exec s (.tick time)).pending.length = arrived.length := step.lengths
      have fewer : (fw.exec s (.tick time)).pending.length ≤ s.pending.length - 1 := by
        by_cases none : s.pending = []
        · have added : s.delivered.length ≤ (fw.exec s (.tick time)).delivered.length := by
            simpa [State.delivered] using (exec_calls fw s (.tick time)).length_le
          rw [none, List.length_nil] at before ⊢
          omega
        · have added := late_tick_delivers guarded none late.1
          omega
      rw [List.length_cons]
      have rest_le : (run fw.exec s (.tick time :: rest)).pending.length ≤
          (fw.exec s (.tick time)).pending.length - rest.length := onward
      omega

/-- Where no input makes up a release, delivers out of turn or cancels a tap, each key's
events reach `process_record` once each and in turn, and none is lost: those that are
pending are at most as many as the waiting buffer's size, and as many TICKs that each come
later than the term of the press then pending deliver them all. -/
theorem each_event_once (fw : Firmware World) (world : World) (inputs : List (Input World))
    (physical : Physical (arrivedEvents inputs))
    (fits : Along fw.exec (fun s input => fw.overflows s input = false) { world := world } inputs)
    (inTurn : Along fw.exec (fun s input => fw.inTurn s input = true) { world := world } inputs)
    (calm : ∀ call ∈ (run fw.exec { world := world } inputs).calls, fw.Undisturbed call) :
    (run fw.exec { world := world } inputs).KeysInTurn ∧
      (∀ key, (ofKey key ((run fw.exec { world := world } inputs).delivered ++
          (run fw.exec { world := world } inputs).pending)).map KeyRecord.event =
        eventsOf key (arrivedEvents inputs)) ∧
      (run fw.exec { world := world } inputs).pending.length ≤ waitingBufferSize ∧
      ∀ earlier ticks, inputs = earlier ++ ticks →
        Along fw.exec (fun s input => fw.outlasts s input = true)
          (run fw.exec { world := world } earlier) ticks →
        (run fw.exec { world := world } earlier).pending.length ≤ ticks.length →
        ∀ key, (ofKey key (run fw.exec { world := world } inputs).delivered).map KeyRecord.event =
          eventsOf key (arrivedEvents inputs) := by
  have start : State.Guarded ({ world := world } : State World) := fun waits => absurd rfl waits
  have physical' : Physical ([] ++ arrivedEvents inputs) := physical
  obtain ⟨tracks, -⟩ := run_tracks physical' start fits inTurn calm
    (tracks_start fw world)
  have lines (key : KeyPos) : (ofKey key ((run fw.exec { world := world } inputs).delivered ++
      (run fw.exec { world := world } inputs).pending)).map KeyRecord.event =
        eventsOf key (arrivedEvents inputs) := by
    rw [State.pending, ofKey_append, ofKey_append]
    exact (tracks.line key).inTurn
  refine ⟨fun key => ⟨?_, (tracks.line key).same⟩, lines, ?_, ?_⟩
  · have alternates := physical.alternates key
    rw [← lines key, ofKey_append, List.map_append] at alternates
    exact alternates.earlier
  · apply pending_room
    have empty : State.waitingBuffer ({ world := world } : State World) = [] := rfl
    refine run_keeps (fun s : State World => s.waitingBuffer.length < waitingBufferSize)
      (fun s input room => exec_room input room) ?_ inputs
    rw [empty]
    exact Nat.zero_lt_succ 7
  · rintro earlier ticks rfl late enough key
    rw [along_append] at fits inTurn
    have reached : arrivedEvents (earlier ++ ticks) = arrivedEvents earlier ++ arrivedEvents ticks :=
      List.filterMap_append ..
    have physical' : Physical ([] ++ arrivedEvents earlier) := (reached ▸ physical).earlier
    rw [run_append] at calm lines ⊢
    obtain ⟨before, guards⟩ := run_tracks physical' start fits.1 inTurn.1
      (fun call member => calm call ((run_calls fw _ ticks).subset member)) (tracks_start fw world)
    have fewer := late_ticks_deliver physical' guards fits.2 inTurn.2 late calm before
    have none : (run fw.exec (run fw.exec { world := world } earlier) ticks).pending = [] :=
      List.length_eq_zero_iff.mp (by omega)
    have line := lines key
    rw [none, List.append_nil] at line
    exact line

/-- The event of a key at a time; without one a TICK. -/
def strike (row col : BitVec 8) (pressed : Bool) (time : BitVec 16) : Input World :=
  let event : KeyEvent := { key := { row, col }, pressed, time }
  if real : isNoEvent event = false then .key ⟨event, real⟩ else .tick time

/-- A key is tapped twice, and two others are rolled. -/
def tapsAndRoll : List (Input Unit) :=
  [strike 0 0 true 1, strike 0 0 false 61, strike 0 0 true 71, strike 0 0 false 91,
    strike 1 0 true 101, strike 0 1 true 111, strike 1 0 false 121]

theorem taps_and_roll_once :
    (run modTapRow.exec { world := () } (tapsAndRoll ++ [.tick 313])).KeysInTurn ∧
      ∀ key, (ofKey key (run modTapRow.exec { world := () }
          (tapsAndRoll ++ [.tick 313])).delivered).map KeyRecord.event =
        eventsOf key (arrivedEvents (tapsAndRoll ++ [.tick 313])) := by
  have once := each_event_once modTapRow () (tapsAndRoll ++ [.tick 313]) (by decide) (by decide)
    (by decide) (by decide)
  exact ⟨once.1, once.2.2.2 tapsAndRoll [.tick 313] rfl (by decide) (by decide)⟩

/-- A mod-tap key is interrupted, released in time, and cancelled. -/
def cancelledTap : List (Input Unit) :=
  [strike 0 0 true 1, strike 1 0 true 11, strike 0 0 false 61, .tick 301]

/-- A key is pressed after both terms, and its press stays in the buffer. -/
def overtakenPress : List (Input Unit) :=
  [strike 0 0 true 1, strike 0 1 true 11, strike 1 0 true 301, strike 1 0 false 303]

/-- A key is tapped and held, and another tap key is pressed meanwhile. -/
def madeUpRelease : List (Input Unit) :=
  [strike 0 0 true 1, strike 0 0 false 11, strike 0 0 true 21, strike 0 1 true 31,
    strike 0 0 false 41, .tick 301]

/-- A key is typed after the oneshot layer key. -/
def typedUnderOneshot : List (Input (BitVec 2)) :=
  [strike 0 0 true 2, strike 0 0 false 22, strike 2 0 true 42, strike 2 0 false 62]

/-- A row of mod-tap keys that are held after a tap and not cancelled. The world is the
tapping term. -/
def forcedHolds : Firmware (BitVec 16) where
  layerSwitchGetAction _ key := if key.row = 0 then 0x2204 else 0x0005
  storeOrGetAction world _ key := (if key.row = 0 then 0x2204 else 0x0005, world)
  processRecordQuantum world _ := (true, world)
  postProcessRecordQuantum world _ := world
  processRecordTapHint world _ := world
  perform world _ _ := world
  isOneshotLayerActive _ := false
  oneshotPressed _ := false
  oneshotDisable _ := false
  clearOneshotLayerState world := world
  oneshotLayerOn world := world
  oneshotLayerOff world := world
  oneshotTapToggle := false
  clearKeyboard world := world
  getTappingTerm world _ _ := world
  getPermissiveHold _ _ _ := false
  getHoldOnOtherKeyPress _ _ _ := false
  getTappingForceHold _ _ _ := true
  getIgnoreModTapInterrupt _ _ := true

/-- A buffered press starts anew while its release waits behind another tap key. -/
def skippedScan : List (Input (BitVec 16)) :=
  [strike 0 0 true 1, strike 0 1 true 11, strike 0 1 false 21, strike 0 1 true 150,
    strike 0 2 true 155, strike 0 1 false 160, .tick 203, strike 0 1 true 210,
    strike 0 1 false 220, .tick 401]

/-- The tapping term shrinks and grows while keys are pending. -/
def changedTerm : List (Input (BitVec 16)) :=
  [strike 0 0 true 1, strike 0 1 true 11, strike 0 2 true 15, strike 0 1 false 300,
    .meanwhile fun _ => 200, .tick 421, .meanwhile fun _ => 499, strike 0 1 true 431,
    strike 0 1 false 441, .tick 901]

/-- Two mod-tap keys are held, until one TICK later than the terms of both. -/
def heldKeys : List (Input Unit) :=
  [strike 0 0 true 1, strike 0 1 true 11, .tick 301]

/-- A run in which keys alternate, time runs forwards and the waiting buffer does not
overflow, and yet a key's records are not in turn. -/
def BreaksTurns (fw : Firmware World) (world : World) (inputs : List (Input World)) : Prop :=
  Physical (arrivedEvents inputs) ∧
    Along fw.exec (fun s input => fw.overflows s input = false) { world := world } inputs ∧
    ¬(run fw.exec { world := world } inputs).KeysInTurn

/-- The first press is delivered twice, the second behind its release; then two releases
follow one press, made up for another tap key and for a oneshot layer; and then a
release has not the count of its press. After the TICK the second key is still pending. -/
theorem turns_broken :
    BreaksTurns modTapRow () cancelledTap ∧ BreaksTurns modTapRow () overtakenPress ∧
      BreaksTurns modTapRow () madeUpRelease ∧ BreaksTurns oneshotBoard 0 typedUnderOneshot ∧
      BreaksTurns forcedHolds 200 skippedScan ∧ BreaksTurns forcedHolds 400 changedTerm ∧
      (run modTapRow.exec { world := () } heldKeys).pending ≠ [] := by
  refine ⟨⟨by decide, by decide, fun turns => ?_⟩, ⟨by decide, by decide, fun turns => ?_⟩,
    ⟨by decide, by decide, fun turns => ?_⟩, ⟨by decide, by decide, fun turns => ?_⟩,
    ⟨by decide, by decide, fun turns => ?_⟩, ⟨by decide, by decide, fun turns => ?_⟩, by decide⟩
  · exact absurd (turns { row := 0, col := 0 }) (by decide)
  · exact absurd (turns { row := 1, col := 0 }) (by decide)
  · exact absurd (turns { row := 0, col := 0 }) (by decide)
  · exact absurd (turns { row := 2, col := 0 }) (by decide)
  · exact absurd (turns { row := 0, col := 1 }) (by decide)
  · exact absurd (turns { row := 0, col := 1 }) (by decide)

end Runs

end QmkSonix.Tapping
