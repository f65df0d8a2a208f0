import QmkSonix.Tapping.Delivery

/-! Each key's events reach `process_record` once and in turn along a run. -/

namespace QmkSonix.Tapping

open QmkSonix.Keyboard QmkSonix.Lib

variable {World : Type*} {fw : Firmware World} {s s' : State World} {keyp record : KeyRecord}
  {verdict : Verdict World} {arrived : List KeyEvent} {rest : List KeyRecord}

section Calls

theorem process_calls (fw : Firmware World) (s : State World) (record : KeyRecord) :
    s.calls <+: (fw.process s record).1.calls := List.prefix_append _ _

theorem startTapping_calls (fw : Firmware World) (s : State World) (keyp : KeyRecord) :
    s.calls <+: (fw.startTapping s keyp).calls := by
  rcases startTapping_cases fw s keyp with ⟨counted, -, -, -, starts⟩ | ⟨starts, -⟩
  · rw [starts]
    exact process_calls fw _ _
  · rw [starts]

/-- The calls of `process_record` are only added to. -/
theorem Offered.calls (offered : Offered fw s keyp verdict) : s.calls <+: verdict.state.calls := by
  cases offered with
  | tapped => exact process_calls fw _ _
  | ended _ held flag => rcases flag with rfl | rfl <;> exact process_calls fw _ _
  | kept _ held flag => rcases flag with rfl | rfl <;> exact List.prefix_rfl
  | early => exact process_calls fw _ _
  | ownRelease => exact process_calls fw _ _
  | restarted => exact (process_calls fw _ _).trans (startTapping_calls fw _ _)
  | started _ _ _ world => exact startTapping_calls fw { s with world := world } _
  | startedAgain => exact List.prefix_rfl
  | sequential => exact process_calls fw _ _
  | passed _ held flag => rcases flag with rfl | rfl <;> exact process_calls fw _ _
  | forgotten => exact List.prefix_rfl

theorem drain_calls (fw : Firmware World) (steps : Nat) (s : State World) :
    s.calls <+: (fw.drain steps s).calls := by
  induction steps generalizing s with
  | zero => exact List.prefix_rfl
  | succ steps ih =>
    cases buffer : s.waitingBuffer with
    | nil => simp [Firmware.drain, buffer]
    | cons waiting rest =>
      have added := (processTapping_offered fw s waiting).calls
      simp only [Firmware.drain, buffer]
      split
      next =>
        exact added.trans (ih { (fw.processTapping s waiting).state with
          waitingBuffer := (fw.processTapping s waiting).state.waitingBuffer.tail })
      next => exact added

end Calls

section Branches

theorem isTappingReleased_few (tapping : s.isTappingReleased = true) (key : KeyPos) :
    ¬s.MultiTap key := by
  intro multi
  simp only [State.isTappingReleased, Bool.and_eq_true, Bool.not_eq_true'] at tapping
  exact absurd (isTappingPressed_iff.mp multi.1).2 (by simp [tapping.2])

/-- The lines do not depend on the rest of the firmware, the pending term apart. -/
theorem Tracks.elsewhere {world : World} (keeps : fw.keepsTerm s { s with world := world } = true)
    (tracks : Tracks fw arrived s) : Tracks fw arrived { s with world := world } where
  line := tracks.line
  sorted := tracks.sorted
  late unresolved waiting member := by
    have late := tracks.late unresolved waiting member
    exact (releaseWaits_congr keeps unresolved unresolved rfl waiting).trans late
  counted := tracks.counted

/-- A tap key that takes over is delivered at once if its release waits in time. -/
theorem Tracks.start (physical : Physical arrived)
    (seen : s.waitingBuffer = keyp :: rest ∨ s.waitingBuffer = [] ∧ rest = [])
    (tracks : Tracks fw arrived { s with waitingBuffer := keyp :: rest })
    (resolved : s.unresolved = false) (few : ∀ key, ¬s.MultiTap key) (pressed : keyp.pressed = true)
    (calm : ∀ call ∈ (fw.startTapping s keyp).calls, fw.Undisturbed call) :
    Tracks fw arrived { fw.startTapping s keyp with
      waitingBuffer := (fw.startTapping s keyp).waitingBuffer.tail } := by
  have tail : s.waitingBuffer.tail = rest := by rcases seen with here | ⟨none, empty⟩ <;> simp [*]
  rcases startTapping_cases fw s keyp with ⟨counted, found, -, uncounted, starts⟩ | ⟨starts, absent⟩
  · rw [starts] at calm ⊢
    obtain ⟨before, waiting, after, split, isCounted, wanted, unwanted⟩ := countFirst_some found
    rcases seen with here | ⟨none, -⟩
    · rw [here] at split
      -- The press itself is no release, so that what is counted lies behind it.
      obtain ⟨before', rfl, rfl⟩ : ∃ before', before = keyp :: before' ∧
          rest = before' ++ waiting :: after := by
        rcases List.cons_eq_append_iff.mp split with ⟨-, same⟩ | ⟨before', isBefore, isRest⟩
        · obtain ⟨rfl, -⟩ := List.cons_eq_cons.mp same
          simp [Firmware.releaseWaits, pressed] at wanted
        · exact ⟨before', isBefore, isRest⟩
      obtain ⟨tapped, sameEvent, once, isTapped, delivered⟩ := tapOnce_calm
        (s := { s with tappingKey := keyp, waitingBuffer := counted })
        (tracks.head_isEvent physical) pressed calm
      have behind : ∀ earlier ∈ before', fw.releaseWaits { s with tappingKey := keyp } earlier =
          false := fun earlier member => unwanted earlier (List.mem_cons_of_mem _ member)
      let release : KeyRecord := { waiting with tap := { waiting.tap with count := 1 } }
      have sameRelease : release.event = waiting.event := rfl
      have buffered : counted.tail = before' ++ release :: after := by
        rw [isCounted]
        rfl
      exact tracks.scanned physical resolved few pressed wanted behind sameEvent once sameRelease
        rfl isTapped delivered buffered
    · rw [none] at split
      simp at split
  · rw [starts]
    have promoted := tracks.promote physical resolved few pressed fun waiting member => by
      have fresh := (tracks.head_line (by rw [front_resolved resolved, ofKey_nil])).fresh
        (physical.alternates keyp.key) pressed
      exact absent pressed fresh waiting (List.mem_of_mem_tail (tail ▸ member))
    rw [← tail] at promoted
    exact promoted

/-- A record that is consumed leaves every line in its turn. -/
theorem Offered.consumed (offered : Offered fw s keyp verdict) (done : verdict.done = true)
    (physical : Physical arrived) (keeps : fw.keepsTerm s verdict.state = true)
    (seen : s.waitingBuffer = keyp :: rest ∨ s.waitingBuffer = [] ∧ rest = [])
    (tracks : Tracks fw arrived { s with waitingBuffer := keyp :: rest })
    (single : fw.releasesLastTap s keyp = false) (scans : fw.skipsScan s keyp = false)
    (calm : ∀ call ∈ verdict.state.calls, fw.Undisturbed call) :
    Tracks fw arrived { verdict.state with waitingBuffer := verdict.state.waitingBuffer.tail } := by
  have tail : s.waitingBuffer.tail = rest := by rcases seen with here | ⟨none, empty⟩ <;> simp [*]
  cases offered with
  | early unresolved released foreign =>
    have passed := tracks.early physical keeps unresolved released foreign calm
    rw [← tail] at passed
    exact passed
  | ownRelease tapping counted own released next follows =>
    have unpressed : next.pressed = false := by
      rcases follows with rfl | rfl
      · rfl
      · exact processRecord_released _ released
    have passed := tracks.ownRelease physical tapping counted own released next unpressed calm
    rw [← tail] at passed
    exact passed
  | restarted tapping counted tapRecord pressed =>
    simp [Firmware.releasesLastTap, tapping, counted, tapRecord, pressed] at single
  | started resolved once pressed world =>
    have few (key : KeyPos) : ¬State.MultiTap { s with world := world } key := by
      intro several
      have counts : 1 < s.tappingKey.tap.count := several.2.2
      rw [once several.1] at counts
      exact absurd counts (lt_irrefl 1)
    have elsewhere : Tracks fw arrived { s with world := world, waitingBuffer := keyp :: rest } :=
      Tracks.elsewhere (s := { s with waitingBuffer := keyp :: rest }) (keepsTerm_resolved resolved)
        tracks
    exact elsewhere.start (s := { s with world := world }) physical seen resolved few pressed calm
  | startedAgain tapping within own pressed anew =>
    have waits : s.waitingBuffer.any (fw.releaseWaits { s with tappingKey := keyp }) = false := by
      simpa [Firmware.skipsScan, tapping, within, own, pressed, anew] using scans
    have promoted := tracks.promote physical (isTappingReleased_resolved tapping)
      (isTappingReleased_few tapping) pressed fun waiting member => by
        have absent := List.any_eq_false.mp waits waiting (List.mem_of_mem_tail (tail ▸ member))
        exact Bool.eq_false_iff.mpr absent
    rw [← tail] at promoted
    exact promoted
  | sequential tapping own pressed _ tap counts =>
    have passed := tracks.sequential physical tapping pressed tap counts calm
    rw [← tail] at passed
    exact passed
  | passed resolved held flag apart =>
    rcases flag with rfl | rfl
    · have passed := tracks.pass physical resolved apart calm
      rw [← tail] at passed
      exact passed
    · have interrupted := Tracks.interrupt (s := { s with waitingBuffer := keyp :: rest })
        (keepsTerm_resolved resolved) tracks
      have passed := interrupted.pass (s := s.interrupt) physical resolved apart calm
      rw [← tail] at passed
      exact passed
  | _ => cases done

/-- A record that is refused while the tapping key is pending waits in its place. -/
theorem Offered.refused_tracks (offered : Offered fw s keyp verdict) (refused : verdict.done = false)
    (waits : verdict.state.unresolved = true) (keeps : fw.keepsTerm s verdict.state = true)
    (here : s.waitingBuffer = keyp :: rest) (tracks : Tracks fw arrived s)
    (calm : ∀ call ∈ verdict.state.calls, fw.Undisturbed call) :
    Tracks fw arrived { verdict.state with
      waitingBuffer := verdict.keyp :: verdict.state.waitingBuffer.tail } := by
  cases offered with
  | tapped unresolved =>
    obtain ⟨event, pressed⟩ := isTappingPressed_iff.mp (unresolved_pressed unresolved)
    obtain ⟨tapped, -, once, isTapped, -⟩ := tapOnce_calm event pressed calm
    have uncounted := unresolved_uncounted waits
    rw [isTapped, once] at uncounted
    cases uncounted
  | ended => cases waits
  | kept _ held flag =>
    have same : keyp :: held.waitingBuffer.tail = held.waitingBuffer := by
      rcases flag with rfl | rfl
      · rw [here, List.tail_cons]
      · rw [interrupt_waitingBuffer, here, List.tail_cons]
    rw [same]
    rcases flag with rfl | rfl
    · exact tracks
    · have interrupted : Tracks fw arrived s.interrupt := tracks.interrupt keeps
      exact interrupted
  | forgotten => cases waits
  | _ => cases refused

theorem regular_iff : fw.regular s keyp = true ↔ fw.releasesLastTap s keyp = false ∧
    fw.skipsScan s keyp = false ∧ fw.keepsTerm s (fw.processTapping s keyp).state = true := by
  simp [Firmware.regular, and_assoc]

theorem drain_tracks (physical : Physical arrived) (steps : Nat)
    (inTurn : ∀ offered ∈ fw.drainOffers steps s, fw.stalls offered.1 offered.2 = false ∧
      fw.regular offered.1 offered.2 = true)
    (calm : ∀ call ∈ (fw.drain steps s).calls, fw.Undisturbed call)
    (tracks : Tracks fw arrived s) : Tracks fw arrived (fw.drain steps s) := by
  induction steps generalizing s with
  | zero => exact tracks
  | succ steps ih =>
    cases here : s.waitingBuffer with
    | nil => simpa [Firmware.drain, here] using tracks
    | cons waiting rest =>
      have offered := processTapping_offered fw s waiting
      simp only [Firmware.drainOffers, here, List.mem_cons, forall_eq_or_imp] at inTurn
      obtain ⟨⟨unstalled, regular⟩, later⟩ := inTurn
      obtain ⟨single, scans, keeps⟩ := regular_iff.mp regular
      rw [stalls_eq] at unstalled
      simp only [Firmware.drain, here] at calm ⊢
      cases done : (fw.processTapping s waiting).done with
      | true =>
        rw [done, if_pos rfl] at calm later
        rw [if_pos rfl]
        have added := drain_calls fw steps { (fw.processTapping s waiting).state with
          waitingBuffer := (fw.processTapping s waiting).state.waitingBuffer.tail }
        apply ih later calm
        refine offered.consumed done physical keeps (.inl here) ?_ single scans
          fun call member => calm call (added.subset member)
        rw [← here]
        exact tracks
      | false =>
        rw [done, if_neg Bool.false_ne_true] at calm
        rw [if_neg Bool.false_ne_true]
        have waits : (fw.processTapping s waiting).state.unresolved = true := by
          simpa [done] using unstalled
        exact offered.refused_tracks done waits keeps here tracks calm

end Branches

section Admission

theorem Tracks.enqueue
    (tracks : Tracks fw arrived { s with waitingBuffer := s.waitingBuffer ++ [keyp] })
    (event : isNoEvent keyp.event = false)
    (room : s.waitingBuffer.length + 1 ≠ waitingBufferSize) :
    Tracks fw arrived (fw.waitingBufferEnq s keyp) := by
  rw [Firmware.waitingBufferEnq, event, if_neg Bool.false_ne_true, if_neg room]
  exact tracks

/-- The tapping key is given up after it has been processed as a hold. -/
theorem Tracks.ended (physical : Physical arrived) (tracks : Tracks fw arrived s)
    (unresolved : s.unresolved = true) {held : State World} (flag : held = s ∨ held = s.interrupt)
    (calm : ∀ call ∈ (fw.endTapping held).calls, fw.Undisturbed call) :
    Tracks fw arrived (fw.endTapping held) := by
  obtain ⟨event, -⟩ := isTappingPressed_iff.mp (unresolved_pressed unresolved)
  rcases flag with rfl | rfl
  · have once := (process_once held held.tappingKey event calm).1
    exact tracks.hold physical unresolved rfl rfl rfl once rfl
  · have once := (process_once s.interrupt s.interrupt.tappingKey event calm).1
    refine tracks.hold physical unresolved ?_ ?_ ?_ once ?_ <;> rfl

theorem Tracks.forget (tracks : Tracks fw arrived s) (tapping : s.isTappingReleased = true) :
    Tracks fw arrived { s with tappingKey := noRecord } where
  line key := by
    have idle : State.front { s with tappingKey := noRecord } = [] := front_resolved rfl
    have line := tracks.line key
    rw [front_resolved (isTappingReleased_resolved tapping)] at line
    rw [idle]
    exact line.weaken fun several => absurd several (isTappingReleased_few tapping key)
  sorted := by
    have idle : State.front { s with tappingKey := noRecord } = [] := front_resolved rfl
    rw [idle]
    exact tracks.sorted.sublist (List.Sublist.map _ (List.sublist_append_right _ _))
  late unresolved := by cases unresolved
  counted tapping := by cases tapping

/-- Nothing of the tapping key waits when its release arrives in time. -/
theorem Tracks.nothing_waits (physical : Physical (arrived ++ [keyp.event]))
    (tracks : Tracks fw arrived s) (unresolved : s.unresolved = true)
    (within : fw.withinTappingTerm s keyp.event = true) :
    ofKey s.tappingKey.key s.waitingBuffer = [] := by
  obtain ⟨event, pressed⟩ := isTappingPressed_iff.mp (unresolved_pressed unresolved)
  have line := tracks.line s.tappingKey.key
  rw [front_unresolved unresolved, ofKey_same rfl, ofKey_nil] at line
  cases mine : ofKey s.tappingKey.key s.waitingBuffer with
  | nil => rfl
  | cons first others =>
    exfalso
    obtain ⟨member, sameKey⟩ : first ∈ s.waitingBuffer ∧ first.key = s.tappingKey.key := by
      have filtered : first ∈ ofKey s.tappingKey.key s.waitingBuffer := by
        rw [mine]
        exact List.mem_cons_self ..
      simpa [ofKey] using filtered
    have released : first.pressed = false := by
      have inTurn := line.inTurn
      rw [mine, List.singleton_append] at inTurn
      exact head_released (physical.earlier.alternates s.tappingKey.key) inTurn pressed
    have behind : s.tappingKey.event.time ≤ first.event.time := by
      have sorted := tracks.sorted
      rw [front_unresolved unresolved, List.singleton_append, List.map_cons,
        List.pairwise_cons] at sorted
      exact sorted.1 _ (List.mem_map_of_mem (f := fun record => record.event.time) member)
    have before : first.event.time ≤ keyp.event.time :=
      physical.latest _ (tracks.arrived_of_mem (List.mem_append_right _ member))
    have own : s.isTappingKey first.key = true := isTappingKey_iff.mpr ⟨event, sameKey.symm⟩
    have waits : fw.releaseWaits s first = true := by
      simp [Firmware.releaseWaits, own, released, within_of_earlier behind before within]
    exact absurd (waits.symm.trans (tracks.late unresolved first member)) (by decide)

/-- The tapping key's own release arrives in time, and waits with its count. -/
theorem Tracks.tapped (physical : Physical (arrived ++ [keyp.event]))
    (tracks : Tracks fw arrived s) (unresolved : s.unresolved = true)
    (within : fw.withinTappingTerm s keyp.event = true)
    (own : s.isTappingKey keyp.key = true) (uncounted : keyp.tap.count = 0)
    (calm : ∀ call ∈ (fw.tapOnce s).calls, fw.Undisturbed call) (release : KeyRecord)
    (sameRelease : release.event = keyp.event)
    (counted : release.tap = (fw.tapOnce s).tappingKey.tap) :
    Tracks fw (arrived ++ [keyp.event]) { fw.tapOnce s with
      waitingBuffer := s.waitingBuffer ++ [release] } := by
  obtain ⟨event, pressed⟩ := isTappingPressed_iff.mp (unresolved_pressed unresolved)
  obtain ⟨tapped, sameEvent, once, isTapped, delivered⟩ := tapOnce_calm event pressed calm
  have clear := tracks.nothing_waits physical unresolved within
  have mine := (isTappingKey_iff.mp own).2
  have sameKey : tapped.key = s.tappingKey.key := congrArg KeyEvent.key sameEvent
  have releaseKey : release.key = s.tappingKey.key :=
    (congrArg KeyEvent.key sameRelease).trans mine.symm
  have settled : State.unresolved { fw.tapOnce s with
      waitingBuffer := s.waitingBuffer ++ [release] } = false := by
    have uncounted' : (fw.tapOnce s).tappingKey.tap.count ≠ 0 := by rw [isTapped, once]; decide
    simp [State.unresolved, uncounted']
  have idle : State.front { fw.tapOnce s with waitingBuffer := s.waitingBuffer ++ [release] } = [] :=
    front_resolved settled
  have few := multiTap_of_uncounted (s := s) (by rw [unresolved_uncounted unresolved]; decide)
  apply Tracks.of_line (s := { s with waitingBuffer := s.waitingBuffer ++ [keyp] })
    (tracks.arrive_line uncounted) s.tappingKey.key
  · intro other apart
    refine ⟨?_, ?_, ?_, fun several => absurd several (few other)⟩
    · have away : tapped.key ≠ other := fun there => apart (there.symm.trans sameKey)
      exact (congrArg (ofKey other) delivered).trans (ofKey_append_other away _)
    · have front : State.front { s with waitingBuffer := s.waitingBuffer ++ [keyp] } =
          [s.tappingKey] := front_unresolved unresolved
      rw [idle, front, ofKey_other (Ne.symm apart)]
    · have away : release.key ≠ other := fun there => apart (there.symm.trans releaseKey)
      have away' : keyp.key ≠ other := fun there => apart (there.symm.trans mine.symm)
      exact (ofKey_append_other away _).trans (ofKey_append_other away' _).symm
  · have line := tracks.arrive_line uncounted s.tappingKey.key
    rw [front_unresolved unresolved, ofKey_same rfl, ofKey_nil,
      ofKey_append_same keyp mine.symm, clear, List.nil_append] at line
    have buffered : ofKey s.tappingKey.key (s.waitingBuffer ++ [release]) = [release] := by
      rw [ofKey_append_same release releaseKey, clear, List.nil_append]
    have last : ofKey s.tappingKey.key (fw.tapOnce s).delivered =
        ofKey s.tappingKey.key s.delivered ++ [tapped] := by
      rw [delivered, ofKey_append_same tapped sameKey]
    have counts : release.tap.count = 1 := by rw [counted, isTapped, once]
    have tapped' : Line _ (State.MultiTap { fw.tapOnce s with
        waitingBuffer := s.waitingBuffer ++ [release] } s.tappingKey.key) _ _ _ :=
      line.tap tapped release (physical.alternates _) sameEvent pressed once sameRelease counts
    rw [idle, ofKey_nil]
    rw [← buffered, ← last] at tapped'
    exact tapped'
  · rw [idle]
    have sorted := (tracks.arrive_sorted physical).sublist
      (List.Sublist.map _ (List.sublist_append_right _ _))
    simpa [sameRelease] using sorted
  · intro unresolved
    exact absurd (settled.symm.trans unresolved) Bool.false_ne_true
  · intro _ _
    have pressed' : tapped.pressed = true := by
      rw [KeyRecord.pressed, sameEvent]
      exact pressed
    have owes : owed (ofKey tapped.key (fw.tapOnce s).delivered) = some tapped.tap.count := by
      rw [delivered, ofKey_append_same tapped rfl, owed_append, if_pos pressed']
    rw [← isTapped] at owes
    exact owes

/-- A release that is not typed in the buffer has no record of its key there. -/
theorem Tracks.untyped_clear (physical : Physical (arrived ++ [keyp.event]))
    (tracks : Tracks fw arrived s) (released : keyp.pressed = false)
    (untyped : s.waitingBufferTyped keyp.event = false) : ofKey keyp.key s.waitingBuffer = [] := by
  rcases List.eq_nil_or_concat (ofKey keyp.key s.waitingBuffer) with none | ⟨before, last, split⟩
  · exact none
  · exfalso
    rw [List.concat_eq_append] at split
    obtain ⟨member, sameKey⟩ : last ∈ s.waitingBuffer ∧ last.key = keyp.key := by
      have filtered : last ∈ ofKey keyp.key s.waitingBuffer := by simp [split]
      simpa [ofKey] using filtered
    have apart : keyp.pressed = !last.pressed := by
      have chain := (physical.alternates keyp.key).1
      have sameEvents : eventsOf keyp.key (arrived ++ [keyp.event]) =
          eventsOf keyp.key arrived ++ [keyp.event] := eventsOf_append_same keyp.event arrived
      rw [sameEvents, ← (tracks.line keyp.key).inTurn, split, List.isChain_append] at chain
      exact chain.2.2 last.event (by simp) keyp.event (by simp)
    have typed : s.waitingBufferTyped keyp.event = true := by
      apply List.any_eq_true.mpr
      refine ⟨last, member, ?_⟩
      have apart' : keyp.event.pressed = !last.pressed := apart
      have sameKey' : keyp.event.key = last.key := sameKey.symm
      simp [apart', sameKey']
    exact absurd (typed.symm.trans untyped) (by decide)

/-- The release of a key pressed before the tapping key is delivered on arrival. -/
theorem Tracks.early_arrival (physical : Physical (arrived ++ [keyp.event]))
    (tracks : Tracks fw arrived s) (keeps : fw.keepsTerm s (fw.process s keyp).1 = true)
    (unresolved : s.unresolved = true) (released : keyp.pressed = false) (foreign : s.isTappingKey keyp.key = false)
    (untyped : s.waitingBufferTyped keyp.event = false) (uncounted : keyp.tap.count = 0)
    (calm : ∀ call ∈ (fw.process s keyp).1.calls, fw.Undisturbed call) :
    Tracks fw (arrived ++ [keyp.event]) (fw.process s keyp).1 := by
  have event : isNoEvent keyp.event = false :=
    physical.real _ (List.mem_append_right _ (List.mem_cons_self ..))
  have once := (process_once s keyp event calm).1
  have clear := tracks.untyped_clear physical released untyped
  have none : ofKey keyp.key s.front = [] := by
    have event := (isTappingPressed_iff.mp (unresolved_pressed unresolved)).1
    have apart : s.tappingKey.key ≠ keyp.key := by
      intro same
      simp [isTappingKey_iff.mpr ⟨event, same⟩] at foreign
    rw [front_unresolved unresolved, ofKey_other apart, ofKey_nil]
  apply Tracks.of_line (s := { s with waitingBuffer := s.waitingBuffer ++ [keyp] })
    (tracks.arrive_line uncounted) keyp.key
  · intro other apart
    refine ⟨?_, rfl, (ofKey_append_other (Ne.symm apart) _).symm, fun several => several⟩
    rw [once, ofKey_append_other (Ne.symm apart)]
    rfl
  · have line := tracks.arrive_line uncounted keyp.key
    rw [none, ofKey_append_same keyp rfl, clear, List.nil_append] at line
    have front : (fw.process s keyp).1.front = s.front := rfl
    rw [front, process_waitingBuffer, clear, none, once, ofKey_append_same keyp rfl]
    have few := multiTap_of_uncounted (s := s) (by rw [unresolved_uncounted unresolved]; decide)
    exact line.release keyp rfl released (line.pays (few keyp.key))
  · exact tracks.sorted
  · intro _ waiting member
    have late := tracks.late unresolved waiting member
    exact (releaseWaits_congr keeps unresolved unresolved rfl waiting).trans late
  · intro _ counted
    exact absurd (unresolved_uncounted unresolved) counted

/-- An event that finds room is delivered, becomes the tapping key, or waits. -/
theorem Offered.admitted (offered : Offered fw s keyp verdict)
    (physical : Physical (arrived ++ [keyp.event]))
    (keeps : fw.keepsTerm s verdict.state = true) (guarded : s.Guarded)
    (tracks : Tracks fw arrived s) (uncounted : keyp.tap.count = 0)
    (room : verdict.done = true ∨ verdict.state.waitingBuffer.length + 1 ≠ waitingBufferSize)
    (single : fw.releasesLastTap s keyp = false) (scans : fw.skipsScan s keyp = false)
    (calm : ∀ call ∈ verdict.state.calls, fw.Undisturbed call) :
    Tracks fw (arrived ++ [keyp.event])
      (if verdict.done then verdict.state else fw.waitingBufferEnq verdict.state verdict.keyp) := by
  have event : isNoEvent keyp.event = false :=
    physical.real _ (List.mem_append_right _ (List.mem_cons_self ..))
  have empty (resolved : s.unresolved = false) : s.waitingBuffer = [] := by
    by_contra waits
    exact absurd (resolved.symm.trans (guarded waits)) (by decide)
  -- Nothing waits for a settled tapping key, so that the record is the only one.
  have alone (resolved : s.unresolved = false) :
      Tracks fw (arrived ++ [keyp.event]) { s with waitingBuffer := [keyp] } := by
    have arrives := tracks.arrive physical uncounted
      fun unresolved => absurd (resolved.symm.trans unresolved) (by decide)
    rw [empty resolved] at arrives
    exact arrives
  have consumed (resolved : s.unresolved = false) (done : verdict.done = true) :
      Tracks fw (arrived ++ [keyp.event]) verdict.state := by
    have step := offered.consumed done physical keeps (.inr ⟨empty resolved, rfl⟩)
      (alone resolved) single scans calm
    have nothing : verdict.state.waitingBuffer = [] := by
      have events := offered.events
      rw [empty resolved] at events
      exact List.map_eq_nil_iff.mp events
    rw [nothing, List.tail_nil, ← nothing] at step
    exact step
  cases offered with
  | tapped unresolved within own released =>
    rw [if_neg Bool.false_ne_true]
    have tapped := tracks.tapped physical unresolved within own uncounted calm
      { keyp with tap := (fw.tapOnce s).tappingKey.tap } rfl rfl
    exact tapped.enqueue event (room.resolve_left Bool.false_ne_true)
  | ended unresolved held flag apart =>
    rw [if_neg Bool.false_ne_true]
    have ended := tracks.ended physical.earlier unresolved flag calm
    have waits := ended.arrive physical uncounted fun unresolved => by cases unresolved
    exact waits.enqueue event (room.resolve_left Bool.false_ne_true)
  | kept unresolved held flag apart =>
    rw [if_neg Bool.false_ne_true]
    have flagged : Tracks fw arrived held := by
      rcases flag with rfl | rfl
      · exact tracks
      · exact tracks.interrupt keeps
    have own : held.isTappingKey keyp.key = s.isTappingKey keyp.key := by
      rcases flag with rfl | rfl <;> rfl
    have waits := flagged.arrive physical uncounted fun _ => by
      cases isOwn : s.isTappingKey keyp.key with
      | true => simp [Firmware.releaseWaits, own, isOwn, apart isOwn]
      | false => simp [Firmware.releaseWaits, own, isOwn]
    exact waits.enqueue event (room.resolve_left Bool.false_ne_true)
  | early unresolved released foreign untyped =>
    exact tracks.early_arrival physical keeps unresolved released foreign untyped uncounted calm
  | ownRelease tapping counted =>
    exact consumed (by simp [State.unresolved, counted]) rfl
  | restarted tapping counted tapRecord pressed =>
    simp [Firmware.releasesLastTap, tapping, counted, tapRecord, pressed] at single
  | started resolved => exact consumed resolved rfl
  | startedAgain tapping => exact consumed (isTappingReleased_resolved tapping) rfl
  | sequential tapping => exact consumed (isTappingReleased_resolved tapping) rfl
  | passed resolved => exact consumed resolved rfl
  | forgotten tapping late =>
    rw [if_neg Bool.false_ne_true]
    have waits := (tracks.forget tapping).arrive physical uncounted
      fun unresolved => by cases unresolved
    exact waits.enqueue event (room.resolve_left Bool.false_ne_true)

/-- A TICK may settle or forget the tapping key, and nothing else. -/
theorem Offered.ticked (offered : Offered fw s keyp verdict) (physical : Physical arrived)
    (keeps : fw.keepsTerm s verdict.state = true) (tracks : Tracks fw arrived s) (empty : isNoEvent keyp.event = true)
    (nowhere : keyp.key.row = 255 ∧ keyp.key.col = 255) (released : keyp.pressed = false)
    (calm : ∀ call ∈ verdict.state.calls, fw.Undisturbed call) :
    Tracks fw arrived
      (if verdict.done then verdict.state else fw.waitingBufferEnq verdict.state verdict.keyp) := by
  have foreign : s.isTappingKey keyp.key = false := by
    by_contra own
    obtain ⟨event, same⟩ := isTappingKey_iff.mp (Bool.eq_true_of_not_eq_false own)
    have tick : isNoEvent s.tappingKey.event = true := by
      have place : s.tappingKey.event.key = keyp.key := same
      simp [isNoEvent, place, nowhere.1, nowhere.2]
    exact absurd (tick.symm.trans event) (by decide)
  have unpressed {proposition : Prop} (pressed : keyp.pressed = true) : proposition := by
    simp [released] at pressed
  have unowned {proposition : Prop} (own : s.isTappingKey keyp.key = true) : proposition := by
    simp [foreign] at own
  cases offered with
  | tapped _ _ own => exact unowned own
  | ended unresolved held flag apart =>
    rw [if_neg Bool.false_ne_true, Firmware.waitingBufferEnq, empty, if_pos rfl]
    exact tracks.ended physical unresolved flag calm
  | kept unresolved held flag apart =>
    rw [if_neg Bool.false_ne_true, Firmware.waitingBufferEnq, empty, if_pos rfl]
    rcases flag with rfl | rfl
    · exact tracks
    · exact tracks.interrupt keeps
  | early =>
    rw [if_pos rfl, process_noEvent empty]
    exact tracks
  | ownRelease _ _ own => exact unowned own
  | restarted _ _ _ pressed => exact unpressed pressed
  | started _ _ pressed => exact unpressed pressed
  | startedAgain _ _ own => exact unowned own
  | sequential _ own => exact unowned own
  | passed resolved held flag apart =>
    rw [if_pos rfl, process_noEvent empty]
    rcases flag with rfl | rfl
    · exact tracks
    · exact tracks.interrupt (keepsTerm_resolved resolved)
  | forgotten tapping late =>
    rw [if_neg Bool.false_ne_true, Firmware.waitingBufferEnq, empty, if_pos rfl]
    exact tracks.forget tapping

end Admission

end QmkSonix.Tapping
