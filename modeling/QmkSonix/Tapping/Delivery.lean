import QmkSonix.Tapping.Invalid
import QmkSonix.Tapping.Line
import QmkSonix.Tapping.Order

/-! Which records reach `process_record` for each key: the key's own events, once
each and in their turn, where no tap is cancelled and no release is made up. -/

namespace QmkSonix.Tapping

open QmkSonix.Keyboard QmkSonix.Lib

variable {World : Type*}

/-- The records of one key. -/
def ofKey (key : KeyPos) (records : List KeyRecord) : List KeyRecord :=
  records.filter (·.key = key)

/-- Key events as a keyboard makes them: each key is pressed and released in turn,
and time does not run backwards. -/
structure Physical (arrived : List KeyEvent) : Prop where
  real : ∀ event ∈ arrived, isNoEvent event = false
  alternates : ∀ key, Alternates (eventsOf key arrived)
  ordered : (arrived.map KeyEvent.time).Pairwise (· ≤ ·)

theorem physical_iff (arrived : List KeyEvent) :
    Physical arrived ↔ (∀ event ∈ arrived, isNoEvent event = false) ∧
      (∀ event ∈ arrived, Alternates (eventsOf event.key arrived)) ∧
      (arrived.map KeyEvent.time).Pairwise (· ≤ ·) := by
  constructor
  · intro physical
    exact ⟨physical.real, fun event _ => physical.alternates event.key, physical.ordered⟩
  · rintro ⟨real, alternates, ordered⟩
    refine ⟨real, fun key => ?_, ordered⟩
    cases mine : eventsOf key arrived with
    | nil => exact ⟨List.isChain_nil, fun first isFirst => by cases isFirst⟩
    | cons event rest =>
      obtain ⟨member, sameKey⟩ : event ∈ arrived ∧ event.key = key := by
        have filtered : event ∈ eventsOf key arrived := mine ▸ List.mem_cons_self
        simpa [eventsOf] using filtered
      rw [← mine, ← sameKey]
      exact alternates event member

instance (arrived : List KeyEvent) : Decidable (Physical arrived) :=
  decidable_of_iff' _ (physical_iff arrived)

namespace Firmware

variable (fw : Firmware World)

/-- The tapping term of a press does not change between two states in which it is pending. -/
def keepsTerm (s s' : State World) : Bool :=
  !(s.unresolved && s'.unresolved && s'.tappingKey.event = s.tappingKey.event) ||
    fw.getTappingTerm s'.world s'.tappingKey s'.tappingKey =
      fw.getTappingTerm s.world s.tappingKey s.tappingKey

/-- `process_action` cancels the tap of a press, or releases its key for a oneshot layer. -/
def disturbs (world : World) (record : KeyRecord) : Bool :=
  let quantum := fw.processRecordQuantum world record
  let stored := fw.storeOrGetAction quantum.2 record.pressed record.key
  let cleared := if fw.usesOneshotLayer stored.2 record stored.1 then
    fw.clearOneshotLayerState stored.2 else stored.2
  record.pressed && quantum.1 &&
    (fw.releasesOneshot stored.2 record stored.1 || fw.cancelsTap cleared record stored.1)

/-- A call of `process_record` does not disturb the press it is given. -/
def Undisturbed (call : Call World) : Prop := fw.disturbs call.world call.record = false

instance (call : Call World) : Decidable (fw.Undisturbed call) :=
  inferInstanceAs (Decidable (_ = false))

/-- A tap key is pressed while one that counts several taps is held, which is
released with it. -/
def releasesLastTap (s : State World) (keyp : KeyRecord) : Bool :=
  s.isTappingPressed && 1 < s.tappingKey.tap.count && fw.isTapRecord s.world keyp && keyp.pressed

/-- The tapping key is pressed again and starts anew, without a scan, although its
release already waits. -/
def skipsScan (s : State World) (keyp : KeyRecord) : Bool :=
  s.isTappingReleased && fw.withinTappingTerm s keyp.event && s.isTappingKey keyp.key &&
    keyp.pressed && !fw.isSequentialTap s keyp &&
    s.waitingBuffer.any (fw.releaseWaits { s with tappingKey := keyp })

/-- `process_tapping` makes up no release, skips no scan, and keeps the tapping term of a
press that stays pending. -/
def regular (s : State World) (keyp : KeyRecord) : Bool :=
  !fw.releasesLastTap s keyp && !fw.skipsScan s keyp &&
    fw.keepsTerm s (fw.processTapping s keyp).state

end Firmware

/-- The tapping key is held and counts several taps. -/
def State.MultiTap (s : State World) (key : KeyPos) : Prop :=
  s.isTappingPressed = true ∧ s.tappingKey.key = key ∧ 1 < s.tappingKey.tap.count

/-- Every key's records are in their line, time runs forwards among the pending
ones, no release of the pending tapping key waits within its term, and a tapping
key that is held counts as its press did. -/
structure Tracks (fw : Firmware World) (arrived : List KeyEvent) (s : State World) : Prop where
  line : ∀ key, Line (eventsOf key arrived) (s.MultiTap key) (ofKey key s.delivered)
    (ofKey key s.front) (ofKey key s.waitingBuffer)
  sorted : ((s.front ++ s.waitingBuffer).map fun record => record.event.time).Pairwise (· ≤ ·)
  late : s.unresolved = true → ∀ waiting ∈ s.waitingBuffer, fw.releaseWaits s waiting = false
  counted : s.isTappingPressed = true → s.tappingKey.tap.count ≠ 0 →
    owed (ofKey s.tappingKey.key s.delivered) = some s.tappingKey.tap.count

variable {fw : Firmware World} {s s' : State World} {keyp record : KeyRecord}
  {verdict : Verdict World} {arrived : List KeyEvent} {rest : List KeyRecord}

section Keys

variable {key : KeyPos}

@[simp] theorem ofKey_append (key : KeyPos) (first second : List KeyRecord) :
    ofKey key (first ++ second) = ofKey key first ++ ofKey key second := List.filter_append ..

@[simp] theorem ofKey_nil (key : KeyPos) : ofKey key [] = [] := rfl

theorem ofKey_same (same : record.key = key) (rest : List KeyRecord) :
    ofKey key (record :: rest) = record :: ofKey key rest :=
  List.filter_cons_of_pos (by simp [same])

theorem ofKey_other (other : record.key ≠ key) (rest : List KeyRecord) :
    ofKey key (record :: rest) = ofKey key rest :=
  List.filter_cons_of_neg (by simp [other])

theorem ofKey_append_same (record : KeyRecord) (same : record.key = key)
    (earlier : List KeyRecord) : ofKey key (earlier ++ [record]) = ofKey key earlier ++ [record] := by
  rw [ofKey_append, ofKey_same same, ofKey_nil]

theorem ofKey_append_other (other : record.key ≠ key) (earlier : List KeyRecord) :
    ofKey key (earlier ++ [record]) = ofKey key earlier := by
  rw [ofKey_append, ofKey_other other, ofKey_nil, List.append_nil]

theorem unresolved_uncounted (unresolved : s.unresolved = true) : s.tappingKey.tap.count = 0 := by
  simp only [State.unresolved, Bool.and_eq_true, decide_eq_true_eq] at unresolved
  exact unresolved.2

theorem unresolved_pressed (unresolved : s.unresolved = true) : s.isTappingPressed = true := by
  simp only [State.unresolved, Bool.and_eq_true] at unresolved
  exact unresolved.1

theorem isTappingPressed_iff :
    s.isTappingPressed = true ↔
      isNoEvent s.tappingKey.event = false ∧ s.tappingKey.pressed = true := by
  simp [State.isTappingPressed]

theorem isTappingKey_iff :
    s.isTappingKey key = true ↔ isNoEvent s.tappingKey.event = false ∧ s.tappingKey.key = key := by
  simp [State.isTappingKey]

/-- A line that holds while a key counts several taps asks no more elsewhere. -/
theorem Line.weaken {multi multi' : Prop} {delivered front buffered : List KeyRecord}
    (line : Line arrived multi delivered front buffered) (weaker : multi → multi') :
    Line arrived multi' delivered front buffered where
  inTurn := line.inTurn
  same := line.same
  ledger := by
    have ledger := line.ledger
    cases owes : owed delivered with
    | none =>
      rw [owes] at ledger
      exact ledger
    | some count =>
      rw [owes] at ledger
      exact ⟨ledger.1, ledger.2.imp_left weaker⟩

end Keys

section Calls

/-- A press that is not disturbed is left as it is. -/
theorem processRecord_undisturbed {world : World} (event : isNoEvent record.event = false)
    (pressed : record.pressed = true) (undisturbed : fw.disturbs world record = false) :
    (fw.processRecord world record).record = record := by
  unfold Firmware.processRecord
  rw [Firmware.processRecordBody, event, if_neg Bool.false_ne_true]
  cases passes : (fw.processRecordQuantum world record).1 with
  | false => simp [passes]
  | true =>
    simp only [passes, ↓reduceIte, Firmware.processRecordHandler]
    simp only [Firmware.disturbs, pressed, passes, Bool.and_self, Bool.true_and,
      Bool.or_eq_false_iff] at undisturbed
    obtain ⟨unreleased, uncancelled⟩ := undisturbed
    rw [processAction_pressed pressed, pressed, unreleased, if_neg Bool.false_ne_true,
      leaveRecord_pressed pressed, uncancelled, if_neg Bool.false_ne_true]

/-- An event that is not disturbed reaches `process_record` once and as it is. -/
theorem process_once (s : State World) (record : KeyRecord) (event : isNoEvent record.event = false)
    (calm : ∀ call ∈ (fw.process s record).1.calls, fw.Undisturbed call) :
    (fw.process s record).1.delivered = s.delivered ++ [record] ∧
      (record.pressed = true → (fw.process s record).2 = record) := by
  have called : (fw.process s record).1.calls =
      s.calls ++ (fw.processRecord s.world record).calls := rfl
  have leaves : (fw.process s record).2 = (fw.processRecord s.world record).record := rfl
  rw [called] at calm
  rw [leaves, State.delivered, called, List.map_append]
  rcases processRecord_cases fw s.world event with ⟨once, -⟩ | ⟨pressed, released, nested, -, twice⟩
  · rw [once] at calm ⊢
    refine ⟨rfl, fun pressed => ?_⟩
    exact processRecord_undisturbed event pressed (calm { world := s.world, record := record } (by simp))
  · have same : (fw.processRecord s.world record).record = record :=
      processRecord_undisturbed event pressed
        (calm { world := s.world, record := record } (by simp [twice]))
    rw [same, pressed] at released
    cases released

theorem process_noEvent (empty : isNoEvent record.event = true) :
    fw.process s record = (s, record) := by
  simp [Firmware.process, processRecord_noEvent empty]

end Calls

section Steps

/-- Only one key's line changes. -/
theorem Tracks.of_line (lines : ∀ key, Line (eventsOf key arrived) (s.MultiTap key)
      (ofKey key s.delivered) (ofKey key s.front) (ofKey key s.waitingBuffer)) (key : KeyPos)
    (others : ∀ other, other ≠ key → ofKey other s'.delivered = ofKey other s.delivered ∧
      ofKey other s'.front = ofKey other s.front ∧
      ofKey other s'.waitingBuffer = ofKey other s.waitingBuffer ∧
      (s.MultiTap other → s'.MultiTap other))
    (line : Line (eventsOf key arrived) (s'.MultiTap key) (ofKey key s'.delivered)
      (ofKey key s'.front) (ofKey key s'.waitingBuffer))
    (sorted : ((s'.front ++ s'.waitingBuffer).map fun record => record.event.time).Pairwise (· ≤ ·))
    (late : s'.unresolved = true → ∀ waiting ∈ s'.waitingBuffer, fw.releaseWaits s' waiting = false)
    (counted : s'.isTappingPressed = true → s'.tappingKey.tap.count ≠ 0 →
      owed (ofKey s'.tappingKey.key s'.delivered) = some s'.tappingKey.tap.count) :
    Tracks fw arrived s' where
  line other := by
    by_cases same : other = key
    · rw [same]
      exact line
    · obtain ⟨delivered, front, buffered, multi⟩ := others other same
      rw [delivered, front, buffered]
      exact (lines other).weaken multi
  sorted := sorted
  late := late
  counted := counted

theorem Tracks.arrived_of_mem (tracks : Tracks fw arrived s)
    (pending : record ∈ s.front ++ s.waitingBuffer) : record.event ∈ arrived := by
  have inTurn := (tracks.line record.key).inTurn
  have mine : record.event ∈ eventsOf record.key arrived := by
    rw [← inTurn, ← ofKey_append]
    apply List.mem_map_of_mem
    exact List.mem_append_right _ (List.mem_filter.mpr ⟨pending, by simp⟩)
  exact List.mem_of_mem_filter mine

/-- The record at the head of the buffer is the next of its key. -/
theorem Tracks.head_line (tracks : Tracks fw arrived { s with waitingBuffer := keyp :: rest })
    (foreign : ofKey keyp.key s.front = []) :
    Line (eventsOf keyp.key arrived) (s.MultiTap keyp.key) (ofKey keyp.key s.delivered) []
      (keyp :: ofKey keyp.key rest) := by
  have line := tracks.line keyp.key
  rw [show State.front { s with waitingBuffer := keyp :: rest } = s.front from rfl, foreign,
    show State.waitingBuffer { s with waitingBuffer := keyp :: rest } = keyp :: rest from rfl,
    ofKey_same rfl] at line
  exact line

theorem Tracks.buffer_sorted (tracks : Tracks fw arrived { s with waitingBuffer := rest }) :
    (rest.map fun record => record.event.time).Pairwise (· ≤ ·) :=
  tracks.sorted.sublist (List.Sublist.map _ (List.sublist_append_right _ _))

theorem front_resolved (resolved : s.unresolved = false) : s.front = [] := by
  simp [State.front, resolved]

theorem front_unresolved (unresolved : s.unresolved = true) : s.front = [s.tappingKey] := by
  simp [State.front, unresolved]

/-- The record at the head of the buffer is delivered. -/
theorem Tracks.deliver (tracks : Tracks fw arrived { s with waitingBuffer := keyp :: rest })
    (s' : State World) (record : KeyRecord) (sameKey : record.key = keyp.key) (delivered : s'.delivered = s.delivered ++ [record])
    (front : s'.front = s.front) (buffered : s'.waitingBuffer = rest)
    (multi : ∀ other, other ≠ keyp.key → s.MultiTap other → s'.MultiTap other)
    (foreign : ofKey keyp.key s.front = [])
    (line : Line (eventsOf keyp.key arrived) (s'.MultiTap keyp.key)
      (ofKey keyp.key s.delivered ++ [record]) [] (ofKey keyp.key rest))
    (late : s'.unresolved = true → ∀ waiting ∈ rest, fw.releaseWaits s' waiting = false)
    (counted : s'.isTappingPressed = true → s'.tappingKey.tap.count ≠ 0 →
      owed (ofKey s'.tappingKey.key s'.delivered) = some s'.tappingKey.tap.count) :
    Tracks fw arrived s' := by
  apply Tracks.of_line tracks.line keyp.key
  · intro other apart
    have apart' : record.key ≠ other := fun same => apart (same.symm.trans sameKey)
    refine ⟨?_, ?_, ?_, multi other apart⟩
    · rw [delivered, ofKey_append_other apart']
      rfl
    · rw [front]
      rfl
    · rw [buffered]
      exact (ofKey_other (Ne.symm apart) rest).symm
  · rw [delivered, front, buffered, foreign, ofKey_append_same record sameKey]
    exact line
  · rw [front, buffered]
    refine tracks.sorted.sublist (List.Sublist.map _ ?_)
    exact (List.Sublist.refl _).append (List.sublist_cons_self keyp rest)
  · rw [buffered]
    exact late
  · exact counted

/-- Another tapping key leaves a line alone, unless it counts several taps. -/
theorem multiTap_of_uncounted (few : s.tappingKey.tap.count ≤ 1) (key : KeyPos) :
    ¬s.MultiTap key := fun several => Nat.not_lt.mpr few several.2.2

variable (physical : Physical arrived)

include physical in
theorem Tracks.isEvent (tracks : Tracks fw arrived s)
    (pending : record ∈ s.front ++ s.waitingBuffer) : isNoEvent record.event = false :=
  physical.real _ (tracks.arrived_of_mem pending)

include physical in
theorem Tracks.head_isEvent (tracks : Tracks fw arrived { s with waitingBuffer := keyp :: rest }) :
    isNoEvent keyp.event = false :=
  tracks.isEvent physical (List.mem_append_right _ (List.mem_cons_self ..))

theorem keepsTerm_resolved (resolved : s.unresolved = false) : fw.keepsTerm s s' = true := by
  simp [Firmware.keepsTerm, resolved]

/-- Only the press of the tapping key and its term decide which releases wait in time. -/
theorem releaseWaits_congr (keeps : fw.keepsTerm s s' = true) (unresolved : s.unresolved = true)
    (unresolved' : s'.unresolved = true) (same : s'.tappingKey.event = s.tappingKey.event)
    (waiting : KeyRecord) : fw.releaseWaits s' waiting = fw.releaseWaits s waiting := by
  have term : fw.getTappingTerm s'.world s'.tappingKey s'.tappingKey =
      fw.getTappingTerm s.world s.tappingKey s.tappingKey := by
    simpa [Firmware.keepsTerm, unresolved, unresolved', same] using keeps
  have own : s'.isTappingKey waiting.key = s.isTappingKey waiting.key := by
    unfold State.isTappingKey KeyRecord.key
    rw [same]
  have within : fw.withinTappingTerm s' waiting.event = fw.withinTappingTerm s waiting.event := by
    simp only [Firmware.withinTappingTerm, same, term]
  rw [Firmware.releaseWaits, Firmware.releaseWaits, own, within]

theorem interrupt_front_events (s : State World) :
    s.interrupt.front.map KeyRecord.event = s.front.map KeyRecord.event := by
  cases unresolved : s.unresolved with
  | false =>
    have stays : s.interrupt.unresolved = false := unresolved
    rw [front_resolved unresolved, front_resolved stays]
  | true =>
    have stays : s.interrupt.unresolved = true := unresolved
    rw [front_unresolved unresolved, front_unresolved stays]
    rfl

theorem ofKey_events {first second : List KeyRecord} (key : KeyPos)
    (same : first.map KeyRecord.event = second.map KeyRecord.event) :
    (ofKey key first).map KeyRecord.event = (ofKey key second).map KeyRecord.event := by
  have inEvents (records : List KeyRecord) : (ofKey key records).map KeyRecord.event =
      eventsOf key (records.map KeyRecord.event) := by
    rw [ofKey, eventsOf, List.filter_map]
    rfl
  rw [inEvents, inEvents, same]

/-- The interrupted flag plays no part in the lines. -/
theorem Tracks.interrupt (keeps : fw.keepsTerm s s.interrupt = true) (tracks : Tracks fw arrived s) :
    Tracks fw arrived s.interrupt where
  line key :=
    { inTurn := by
        rw [← (tracks.line key).inTurn, List.map_append, List.map_append, List.map_append,
          List.map_append, ofKey_events key (interrupt_front_events s)]
        rfl
      same := (tracks.line key).same
      ledger := (tracks.line key).ledger }
  sorted := by
    have times (records : List KeyRecord) : (records.map fun record => record.event.time) =
        (records.map KeyRecord.event).map KeyEvent.time := by simp
    have sorted := tracks.sorted
    rw [times, List.map_append] at sorted ⊢
    rw [interrupt_front_events]
    exact sorted
  late unresolved waiting member := by
    have late := tracks.late unresolved waiting member
    exact (releaseWaits_congr keeps unresolved unresolved rfl waiting).trans late
  counted := tracks.counted

include physical in
/-- A record passes by a tapping key that is settled. -/
theorem Tracks.pass (tracks : Tracks fw arrived { s with waitingBuffer := keyp :: rest })
    (resolved : s.unresolved = false)
    (apart : s.isTappingPressed = true → s.isTappingKey keyp.key = true → keyp.pressed = true)
    (calm : ∀ call ∈ (fw.process s keyp).1.calls, fw.Undisturbed call) :
    Tracks fw arrived { (fw.process s keyp).1 with waitingBuffer := rest } := by
  have event := tracks.head_isEvent physical
  have once := (process_once s keyp event calm).1
  have foreign : ofKey keyp.key s.front = [] := by rw [front_resolved resolved, ofKey_nil]
  have line := tracks.head_line foreign
  have alternates := physical.alternates keyp.key
  -- A tapping key that is held has been delivered, so that its own press cannot come next.
  have other : s.isTappingPressed = true → s.tappingKey.tap.count ≠ 0 →
      s.tappingKey.key ≠ keyp.key := by
    intro tapping counted same
    have owes := tracks.counted tapping counted
    have pressed := apart tapping
      (isTappingKey_iff.mpr ⟨(isTappingPressed_iff.mp tapping).1, same⟩)
    have none := owed_none alternates line.inTurn pressed
    rw [← same] at none
    exact absurd (none.symm.trans owes) (by simp)
  have single : ¬s.MultiTap keyp.key := fun several =>
    other several.1 (Nat.ne_of_gt (Nat.zero_lt_of_lt several.2.2)) several.2.1
  apply tracks.deliver { (fw.process s keyp).1 with waitingBuffer := rest } keyp rfl once rfl rfl
    (fun _ _ several => several) foreign
  · cases pressed : keyp.pressed with
    | true => exact line.press keyp alternates rfl pressed (.inl (line.fresh alternates pressed))
    | false => exact line.release keyp rfl pressed (line.pays single)
  · intro unresolved
    exact absurd (resolved.symm.trans unresolved) Bool.false_ne_true
  · intro tapping counted
    have kept : ofKey s.tappingKey.key (fw.process s keyp).1.delivered =
        ofKey s.tappingKey.key s.delivered := by
      rw [once, ofKey_append_other (Ne.symm (other tapping counted))]
    exact (congrArg owed kept).trans (tracks.counted tapping counted)

include physical in
/-- The release of a key pressed before the tapping key goes ahead of it. -/
theorem Tracks.early (keeps : fw.keepsTerm s (fw.process s keyp).1 = true)
    (tracks : Tracks fw arrived { s with waitingBuffer := keyp :: rest })
    (unresolved : s.unresolved = true) (released : keyp.pressed = false)
    (foreign : s.isTappingKey keyp.key = false)
    (calm : ∀ call ∈ (fw.process s keyp).1.calls, fw.Undisturbed call) :
    Tracks fw arrived { (fw.process s keyp).1 with waitingBuffer := rest } := by
  have once := (process_once s keyp (tracks.head_isEvent physical) calm).1
  have none : ofKey keyp.key s.front = [] := by
    have event := (isTappingPressed_iff.mp (unresolved_pressed unresolved)).1
    have apart : s.tappingKey.key ≠ keyp.key := by
      intro same
      simp [isTappingKey_iff.mpr ⟨event, same⟩] at foreign
    rw [front_unresolved unresolved, ofKey_other apart, ofKey_nil]
  have line := tracks.head_line none
  have few : s.tappingKey.tap.count ≤ 1 := by
    rw [unresolved_uncounted unresolved]
    exact Nat.zero_le 1
  have single := multiTap_of_uncounted few keyp.key
  apply tracks.deliver { (fw.process s keyp).1 with waitingBuffer := rest } keyp rfl once rfl rfl
    (fun _ _ several => several) none
  · exact line.release keyp rfl released (line.pays single)
  · intro _ waiting member
    have late := tracks.late unresolved waiting (List.mem_cons_of_mem _ member)
    exact (releaseWaits_congr keeps unresolved unresolved rfl waiting).trans late
  · intro _ counted
    exact absurd (unresolved_uncounted unresolved) counted

include physical in
/-- The release of the tapping key carries the count of its taps. -/
theorem Tracks.ownRelease (tracks : Tracks fw arrived { s with waitingBuffer := keyp :: rest })
    (tapping : s.isTappingPressed = true) (counted : s.tappingKey.tap.count ≠ 0)
    (own : s.isTappingKey keyp.key = true) (released : keyp.pressed = false) (next : KeyRecord)
    (follows : next.pressed = false)
    (calm : ∀ call ∈ (fw.process s { keyp with tap := s.tappingKey.tap }).1.calls,
      fw.Undisturbed call) :
    Tracks fw arrived { (fw.process s { keyp with tap := s.tappingKey.tap }).1 with
      tappingKey := next, waitingBuffer := rest } := by
  have event : isNoEvent keyp.event = false := tracks.head_isEvent physical
  have once := (process_once s { keyp with tap := s.tappingKey.tap } event calm).1
  have resolved : s.unresolved = false := by simp [State.unresolved, counted]
  have foreign : ofKey keyp.key s.front = [] := by rw [front_resolved resolved, ofKey_nil]
  have idle : State.isTappingPressed { (fw.process s { keyp with tap := s.tappingKey.tap }).1 with
      tappingKey := next, waitingBuffer := rest } = false := by
    simp [State.isTappingPressed, follows]
  have settled : State.unresolved { (fw.process s { keyp with tap := s.tappingKey.tap }).1 with
      tappingKey := next, waitingBuffer := rest } = false := by
    rw [State.unresolved, idle, Bool.false_and]
  have mine := (isTappingKey_iff.mp own).2
  apply tracks.deliver { (fw.process s { keyp with tap := s.tappingKey.tap }).1 with
    tappingKey := next, waitingBuffer := rest } { keyp with tap := s.tappingKey.tap } rfl once
    (by rw [front_resolved settled, front_resolved resolved]) rfl
    (fun other apart several => absurd (several.2.1.symm.trans mine) apart) foreign
  · apply (tracks.head_line foreign).release { keyp with tap := s.tappingKey.tap } rfl released
    intro count owes
    have isCount := tracks.counted tapping counted
    rw [show State.tappingKey { s with waitingBuffer := keyp :: rest } = s.tappingKey from rfl,
      mine] at isCount
    exact Option.some.inj (isCount.symm.trans owes)
  · intro unresolved
    exact absurd (settled.symm.trans unresolved) Bool.false_ne_true
  · intro pressed
    exact absurd (idle.symm.trans pressed) Bool.false_ne_true

include physical in
/-- A further tap is delivered with its count. -/
theorem Tracks.sequential (tracks : Tracks fw arrived { s with waitingBuffer := keyp :: rest })
    (tapping : s.isTappingReleased = true) (pressed : keyp.pressed = true) (tap : Tap)
    (counts : 1 < tap.count)
    (calm : ∀ call ∈ (fw.process s { keyp with tap := tap }).1.calls, fw.Undisturbed call) :
    Tracks fw arrived { (fw.process s { keyp with tap := tap }).1 with
      tappingKey := (fw.process s { keyp with tap := tap }).2, waitingBuffer := rest } := by
  have event : isNoEvent keyp.event = false := tracks.head_isEvent physical
  obtain ⟨once, same⟩ := process_once s { keyp with tap := tap } event calm
  rw [same pressed]
  have resolved := isTappingReleased_resolved tapping
  have foreign : ofKey keyp.key s.front = [] := by rw [front_resolved resolved, ofKey_nil]
  have settled : State.unresolved { (fw.process s { keyp with tap := tap }).1 with
      tappingKey := { keyp with tap := tap }, waitingBuffer := rest } = false := by
    simp [State.unresolved, Nat.ne_of_gt (Nat.zero_lt_of_lt counts)]
  have several : State.MultiTap { (fw.process s { keyp with tap := tap }).1 with
      tappingKey := { keyp with tap := tap }, waitingBuffer := rest } keyp.key :=
    ⟨isTappingPressed_iff.mpr ⟨event, pressed⟩, rfl, counts⟩
  have idle (key : KeyPos) : ¬s.MultiTap key := by
    intro multi
    simp only [State.isTappingReleased, Bool.and_eq_true, Bool.not_eq_true'] at tapping
    exact absurd (isTappingPressed_iff.mp multi.1).2 (by simp [tapping.2])
  apply tracks.deliver { (fw.process s { keyp with tap := tap }).1 with
    tappingKey := { keyp with tap := tap }, waitingBuffer := rest } { keyp with tap := tap } rfl once
    (by rw [front_resolved settled, front_resolved resolved]) rfl
    (fun other _ multi => absurd multi (idle other)) foreign
  · exact (tracks.head_line foreign).press { keyp with tap := tap } (physical.alternates keyp.key)
      rfl pressed (.inr several)
  · intro unresolved
    exact absurd (settled.symm.trans unresolved) Bool.false_ne_true
  · intro _ _
    have last : ofKey keyp.key (s.delivered ++ [{ keyp with tap := tap }]) =
        ofKey keyp.key s.delivered ++ [{ keyp with tap := tap }] :=
      ofKey_append_same { keyp with tap := tap } rfl _
    have owes : owed (ofKey keyp.key s.delivered ++ [{ keyp with tap := tap }]) = some tap.count := by
      rw [owed_append, KeyRecord.pressed]
      exact if_pos pressed
    exact ((congrArg (fun records => owed (ofKey keyp.key records)) once).trans
      (congrArg owed last)).trans owes

include physical in
/-- A press becomes the tapping key, and no release of it waits in time. -/
theorem Tracks.promote (tracks : Tracks fw arrived { s with waitingBuffer := keyp :: rest })
    (resolved : s.unresolved = false) (few : ∀ key, ¬s.MultiTap key) (pressed : keyp.pressed = true)
    (absent : ∀ waiting ∈ rest, fw.releaseWaits { s with tappingKey := keyp } waiting = false) :
    Tracks fw arrived { s with tappingKey := keyp, waitingBuffer := rest } := by
  have event := tracks.head_isEvent physical
  have foreign : ofKey keyp.key s.front = [] := by rw [front_resolved resolved, ofKey_nil]
  have line := tracks.head_line foreign
  have fresh := line.fresh (physical.alternates keyp.key) pressed
  have unresolved : State.unresolved { s with tappingKey := keyp, waitingBuffer := rest } = true := by
    have tapping : State.isTappingPressed
        { s with tappingKey := keyp, waitingBuffer := rest } = true :=
      isTappingPressed_iff.mpr ⟨event, pressed⟩
    rw [State.unresolved, tapping, Bool.true_and]
    exact decide_eq_true fresh
  apply Tracks.of_line tracks.line keyp.key
  · intro other apart
    refine ⟨rfl, ?_, (ofKey_other (Ne.symm apart) rest).symm, fun several => absurd several (few other)⟩
    rw [front_unresolved unresolved, ofKey_other (Ne.symm apart),
      front_resolved (s := { s with waitingBuffer := keyp :: rest }) resolved]
  · rw [front_unresolved unresolved, ofKey_same rfl]
    exact line.start (physical.alternates keyp.key) pressed
  · rw [front_unresolved unresolved]
    exact tracks.buffer_sorted
  · exact fun _ => absent
  · exact fun _ counted => absurd fresh counted

/-- What comes between the press of the tapping key and an event within its term is
within its term too. -/
theorem within_of_earlier {first second : KeyEvent}
    (ordered : s.tappingKey.event.time ≤ first.time) (earlier : first.time ≤ second.time)
    (within : fw.withinTappingTerm s second = true) : fw.withinTappingTerm s first = true := by
  simp only [Firmware.withinTappingTerm, decide_eq_true_eq] at within ⊢
  bv_omega

include physical in
/-- The first release in time is the first record of the new tapping key. -/
theorem Tracks.nothing_before {before after : List KeyRecord} {waiting : KeyRecord}
    (tracks : Tracks fw arrived { s with waitingBuffer := keyp :: (before ++ waiting :: after) })
    (resolved : s.unresolved = false) (pressed : keyp.pressed = true)
    (wanted : fw.releaseWaits { s with tappingKey := keyp } waiting = true)
    (unwanted : ∀ earlier ∈ before, fw.releaseWaits { s with tappingKey := keyp } earlier = false) :
    ofKey keyp.key before = [] := by
  have foreign : ofKey keyp.key s.front = [] := by rw [front_resolved resolved, ofKey_nil]
  have inTurn := (tracks.head_line foreign).inTurn
  have sorted := tracks.buffer_sorted
  cases mine : ofKey keyp.key before with
  | nil => rfl
  | cons first others =>
    exfalso
    obtain ⟨member, sameKey⟩ : first ∈ before ∧ first.key = keyp.key := by
      have filtered : first ∈ ofKey keyp.key before := by rw [mine]; exact List.mem_cons_self ..
      simpa [ofKey] using filtered
    have released : first.pressed = false := by
      rw [ofKey_append, mine, List.cons_append] at inTurn
      exact head_released (physical.alternates keyp.key) inTurn pressed
    have times : keyp.event.time ≤ first.event.time ∧ first.event.time ≤ waiting.event.time := by
      rw [List.map_cons, List.map_append, List.pairwise_cons, List.pairwise_append] at sorted
      have inBefore := List.mem_map_of_mem (f := fun record => record.event.time) member
      exact ⟨sorted.1 _ (List.mem_append_left _ inBefore),
        sorted.2.2.2 _ inBefore _ (List.mem_cons_self ..)⟩
    have within : fw.withinTappingTerm { s with tappingKey := keyp } first.event = true := by
      simp only [Firmware.releaseWaits, Bool.and_eq_true] at wanted
      exact within_of_earlier times.1 times.2 wanted.2
    have own : State.isTappingKey { s with tappingKey := keyp } first.key = true :=
      isTappingKey_iff.mpr ⟨tracks.head_isEvent physical, sameKey.symm⟩
    have waits : fw.releaseWaits { s with tappingKey := keyp } first = true := by
      simp [Firmware.releaseWaits, own, released, within]
    exact absurd (waits.symm.trans (unwanted first member)) (by decide)

/-- The tapping key is delivered with the count 1. -/
theorem tapOnce_calm (event : isNoEvent s.tappingKey.event = false)
    (pressed : s.tappingKey.pressed = true)
    (calm : ∀ call ∈ (fw.tapOnce s).calls, fw.Undisturbed call) :
    ∃ tapped : KeyRecord, tapped.event = s.tappingKey.event ∧ tapped.tap.count = 1 ∧
      (fw.tapOnce s).tappingKey = tapped ∧ (fw.tapOnce s).delivered = s.delivered ++ [tapped] := by
  let tapped : KeyRecord := { s.tappingKey with tap := { s.tappingKey.tap with count := 1 } }
  obtain ⟨once, same⟩ := process_once { s with tappingKey := tapped } tapped event calm
  exact ⟨tapped, rfl, rfl, same pressed, once⟩

include physical in
/-- A press becomes the tapping key, and counts as a tap since its release waits. -/
theorem Tracks.scanned {before after : List KeyRecord} {waiting tapped counted : KeyRecord}
    (tracks : Tracks fw arrived { s with waitingBuffer := keyp :: (before ++ waiting :: after) })
    (resolved : s.unresolved = false) (few : ∀ key, ¬s.MultiTap key) (pressed : keyp.pressed = true)
    (wanted : fw.releaseWaits { s with tappingKey := keyp } waiting = true)
    (unwanted : ∀ earlier ∈ before, fw.releaseWaits { s with tappingKey := keyp } earlier = false)
    (sameEvent : tapped.event = keyp.event) (once : tapped.tap.count = 1)
    (sameRelease : counted.event = waiting.event) (once' : counted.tap.count = 1)
    (isTapped : s'.tappingKey = tapped) (delivered : s'.delivered = s.delivered ++ [tapped])
    (buffered : s'.waitingBuffer = before ++ counted :: after) : Tracks fw arrived s' := by
  have foreign : ofKey keyp.key s.front = [] := by rw [front_resolved resolved, ofKey_nil]
  have alternates := physical.alternates keyp.key
  have clear := tracks.nothing_before physical resolved pressed wanted unwanted
  have mine : waiting.key = keyp.key := by
    simp only [Firmware.releaseWaits, Bool.and_eq_true] at wanted
    exact (isTappingKey_iff.mp wanted.1.1).2.symm
  have mine' : counted.key = keyp.key := (congrArg KeyEvent.key sameRelease).trans mine
  have sameKey : tapped.key = keyp.key := congrArg KeyEvent.key sameEvent
  have settled : s'.unresolved = false := by simp [State.unresolved, isTapped, once]
  have line := tracks.head_line foreign
  rw [ofKey_append, clear, ofKey_same mine, List.nil_append] at line
  apply Tracks.of_line tracks.line keyp.key
  · intro other apart
    have away {record : KeyRecord} (same : record.key = keyp.key) : record.key ≠ other :=
      fun there => apart (there.symm.trans same)
    refine ⟨?_, ?_, ?_, fun several => absurd several (few other)⟩
    · rw [delivered, ofKey_append_other (away sameKey)]
      rfl
    · rw [front_resolved settled]
      exact (congrArg (ofKey other) (front_resolved resolved)).symm
    · rw [buffered, ofKey_append, ofKey_other (away mine'), ofKey_other (away rfl), ofKey_append,
        ofKey_other (away mine)]
  · rw [front_resolved settled, buffered, ofKey_append, clear, ofKey_same mine', List.nil_append,
      delivered, ofKey_append_same tapped sameKey]
    have started : Line _ False _ [keyp] _ := line.start alternates pressed
    exact started.tap tapped counted alternates sameEvent pressed once sameRelease once'
  · rw [front_resolved settled, buffered]
    have sorted := (List.pairwise_cons.mp tracks.buffer_sorted).2
    simpa [sameRelease] using sorted
  · intro unresolved
    exact absurd (settled.symm.trans unresolved) Bool.false_ne_true
  · intro _ _
    have pressed' : tapped.pressed = true := by
      rw [KeyRecord.pressed, sameEvent]
      exact pressed
    rw [isTapped, delivered, ofKey_append_same tapped rfl, owed_append, if_pos pressed']

/-- The tapping key is delivered as a hold. -/
theorem Tracks.hold (physical : Physical arrived) {held : KeyRecord} (tracks : Tracks fw arrived s)
    (unresolved : s.unresolved = true) (sameEvent : held.event = s.tappingKey.event)
    (sameCount : held.tap.count = s.tappingKey.tap.count) (idle : s'.isTappingPressed = false)
    (delivered : s'.delivered = s.delivered ++ [held])
    (buffered : s'.waitingBuffer = s.waitingBuffer) : Tracks fw arrived s' := by
  have settled : s'.unresolved = false := by rw [State.unresolved, idle, Bool.false_and]
  have uncounted := unresolved_uncounted unresolved
  have pressed := (isTappingPressed_iff.mp (unresolved_pressed unresolved)).2
  have front := front_unresolved unresolved
  have sameKey : held.key = s.tappingKey.key := congrArg KeyEvent.key sameEvent
  apply Tracks.of_line tracks.line s.tappingKey.key
  · intro other apart
    have apart' : held.key ≠ other := fun there => apart (there.symm.trans sameKey)
    refine ⟨?_, ?_, by rw [buffered], fun several => ?_⟩
    · rw [delivered, ofKey_append_other apart']
    · rw [front_resolved settled, front, ofKey_other (Ne.symm apart)]
    · exact absurd several (multiTap_of_uncounted (by rw [uncounted]; exact Nat.zero_le 1) other)
  · have line := tracks.line s.tappingKey.key
    rw [front, ofKey_same rfl, ofKey_nil] at line
    rw [front_resolved settled, buffered, delivered, ofKey_append_same held sameKey]
    exact line.hold held (physical.alternates _) sameEvent pressed (sameCount.trans uncounted)
  · rw [front_resolved settled, buffered]
    exact tracks.sorted.sublist (List.Sublist.map _ (List.sublist_append_right _ _))
  · intro unresolved
    exact absurd (settled.symm.trans unresolved) Bool.false_ne_true
  · intro tapping
    exact absurd (idle.symm.trans tapping) Bool.false_ne_true

end Steps

section Arrivals

theorem Physical.earlier {later : List KeyEvent} (physical : Physical (arrived ++ later)) :
    Physical arrived where
  real e member := physical.real e (List.mem_append_left _ member)
  alternates key := by
    have alternates := physical.alternates key
    rw [eventsOf, List.filter_append] at alternates
    exact alternates.earlier
  ordered := by
    have ordered := physical.ordered
    rw [List.map_append, List.pairwise_append] at ordered
    exact ordered.1

/-- An event that arrives comes no earlier than those that are pending. -/
theorem Physical.latest {event : KeyEvent} (physical : Physical (arrived ++ [event])) :
    ∀ earlier ∈ arrived, earlier.time ≤ event.time := by
  intro earlier member
  have ordered := physical.ordered
  rw [List.map_append, List.pairwise_append] at ordered
  exact ordered.2.2 _ (List.mem_map_of_mem member) _ (List.mem_cons_self ..)

theorem Tracks.arrive_line (tracks : Tracks fw arrived s) (uncounted : record.tap.count = 0)
    (key : KeyPos) :
    Line (eventsOf key (arrived ++ [record.event])) (s.MultiTap key) (ofKey key s.delivered)
      (ofKey key s.front) (ofKey key (s.waitingBuffer ++ [record])) := by
  by_cases same : record.key = key
  · obtain rfl : record.event.key = key := same
    have sameKey : record.key = record.event.key := rfl
    rw [eventsOf_append_same, ofKey_append_same record sameKey]
    exact (tracks.line record.event.key).arrive uncounted
  · rw [eventsOf_append_other same, ofKey_append_other same]
    exact tracks.line key

theorem Tracks.arrive_sorted (physical : Physical (arrived ++ [record.event]))
    (tracks : Tracks fw arrived s) :
    ((s.front ++ (s.waitingBuffer ++ [record])).map fun record => record.event.time).Pairwise
      (· ≤ ·) := by
  rw [← List.append_assoc, List.map_append, List.pairwise_append]
  refine ⟨tracks.sorted, List.pairwise_singleton _ _, ?_⟩
  intro time pending last isLast
  obtain ⟨earlier, member, rfl⟩ := List.mem_map.mp pending
  rw [List.mem_singleton.mp isLast]
  exact physical.latest _ (tracks.arrived_of_mem member)

/-- A new event waits behind the others. -/
theorem Tracks.arrive (physical : Physical (arrived ++ [record.event]))
    (tracks : Tracks fw arrived s) (uncounted : record.tap.count = 0)
    (late : s.unresolved = true → fw.releaseWaits s record = false) :
    Tracks fw (arrived ++ [record.event]) { s with waitingBuffer := s.waitingBuffer ++ [record] } where
  line := tracks.arrive_line uncounted
  sorted := tracks.arrive_sorted physical
  late unresolved waiting member := by
    rcases List.mem_append.mp member with before | last
    · exact tracks.late unresolved waiting before
    · rw [List.mem_singleton.mp last]
      exact late unresolved
  counted := tracks.counted

end Arrivals

end QmkSonix.Tapping
