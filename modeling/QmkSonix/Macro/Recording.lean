import Mathlib.Data.List.DropRight
import QmkSonix.Macro.Model

/-! What the two macros are for: each slot plays what was last recorded into it,
as far as the other slot left room. The buffer follows these sessions as long as
`process_record` leaves the records it is handed as they were. -/

namespace QmkSonix.Macro

open QmkSonix.Keyboard QmkSonix.Lib

/-- What the buffer keeps of a recording session: the leading releases go, and the
rest as far as it fits. -/
def keptPart (capacity : Nat) (session : List KeyRecord) : List KeyRecord :=
  (session.dropWhile fun record => !record.pressed).take capacity

/-- The macro that a recording session makes: its trailing presses go too. -/
def macroOf (capacity : Nat) (session : List KeyRecord) : List KeyRecord :=
  (keptPart capacity session).rdropWhile (·.pressed)

/-- The saved macros, and the session that is being recorded with its slot. -/
structure Sessions where
  saved : Slot → List KeyRecord := fun _ => []
  recording : Option (Slot × List KeyRecord) := none

section Sessions

variable (cfg : Config)

/-- The room that the other slot leaves to a slot. -/
def Sessions.capacity (m : Sessions) (slot : Slot) : Nat :=
  cfg.dynamicMacroSize - (m.saved slot.other).length

def Sessions.step (m : Sessions) (input : Input) : Sessions :=
  match m.recording with
  | none =>
    if input.record.pressed then m
    else match input.keycode with
      | .dynRecStart1 => { m with recording := some (.one, []) }
      | .dynRecStart2 => { m with recording := some (.two, []) }
      | _ => m
  | some (slot, session) =>
    match input.keycode with
    | .dynRecStart1 | .dynRecStart2 | .dynRecStop =>
      if input.record.pressed ^^ (input.keycode ≠ .dynRecStop) then
        { saved := Function.update m.saved slot (macroOf (m.capacity cfg slot) session)
          recording := none }
      else m
    | .dynMacroPlay1 | .dynMacroPlay2 =>
      if cfg.noNesting then m else { m with recording := some (slot, session ++ [input.record]) }
    | .other _ => { m with recording := some (slot, session ++ [input.record]) }

/-- The slot that an input plays, if it plays one. -/
def Sessions.playing (m : Sessions) (input : Input) : Option Slot :=
  if m.recording.isSome ∨ input.record.pressed then none
  else match input.keycode with
    | .dynMacroPlay1 => some .one
    | .dynMacroPlay2 => some .two
    | _ => none

/-- The records that an input should feed to `process_record`. -/
def Sessions.plays (m : Sessions) (input : Input) : List KeyRecord :=
  (m.playing input).elim [] m.saved

end Sessions

section Condition

variable {World : Type*}

/-- The records that `process_record`, handed some in turn, leaves in their places. -/
def leftRecords (host : Host World) : World → List KeyRecord → List KeyRecord
  | _, [] => []
  | world, record :: rest =>
    (host.processRecord world record).2 ::
      leftRecords host (host.processRecord world record).1 rest

/-- `process_record`, handed the records in turn, leaves each as it was. -/
def keepsRecords (host : Host World) : World → List KeyRecord → Prop
  | _, [] => True
  | world, record :: rest =>
    (host.processRecord world record).2 = record ∧
      keepsRecords host (host.processRecord world record).1 rest

instance keepsRecords.decidable (host : Host World) (world : World) (records : List KeyRecord) :
    Decidable (keepsRecords host world records) :=
  match records with
  | [] => isTrue trivial
  | record :: rest =>
    have := keepsRecords.decidable host (host.processRecord world record).1 rest
    inferInstanceAs (Decidable ((host.processRecord world record).2 = record ∧
      keepsRecords host (host.processRecord world record).1 rest))

theorem leftRecords_length (host : Host World) (world : World) (records : List KeyRecord) :
    (leftRecords host world records).length = records.length := by
  induction records generalizing world with
  | nil => rfl
  | cons record rest ih => simp [leftRecords, ih]

theorem keepsRecords_iff (host : Host World) (world : World) (records : List KeyRecord) :
    keepsRecords host world records ↔ leftRecords host world records = records := by
  induction records generalizing world with
  | nil => simp [keepsRecords, leftRecords]
  | cons record rest ih => simp [keepsRecords, leftRecords, ih]

/-- The `k`-th position of a slot. -/
def position (cfg : Config) (slot : Slot) (k : Nat) : Int :=
  slot.macroBuffer cfg + slot.direction * k

/-- The records between the beginning of a slot and its end. -/
def slotRecords (cfg : Config) (s : State World) (slot : Slot) : List KeyRecord :=
  (List.range ((s.slotEnd slot - slot.macroBuffer cfg) * slot.direction).toNat).map
    fun k => s.buffer (position cfg slot k)

/-- If the input plays a slot, `process_record` leaves its records as they were. -/
def keepsPlayed (cfg : Config) (host : Host World) (s : State World) (input : Input) : Prop :=
  s.macroId = none → input.record.pressed = false → ∀ slot,
    (input.keycode = .dynMacroPlay1 ∧ slot = .one ∨ input.keycode = .dynMacroPlay2 ∧ slot = .two) →
    keepsRecords host (host.layerClear (host.clearKeyboard s.world)) (slotRecords cfg s slot)

end Condition

section Buffer

variable {cfg : Config} {buffer : Int → KeyRecord} {slot : Slot} {records : List KeyRecord}

theorem position_inj (cfg : Config) (slot : Slot) (j k : Nat) :
    position cfg slot j = position cfg slot k ↔ j = k := by
  cases slot <;> simp only [position, Slot.macroBuffer, Slot.direction] <;> omega

/-- The slots meet where their lengths fill the buffer. -/
theorem position_other (cfg : Config) (slot : Slot) (j k : Nat) :
    position cfg slot j = position cfg slot.other k ↔ j + k + 1 = cfg.dynamicMacroSize := by
  cases slot <;> simp only [position, Slot.macroBuffer, Slot.direction, Slot.other] <;> omega

theorem position_next (cfg : Config) (slot : Slot) (k : Nat) :
    position cfg slot k + slot.direction = position cfg slot (k + 1) := by
  cases slot <;> simp only [position, Slot.direction] <;> omega

theorem position_before (cfg : Config) (slot : Slot) (k : Nat) :
    position cfg slot (k + 1) - slot.direction = position cfg slot k := by
  cases slot <;> simp only [position, Slot.direction] <;> omega

theorem position_zero (cfg : Config) (slot : Slot) : position cfg slot 0 = slot.macroBuffer cfg := by
  cases slot <;> simp [position]

theorem position_within (cfg : Config) (slot : Slot) (below : k < cfg.dynamicMacroSize) :
    0 ≤ position cfg slot k ∧ position cfg slot k < cfg.dynamicMacroSize := by
  cases slot <;> simp only [position, Slot.macroBuffer, Slot.direction] <;> omega

/-- The slot has room for another record exactly when its pointer, one step back,
is not at the end of the other slot. -/
theorem position_room (cfg : Config) (slot : Slot) (k size : Nat)
    (fits : k + size ≤ cfg.dynamicMacroSize) :
    position cfg slot k - slot.direction ≠ position cfg slot.other size ↔
      k + size < cfg.dynamicMacroSize := by
  cases slot <;> simp only [position, Slot.macroBuffer, Slot.direction, Slot.other] <;> omega

/-- The buffer shows the records from the beginning of the slot on. -/
def Stores (cfg : Config) (buffer : Int → KeyRecord) (slot : Slot) (records : List KeyRecord) :
    Prop :=
  ∀ k (inside : k < records.length), buffer (position cfg slot k) = records[k]

theorem Stores.push (stores : Stores cfg buffer slot records) (record : KeyRecord) :
    Stores cfg (Function.update buffer (position cfg slot records.length) record) slot
      (records ++ [record]) := by
  intro k inside
  by_cases last : k = records.length
  · subst last
    simp
  · have here : k < records.length := by
      rw [List.length_append, List.length_singleton] at inside
      omega
    rw [Function.update_of_ne (by rwa [ne_eq, position_inj]), List.getElem_append_left here]
    exact stores k here

/-- A record stored in one slot leaves the other slot alone while there is room. -/
theorem Stores.push_other (stores : Stores cfg buffer slot.other records)
    (room : size + records.length < cfg.dynamicMacroSize) (record : KeyRecord) :
    Stores cfg (Function.update buffer (position cfg slot size) record) slot.other records := by
  intro k inside
  have away : position cfg slot.other k ≠ position cfg slot size := by
    intro same
    have meet := (position_other cfg slot size k).mp same.symm
    omega
  rw [Function.update_of_ne away]
  exact stores k inside

theorem Stores.shorten (stores : Stores cfg buffer slot records) (shorter : less <+: records) :
    Stores cfg buffer slot less := by
  intro k inside
  rw [stores k (Nat.lt_of_lt_of_le inside shorter.length_le)]
  exact (shorter.getElem inside).symm

theorem trimPresses_spec (stores : Stores cfg buffer slot records) (fuel : Nat)
    (enough : records.length ≤ fuel) :
    trimPresses (slot.macroBuffer cfg) slot.direction buffer fuel
        (position cfg slot records.length) =
      position cfg slot (records.rdropWhile (·.pressed)).length := by
  induction records using List.reverseRecOn generalizing fuel with
  | nil =>
    have stop : position cfg slot 0 = slot.macroBuffer cfg := position_zero cfg slot
    cases fuel <;> simp [trimPresses, stop]
  | append_singleton rest record ih =>
    rw [List.length_append, List.length_singleton] at enough ⊢
    obtain ⟨fuel, rfl⟩ : ∃ less, fuel = less + 1 := ⟨fuel - 1, by omega⟩
    have inside : position cfg slot (rest.length + 1) ≠ slot.macroBuffer cfg := by
      rw [← position_zero, ne_eq, position_inj]
      omega
    have last : buffer (position cfg slot rest.length) = record := by
      rw [stores rest.length (by simp)]
      simp
    cases press : record.pressed with
    | true =>
      have shorter := ih (stores.shorten (List.prefix_append _ _)) fuel (by omega)
      rw [List.rdropWhile_concat_pos _ _ _ (by simpa using press), ← shorter]
      simp [trimPresses, inside, position_before, last, press]
    | false =>
      rw [List.rdropWhile_concat_neg _ _ _ (by simpa using press)]
      simp [trimPresses, inside, position_before, last, press]

variable {World : Type*}

theorem Stores.set (stores : Stores cfg buffer slot (before ++ record :: after))
    (record' : KeyRecord) :
    Stores cfg (Function.update buffer (position cfg slot before.length) record') slot
      (before ++ record' :: after) := by
  intro k inside
  by_cases hit : k = before.length
  · subst hit
    simp
  · have inside' : k < (before ++ record :: after).length := by simpa using inside
    rw [Function.update_of_ne (by rwa [ne_eq, position_inj]), stores k inside']
    rcases Nat.lt_or_gt_of_ne hit with earlier | later
    · rw [List.getElem_append_left earlier, List.getElem_append_left earlier]
    · rw [List.getElem_append_right (by omega), List.getElem_append_right (by omega),
        List.getElem_cons, List.getElem_cons, dif_neg (by omega), dif_neg (by omega)]

/-- A playback feeds the records of the slot in order, leaves what `process_record`
leaves of them, and does not touch the other slot. -/
theorem playLoop_spec (host : Host World) (before : List KeyRecord)
    (stores : Stores cfg buffer slot (before ++ rest))
    (others : Stores cfg buffer slot.other kept)
    (room : (before ++ rest).length + kept.length ≤ cfg.dynamicMacroSize)
    (world : World) (fuel : Nat) (enough : rest.length ≤ fuel) :
    let played := playLoop host (position cfg slot (before ++ rest).length) slot.direction fuel
      (position cfg slot before.length) buffer world
    Stores cfg played.1 slot (before ++ leftRecords host world rest) ∧
      Stores cfg played.1 slot.other kept ∧ played.2.2.1 = rest ∧
      ∀ p ∈ played.2.2.2, 0 ≤ p ∧ p < cfg.dynamicMacroSize := by
  induction rest generalizing before buffer world fuel with
  | nil =>
    rw [List.append_nil] at stores ⊢
    cases fuel <;> simp [playLoop, leftRecords, stores, others]
  | cons record later ih =>
    obtain ⟨fuel, rfl⟩ : ∃ less, fuel = less + 1 := ⟨fuel - 1, by simp at enough; omega⟩
    have sizes : (before ++ record :: later).length = before.length + later.length + 1 := by
      simp
      omega
    have here : buffer (position cfg slot before.length) = record := by
      rw [stores before.length (by simp)]
      simp
    have more : position cfg slot before.length ≠
        position cfg slot (before ++ record :: later).length := by
      rw [ne_eq, position_inj]
      omega
    have within := position_within cfg slot (k := before.length) (by omega)
    have next : position cfg slot before.length + slot.direction =
        position cfg slot (before ++ [(host.processRecord world record).2]).length := by
      rw [position_next]
      simp
    have size : (before ++ record :: later).length =
        (before ++ [(host.processRecord world record).2] ++ later).length := by
      simp
    have stored : Stores cfg (Function.update buffer (position cfg slot before.length)
        (host.processRecord world record).2) slot
        (before ++ [(host.processRecord world record).2] ++ later) := by
      simpa using stores.set (host.processRecord world record).2
    obtain ⟨left, untouched, fed, written⟩ := ih _ stored
      (others.push_other (by omega) (host.processRecord world record).2) (by omega)
      (host.processRecord world record).1 fuel (by simpa using enough)
    simp only [playLoop, more, ↓reduceIte, here]
    rw [next, size]
    refine ⟨by simpa [leftRecords] using left, untouched, by rw [fed], ?_⟩
    intro p member
    rcases List.mem_cons.mp member with rfl | rest
    · exact within
    · exact written p rest

end Buffer

section Kept

variable {capacity : Nat} {session : List KeyRecord} {record : KeyRecord}

theorem keptPart_length (capacity : Nat) (session : List KeyRecord) :
    (keptPart capacity session).length ≤ capacity := List.length_take_le ..

theorem dropWhile_append_one (session : List KeyRecord) (record : KeyRecord) :
    (session ++ [record]).dropWhile (fun record => !record.pressed) =
      if session.dropWhile (fun record => !record.pressed) = [] ∧ record.pressed = false then []
      else session.dropWhile (fun record => !record.pressed) ++ [record] := by
  rw [List.dropWhile_append]
  cases rest : session.dropWhile fun record => !record.pressed with
  | nil => cases press : record.pressed <;> simp [press]
  | cons first later => simp

/-- A release that would be the first record is left out. -/
theorem keptPart_release (nothing : keptPart capacity session = [])
    (release : record.pressed = false) : keptPart capacity (session ++ [record]) = [] := by
  unfold keptPart at *
  rw [dropWhile_append_one]
  split
  · simp
  · rename_i some
    rcases List.take_eq_nil_iff.mp nothing with none | empty
    · simp [none]
    · exact absurd ⟨empty, release⟩ some

theorem keptPart_push (first : record.pressed = true ∨ keptPart capacity session ≠ [])
    (room : (keptPart capacity session).length < capacity) :
    keptPart capacity (session ++ [record]) = keptPart capacity session ++ [record] := by
  unfold keptPart at *
  rw [List.length_take] at room
  rw [dropWhile_append_one, if_neg, List.take_of_length_le, List.take_of_length_le (by omega)]
  · rw [List.length_append, List.length_singleton]
    omega
  · rintro ⟨empty, release⟩
    rcases first with press | some
    · rw [release] at press
      cases press
    · exact some (by rw [empty, List.take_nil])

theorem keptPart_full (record : KeyRecord) (full : capacity ≤ (keptPart capacity session).length) :
    keptPart capacity (session ++ [record]) = keptPart capacity session := by
  unfold keptPart at *
  rw [List.length_take] at full
  rw [dropWhile_append_one]
  split
  · rename_i empty
    simp [empty.1]
  · rw [List.take_append_of_le_length (by omega)]

end Kept

section Refinement

variable {World : Type*} {cfg : Config} {host : Host World} {s : State World} {m : Sessions}
  {slot : Slot} {session : List KeyRecord}

/-- A slot of the buffer with its end pointer, and the macro they stand for. -/
structure Holds (cfg : Config) (s : State World) (slot : Slot) (records : List KeyRecord) :
    Prop where
  stores : Stores cfg s.buffer slot records
  ends : s.slotEnd slot = position cfg slot records.length

/-- What the variables say while a slot is being recorded. -/
structure Recording (cfg : Config) (s : State World) (m : Sessions) (slot : Slot)
    (session : List KeyRecord) : Prop where
  macroId : s.macroId = some slot
  other : Holds cfg s slot.other (m.saved slot.other)
  stores : Stores cfg s.buffer slot (keptPart (m.capacity cfg slot) session)
  pointer : s.macroPointer =
    position cfg slot (keptPart (m.capacity cfg slot) session).length

/-- The variables follow the sessions. -/
structure Follows (cfg : Config) (s : State World) (m : Sessions) : Prop where
  fits : (m.saved .one).length + (m.saved .two).length ≤ cfg.dynamicMacroSize
  idle : m.recording = none → s.macroId = none ∧ ∀ slot, Holds cfg s slot (m.saved slot)
  recording : ∀ slot session, m.recording = some (slot, session) →
    Recording cfg s m slot session

theorem Follows.size (follows : Follows cfg s m) (slot : Slot) :
    (m.saved slot).length + (m.saved slot.other).length ≤ cfg.dynamicMacroSize := by
  have fits := follows.fits
  cases slot
  · exact fits
  · rw [Slot.other]
    omega

theorem Holds.slotRecords_eq (holds : Holds cfg s slot records) :
    slotRecords cfg s slot = records := by
  have count : ((s.slotEnd slot - slot.macroBuffer cfg) * slot.direction).toNat =
      records.length := by
    rw [holds.ends]
    cases slot <;> simp only [position, Slot.direction] <;> omega
  rw [slotRecords, count]
  apply List.ext_getElem
  · simp
  · intro k inside inside'
    rw [List.getElem_map, List.getElem_range]
    exact holds.stores k inside'

/-- The start of a recording. -/
theorem Follows.start (follows : Follows cfg s m) (idle : m.recording = none) (host : Host World)
    (slot : Slot) :
    Follows cfg { dynamicMacroRecordStart host s (slot.macroBuffer cfg) with macroId := some slot }
      { m with recording := some (slot, []) } := by
  refine ⟨follows.fits, fun none => (by cases none), ?_⟩
  rintro _ _ ⟨⟩
  obtain ⟨_, holds⟩ := follows.idle idle
  have other := holds slot.other
  have nothing (capacity : Nat) : keptPart capacity [] = [] := by simp [keptPart]
  refine ⟨rfl, ⟨other.stores, ?_⟩, ?_, ?_⟩
  · cases slot <;> exact other.ends
  · intro k inside
    rw [nothing] at inside
    cases inside
  · rw [nothing]
    exact (position_zero cfg slot).symm

theorem Follows.room (follows : Follows cfg s m) (slot : Slot) (session : List KeyRecord) :
    (keptPart (m.capacity cfg slot) session).length + (m.saved slot.other).length ≤
      cfg.dynamicMacroSize := by
  have size := follows.size slot
  have short := keptPart_length (m.capacity cfg slot) session
  unfold Sessions.capacity at *
  omega

/-- Storing a record while a slot is being recorded. -/
theorem Follows.store (follows : Follows cfg s m) (active : m.recording = some (slot, session))
    (host : Host World) (record : KeyRecord) :
    Follows cfg (dynamicMacroRecordKey cfg host s slot record).1
        { m with recording := some (slot, session ++ [record]) } ∧
      ∀ p ∈ (dynamicMacroRecordKey cfg host s slot record).2,
        0 ≤ p ∧ p < cfg.dynamicMacroSize := by
  obtain ⟨macroId, other, stores, pointer⟩ := follows.recording slot session active
  have fits := follows.room slot session
  have size := follows.size slot
  have atStart : s.macroPointer = slot.macroBuffer cfg ↔
      keptPart (m.capacity cfg slot) session = [] := by
    rw [pointer, ← position_zero, position_inj, List.length_eq_zero_iff]
  have atEnd := position_room cfg slot _ _ fits
  rw [← pointer, ← other.ends] at atEnd
  by_cases leading : ¬record.pressed = true ∧ s.macroPointer = slot.macroBuffer cfg
  · have nothing := atStart.mp leading.2
    have release : record.pressed = false := by simpa using leading.1
    have still := (keptPart_release nothing release).trans nothing.symm
    rw [dynamicMacroRecordKey, if_pos leading]
    refine ⟨⟨follows.fits, fun none => (by cases none), ?_⟩, by simp⟩
    rintro _ _ ⟨⟩
    refine ⟨macroId, other, ?_, ?_⟩
    · rw [← still] at stores
      exact stores
    · rw [← still] at pointer
      exact pointer
  · have first : record.pressed = true ∨ keptPart (m.capacity cfg slot) session ≠ [] := by
      rw [atStart] at leading
      by_contra neither
      exact leading (not_or.mp neither |>.imp_right not_not.mp)
    rw [dynamicMacroRecordKey, if_neg leading]
    by_cases room : s.macroPointer - slot.direction ≠ s.slotEnd slot.other
    · have space := atEnd.mp room
      have roomLeft : (keptPart (m.capacity cfg slot) session).length < m.capacity cfg slot := by
        unfold Sessions.capacity at *
        omega
      have pushed := keptPart_push first roomLeft
      rw [if_pos room]
      refine ⟨⟨follows.fits, fun none => (by cases none), ?_⟩, ?_⟩
      · rintro _ _ ⟨⟩
        refine ⟨macroId, ⟨?_, ?_⟩, ?_, ?_⟩
        · rw [pointer]
          exact other.stores.push_other space record
        · cases slot <;> exact other.ends
        · have shown := stores.push record
          rw [← pointer, ← pushed] at shown
          exact shown
        · have next := position_next cfg slot (keptPart (m.capacity cfg slot) session).length
          rw [← pointer] at next
          refine next.trans ?_
          have grown := congrArg List.length pushed
          rw [List.length_append, List.length_singleton] at grown
          exact congrArg (position cfg slot) grown.symm
      · intro p member
        rw [List.mem_singleton.mp member, pointer]
        exact position_within cfg slot (by omega)
    · have full : m.capacity cfg slot ≤ (keptPart (m.capacity cfg slot) session).length := by
        have space := atEnd.not.mp room
        unfold Sessions.capacity at *
        omega
      have still := keptPart_full record full
      rw [if_neg room]
      refine ⟨⟨follows.fits, fun none => (by cases none), ?_⟩, by simp⟩
      rintro _ _ ⟨⟩
      refine ⟨macroId, ⟨other.stores, ?_⟩, ?_, ?_⟩
      · cases slot <;> exact other.ends
      · rw [← still] at stores
        exact stores
      · rw [← still] at pointer
        exact pointer

theorem slot_cases (slot which : Slot) : which = slot ∨ which = slot.other := by
  cases slot <;> cases which <;> decide

theorem slot_other_ne (slot : Slot) : slot.other ≠ slot := by
  cases slot <;> decide

/-- The end of a recording. -/
theorem Follows.finish (follows : Follows cfg s m) (active : m.recording = some (slot, session))
    (host : Host World) :
    Follows cfg { dynamicMacroRecordEnd cfg host s slot with macroId := none }
      { saved := Function.update m.saved slot (macroOf (m.capacity cfg slot) session)
        recording := none } := by
  obtain ⟨macroId, other, stores, pointer⟩ := follows.recording slot session active
  have fits := follows.room slot session
  have shorter : macroOf (m.capacity cfg slot) session <+: keptPart (m.capacity cfg slot) session :=
    List.rdropWhile_prefix _ _
  have trimmed := trimPresses_spec stores cfg.dynamicMacroSize (by omega)
  rw [← pointer] at trimmed
  refine ⟨?_, fun _ => ⟨rfl, ?_⟩, fun _ _ some => (by cases some)⟩
  · have bound := shorter.length_le
    cases slot with
    | one =>
      simp only [Function.update_self, Slot.other] at fits ⊢
      rw [Function.update_of_ne (by decide)]
      omega
    | two =>
      simp only [Function.update_self, Slot.other] at fits ⊢
      rw [Function.update_of_ne (by decide)]
      omega
  · intro which
    rcases slot_cases slot which with rfl | rfl
    · simp only [Function.update_self]
      refine ⟨?_, ?_⟩
      · cases which <;> exact stores.shorten shorter
      · cases which <;> exact trimmed
    · simp only [Function.update_of_ne (slot_other_ne slot)]
      refine ⟨?_, ?_⟩
      · cases slot <;> exact other.stores
      · cases slot <;> exact other.ends

/-- A playback feeds what was recorded, and leaves the slot with what
`process_record` leaves of it. -/
theorem Follows.play (follows : Follows cfg s m) (idle : m.recording = none) (host : Host World)
    (slot : Slot) :
    let played := dynamicMacroPlay cfg host s slot
    played.fed = m.saved slot ∧ (∀ p ∈ played.written, 0 ≤ p ∧ p < cfg.dynamicMacroSize) ∧
      Follows cfg played.state
        { m with
          saved := Function.update m.saved slot
            (leftRecords host (host.layerClear (host.clearKeyboard s.world)) (m.saved slot)) } := by
  obtain ⟨macroId, holds⟩ := follows.idle idle
  have size := follows.size slot
  obtain ⟨left, others, fed, written⟩ := playLoop_spec host [] (holds slot).stores (holds slot.other).stores size
    (host.layerClear (host.clearKeyboard s.world)) cfg.dynamicMacroSize
    (Nat.le_trans (Nat.le_add_right _ _) size)
  rw [List.nil_append, ← (holds slot).ends, List.length_nil, position_zero] at left others fed written
  have length := leftRecords_length host (host.layerClear (host.clearKeyboard s.world))
    (m.saved slot)
  have ends (which : Slot) :
      (dynamicMacroPlay cfg host s slot).state.slotEnd which = s.slotEnd which := by
    cases which <;> rfl
  refine ⟨fed, written, ?_, fun _ => ⟨macroId, ?_⟩, ?_⟩
  · have fits := follows.fits
    cases slot <;> simpa [Function.update, length] using fits
  · intro which
    rcases slot_cases slot which with rfl | rfl
    · simp only [Function.update_self]
      refine ⟨left, ?_⟩
      rw [length, ends]
      exact (holds which).ends
    · simp only [Function.update_of_ne (slot_other_ne slot)]
      refine ⟨others, ?_⟩
      rw [ends]
      exact (holds slot.other).ends
  · intro which session active
    rw [idle] at active
    cases active

/-- What a call feeds and where it writes, as far as the sessions say. -/
theorem Follows.outputs (follows : Follows cfg s m) (host : Host World) (input : Input) :
    (processDynamicMacro cfg host s input.keycode input.record).fed = m.plays input ∧
      ∀ p ∈ (processDynamicMacro cfg host s input.keycode input.record).written,
        0 ≤ p ∧ p < cfg.dynamicMacroSize := by
  obtain ⟨keycode, record⟩ := input
  cases recording : m.recording with
  | none =>
    have macroId := (follows.idle recording).1
    obtain ⟨fed, written, _⟩ := follows.play recording host .one
    obtain ⟨fed', written', _⟩ := follows.play recording host .two
    cases press : record.pressed with
    | true =>
      simp [processDynamicMacro, macroId, press, recording, Sessions.plays, Sessions.playing]
    | false =>
      cases keycode with
      | dynMacroPlay1 =>
        simpa [processDynamicMacro, macroId, press, recording, Sessions.plays,
          Sessions.playing] using And.intro fed written
      | dynMacroPlay2 =>
        simpa [processDynamicMacro, macroId, press, recording, Sessions.plays,
          Sessions.playing] using And.intro fed' written'
      | _ => simp [processDynamicMacro, macroId, press, recording, Sessions.plays, Sessions.playing]
  | some active =>
    obtain ⟨slot, session⟩ := active
    have macroId := (follows.recording slot session recording).macroId
    obtain ⟨_, within⟩ := follows.store recording host record
    cases keycode <;> cases press : record.pressed <;> cases nesting : cfg.noNesting <;>
      simp [processDynamicMacro, macroId, press, nesting, recording, Sessions.plays,
        Sessions.playing] <;>
      exact within

/-- One call that leaves the records it plays as they were follows the sessions. -/
theorem Follows.exec (follows : Follows cfg s m) (host : Host World) (input : Input)
    (kept : keepsPlayed cfg host s input) :
    Follows cfg (input.exec cfg host s) (m.step cfg input) := by
  obtain ⟨keycode, record⟩ := input
  cases recording : m.recording with
  | none =>
    obtain ⟨macroId, holds⟩ := follows.idle recording
    have played (slot : Slot) (calm : keepsRecords host
        (host.layerClear (host.clearKeyboard s.world)) (slotRecords cfg s slot)) :
        Follows cfg (dynamicMacroPlay cfg host s slot).state m := by
      obtain ⟨_, _, next⟩ := follows.play recording host slot
      rw [(holds slot).slotRecords_eq, keepsRecords_iff] at calm
      rwa [calm, Function.update_eq_self] at next
    cases press : record.pressed with
    | true =>
      simpa [Input.exec, processDynamicMacro, macroId, press, Sessions.step, recording] using follows
    | false =>
      have calm := kept macroId press
      cases keycode with
      | dynRecStart1 =>
        simpa [Input.exec, processDynamicMacro, macroId, press, Sessions.step, recording] using
          follows.start recording host .one
      | dynRecStart2 =>
        simpa [Input.exec, processDynamicMacro, macroId, press, Sessions.step, recording] using
          follows.start recording host .two
      | dynMacroPlay1 =>
        simpa [Input.exec, processDynamicMacro, macroId, press, Sessions.step, recording] using
          played .one (calm .one (.inl ⟨rfl, rfl⟩))
      | dynMacroPlay2 =>
        simpa [Input.exec, processDynamicMacro, macroId, press, Sessions.step, recording] using
          played .two (calm .two (.inr ⟨rfl, rfl⟩))
      | _ =>
        simpa [Input.exec, processDynamicMacro, macroId, press, Sessions.step, recording] using
          follows
  | some active =>
    obtain ⟨slot, session⟩ := active
    have macroId := (follows.recording slot session recording).macroId
    obtain ⟨stored, _⟩ := follows.store recording host record
    have finished := follows.finish recording host
    cases keycode <;> cases press : record.pressed <;> cases nesting : cfg.noNesting <;>
      simp [Input.exec, processDynamicMacro, macroId, press, nesting, Sessions.step, recording,
        follows, stored, finished]

theorem follows_initial (cfg : Config) (buffer : Int → KeyRecord) (world : World) :
    Follows cfg (initial cfg buffer world) {} := by
  refine ⟨Nat.zero_le _, fun _ => ⟨rfl, fun slot => ⟨?_, ?_⟩⟩, fun _ _ some => (by cases some)⟩
  · intro k inside
    cases inside
  · cases slot with
    | one => exact (position_zero cfg .one).symm
    | two => exact (position_zero cfg .two).symm

theorem run_follows {inputs : List Input} (follows : Follows cfg s m)
    (kept : Along (Input.exec cfg host) (keepsPlayed cfg host) s inputs) :
    Follows cfg (run (Input.exec cfg host) s inputs) (run (Sessions.step cfg) m inputs) :=
  run_simulates (fun _ _ input related allowed => related.exec host input allowed) follows kept

/-- Playing a slot twice shows what the first playback left. -/
theorem Follows.replay (follows : Follows cfg s m) (idle : m.recording = none) (host : Host World)
    (slot : Slot) :
    (dynamicMacroPlay cfg host (dynamicMacroPlay cfg host s slot).state slot).fed =
      leftRecords host (host.layerClear (host.clearKeyboard s.world)) (m.saved slot) := by
  obtain ⟨_, _, next⟩ := follows.play idle host slot
  obtain ⟨fed, _⟩ := next.play idle host slot
  exact fed.trans (Function.update_self ..)

/-- An input that plays a slot, seen from the state and from the sessions. -/
theorem Follows.playing (follows : Follows cfg s m) (macroId : s.macroId = none) (host : Host World)
    {input : Input} (release : input.record.pressed = false)
    (which : input.keycode = .dynMacroPlay1 ∧ slot = .one ∨
      input.keycode = .dynMacroPlay2 ∧ slot = .two) :
    m.recording = none ∧ m.plays input = m.saved slot ∧ m.step cfg input = m ∧
      processDynamicMacro cfg host s input.keycode input.record =
        dynamicMacroPlay cfg host s slot := by
  have idle : m.recording = none := by
    cases recording : m.recording with
    | none => rfl
    | some active =>
      have busy := (follows.recording active.1 active.2 recording).macroId
      rw [macroId] at busy
      cases busy
  rcases which with ⟨keycode, rfl⟩ | ⟨keycode, rfl⟩ <;>
    simp [idle, Sessions.plays, Sessions.playing, Sessions.step, processDynamicMacro, macroId,
      release, keycode]

end Refinement

section Runs

variable {World : Type*}

/-- At every point of a run each call writes inside the buffer only and feeds what
was last recorded into the slot it plays, exactly when every playback of the run
leaves the records it plays as they were. -/
theorem macros_play_recordings_iff (cfg : Config) (host : Host World) (buffer : Int → KeyRecord)
    (world : World) (inputs : List Input) :
    (∀ earlier, earlier <+: inputs → ∀ input : Input,
        let s := run (Input.exec cfg host) (initial cfg buffer world) earlier
        let call := processDynamicMacro cfg host s input.keycode input.record
        call.fed = (run (Sessions.step cfg) {} earlier).plays input ∧
          ∀ p ∈ call.written, 0 ≤ p ∧ p < cfg.dynamicMacroSize) ↔
      Along (Input.exec cfg host) (keepsPlayed cfg host) (initial cfg buffer world) inputs := by
  constructor
  · intro feeds
    induction inputs using List.reverseRecOn with
    | nil => trivial
    | append_singleton earlier input ih =>
      have kept := ih (fun front within => feeds front (within.trans (List.prefix_append _ _)))
      rw [along_append]
      refine ⟨kept, ?_, trivial⟩
      have follows := run_follows (follows_initial cfg buffer world) kept
      intro macroId release slot which
      obtain ⟨idle, plays, still, played⟩ := follows.playing macroId host release which
      obtain ⟨_, _, next⟩ := follows.play idle host slot
      obtain ⟨_, _, _, again⟩ := next.playing macroId host release which
      -- the same input once more, right after itself
      have fed := (feeds (earlier ++ [input]) (List.prefix_refl _) input).1
      rw [run_append, run_append, run_cons, run_cons, run_nil, run_nil, still, plays, Input.exec,
        played, again, follows.replay idle host slot] at fed
      rw [((follows.idle idle).2 slot).slotRecords_eq, keepsRecords_iff]
      exact fed
  · rintro kept earlier ⟨later, rfl⟩ input
    rw [along_append] at kept
    exact (run_follows (follows_initial cfg buffer world) kept.1).outputs host input

/-- What `process_action` does to the record of a mod-tap key whose press was
counted as a tap but interrupted: it cancels the tap in the record itself. -/
def cancelTap (record : KeyRecord) : KeyRecord :=
  if record.pressed ∧ record.tap.count > 0 ∧ record.tap.interrupted then
    { record with tap := { record.tap with count := 0 } }
  else record

/-- A host without other effects, whose only key is a mod-tap. -/
def modTapHost : Host Unit where
  processRecord := fun _ record => ((), cancelTap record)
  clearKeyboard := id
  layerClear := id
  layerState := fun _ => 0
  setLayerState := fun _ _ => ()
  recordStartUser := id
  playUser := fun _ _ => ()
  recordKeyUser := fun _ _ _ => ()
  recordEndUser := fun _ _ => ()

/-- An interrupted mod-tap is recorded. The first playback feeds it as recorded,
the second one with its tap cancelled. -/
theorem second_playback_differs :
    let cfg : Config := { dynamicMacroSize := 4 }
    let key (pressed : Bool) (tap : Tap) : KeyRecord := { event := { key := ⟨0, 0⟩, pressed, time := 1 }, tap }
    let press := key true { interrupted := true, count := 1 }
    let release := key false { interrupted := true, count := 1 }
    let start : State Unit := initial cfg (fun _ => key false {}) ()
    let recorded := run (Input.exec cfg modTapHost) start [⟨.dynRecStart1, key false {}⟩,
      ⟨.other 4, press⟩, ⟨.other 4, release⟩, ⟨.dynRecStop, key true {}⟩]
    let play : Input := ⟨.dynMacroPlay1, key false {}⟩
    (processDynamicMacro cfg modTapHost recorded play.keycode play.record).fed =
        [press, release] ∧
      (processDynamicMacro cfg modTapHost (play.exec cfg modTapHost recorded) play.keycode
        play.record).fed = [key true { interrupted := true, count := 0 }, release] := by
  decide

end Runs

end QmkSonix.Macro
