import QmkSonix.Keyboard.Record
import Mathlib

/-! The line of one key: the records delivered for it, the press of its own that
waits to be settled, and its records in the waiting buffer. -/

namespace QmkSonix.Tapping

open QmkSonix.Keyboard

/-- A release carries the tap count of the press before it. -/
def SameCounts (records : List KeyRecord) : Prop :=
  records.IsChain fun press release =>
    press.pressed = true → release.pressed = false → release.tap.count = press.tap.count

instance (records : List KeyRecord) : Decidable (SameCounts records) :=
  inferInstanceAs (Decidable (List.IsChain _ _))

/-- The tap count of a press whose release is still to come. -/
def owed (delivered : List KeyRecord) : Option Nat :=
  delivered.getLast?.bind fun last => if last.pressed then some last.tap.count else none

/-- The tap count of the next record, 0 for one that has not arrived. -/
def nextCount (buffered : List KeyRecord) : Nat := (buffered.head?.map (·.tap.count)).getD 0

/-- Records wait with the count 0, except that the release of a press that has been
delivered carries its count. While the key itself counts several taps the release
is given the count only when its turn comes. -/
def Ledger (multi : Prop) (buffered : List KeyRecord) : Option Nat → Prop
  | none => ∀ record ∈ buffered, record.tap.count = 0
  | some count => (∀ record ∈ buffered.tail, record.tap.count = 0) ∧
      (multi ∨ nextCount buffered = count)

/-- The records of a key in their turn, and their counts. -/
structure Line (arrived : List KeyEvent) (multi : Prop)
    (delivered front buffered : List KeyRecord) : Prop where
  inTurn : (delivered ++ (front ++ buffered)).map KeyRecord.event = arrived
  same : SameCounts delivered
  ledger : Ledger multi buffered (owed delivered)

section Lines

variable {arrived : List KeyEvent} {multi multi' : Prop} {delivered front buffered : List KeyRecord}
  {record record' waiting waiting' : KeyRecord}

theorem owed_append (delivered : List KeyRecord) (record : KeyRecord) :
    owed (delivered ++ [record]) = if record.pressed then some record.tap.count else none := by
  simp [owed]

theorem SameCounts.append (same : SameCounts delivered)
    (pays : record.pressed = false → ∀ count, owed delivered = some count → record.tap.count = count) :
    SameCounts (delivered ++ [record]) := by
  refine List.isChain_append.mpr ⟨same, List.isChain_singleton record, ?_⟩
  intro press isLast release isOnly pressed released
  obtain rfl : release = record := by simpa [eq_comm] using isOnly
  apply pays released
  rw [owed, Option.mem_def.mp isLast]
  simp [pressed]

/-- Behind a delivered press comes a release. -/
theorem owed_none (alternates : Alternates arrived)
    (inTurn : (delivered ++ record :: buffered).map KeyRecord.event = arrived)
    (pressed : record.pressed = true) : owed delivered = none := by
  cases isLast : delivered.getLast? with
  | none => simp [owed, isLast]
  | some last =>
    have chain := alternates.1
    rw [← inTurn, List.map_append, List.isChain_append] at chain
    have apart : record.pressed = !last.pressed :=
      chain.2.2 last.event (by simp [isLast]) record.event (by simp)
    have released : last.pressed = false := by simpa [pressed] using apart
    simp [owed, isLast, released]

/-- Behind the waiting press of a key its release comes first. -/
theorem head_released (alternates : Alternates arrived)
    (inTurn : (delivered ++ record :: waiting :: buffered).map KeyRecord.event = arrived)
    (pressed : record.pressed = true) : waiting.pressed = false := by
  have chain := alternates.1
  rw [← inTurn, List.map_append, List.isChain_append] at chain
  have apart : waiting.pressed = !record.pressed := (List.isChain_cons_cons.mp chain.2.1).1
  simpa [pressed] using apart

theorem Ledger.zero (ledger : Ledger multi buffered none) : ∀ record ∈ buffered, record.tap.count = 0 :=
  ledger

theorem nextCount_zero (zero : ∀ record ∈ buffered, record.tap.count = 0) : nextCount buffered = 0 := by
  cases buffered with
  | nil => rfl
  | cons record rest => exact zero record (List.mem_cons_self ..)

/-- A new event of the key waits behind the others. -/
theorem Line.arrive (line : Line arrived multi delivered front buffered)
    (uncounted : record.tap.count = 0) :
    Line (arrived ++ [record.event]) multi delivered front (buffered ++ [record]) where
  inTurn := by rw [← line.inTurn]; simp
  same := line.same
  ledger := by
    have ledger := line.ledger
    cases owes : owed delivered with
    | none =>
      rw [owes] at ledger
      simpa [Ledger, or_imp, forall_and, uncounted] using ledger
    | some count =>
      rw [owes] at ledger
      cases buffered with
      | nil => simpa [Ledger, nextCount, uncounted] using ledger
      | cons head rest => simpa [Ledger, nextCount, or_imp, forall_and, uncounted] using ledger

/-- The release that is next is delivered with the count of its press. -/
theorem Line.release (line : Line arrived multi delivered [] (record :: buffered))
    (record' : KeyRecord)
    (sameEvent : record'.event = record.event) (released : record.pressed = false)
    (pays : ∀ count, owed delivered = some count → record'.tap.count = count) :
    Line arrived multi' (delivered ++ [record']) [] buffered where
  inTurn := by rw [← line.inTurn]; simp [sameEvent]
  same := line.same.append fun _ => pays
  ledger := by
    have released' : record'.pressed = false := by rw [KeyRecord.pressed, sameEvent]; exact released
    rw [owed_append, released', if_neg Bool.false_ne_true]
    have ledger := line.ledger
    cases owes : owed delivered with
    | none =>
      rw [owes] at ledger
      exact fun other member => ledger other (List.mem_cons_of_mem _ member)
    | some count =>
      rw [owes] at ledger
      exact ledger.1

/-- The count that the next release owes is its own, unless the key counts several taps. -/
theorem Line.pays (line : Line arrived multi delivered [] (record :: buffered)) (single : ¬multi) :
    ∀ count, owed delivered = some count → record.tap.count = count := by
  intro count owes
  have ledger := line.ledger
  rw [owes] at ledger
  exact ledger.2.resolve_left single

/-- The press that is next is delivered, with the count 0 or as one of several taps. -/
theorem Line.press (line : Line arrived multi delivered [] (record :: buffered))
    (record' : KeyRecord) (alternates : Alternates arrived) (sameEvent : record'.event = record.event)
    (pressed : record.pressed = true) (counts : record'.tap.count = 0 ∨ multi') :
    Line arrived multi' (delivered ++ [record']) [] buffered where
  inTurn := by rw [← line.inTurn]; simp [sameEvent]
  same := line.same.append fun released => by
    rw [KeyRecord.pressed, sameEvent] at released
    exact absurd pressed (by simp [KeyRecord.pressed, released])
  ledger := by
    have pressed' : record'.pressed = true := by rw [KeyRecord.pressed, sameEvent]; exact pressed
    have ledger := line.ledger
    rw [owed_none alternates line.inTurn pressed] at ledger
    rw [owed_append, pressed', if_pos rfl]
    have zero : ∀ other ∈ buffered, other.tap.count = 0 :=
      fun other member => ledger other (List.mem_cons_of_mem _ member)
    refine ⟨fun other member => zero other (List.mem_of_mem_tail member), ?_⟩
    rcases counts with none | several
    · exact .inr ((nextCount_zero zero).trans none.symm)
    · exact .inl several

/-- A press waits with the count 0. -/
theorem Line.fresh (line : Line arrived multi delivered [] (record :: buffered))
    (alternates : Alternates arrived) (pressed : record.pressed = true) : record.tap.count = 0 := by
  have ledger := line.ledger
  rw [owed_none alternates line.inTurn pressed] at ledger
  exact ledger record (List.mem_cons_self ..)

/-- The press that is next becomes the one that waits to be settled. -/
theorem Line.start (line : Line arrived multi delivered [] (record :: buffered))
    (alternates : Alternates arrived) (pressed : record.pressed = true) :
    Line arrived multi' delivered [record] buffered where
  inTurn := line.inTurn
  same := line.same
  ledger := by
    have ledger := line.ledger
    rw [owed_none alternates line.inTurn pressed] at ledger ⊢
    exact fun other member => ledger other (List.mem_cons_of_mem _ member)

/-- The waiting press is delivered as a hold. -/
theorem Line.hold (line : Line arrived multi delivered [record] buffered)
    (record' : KeyRecord) (alternates : Alternates arrived) (sameEvent : record'.event = record.event)
    (pressed : record.pressed = true) (uncounted : record'.tap.count = 0) :
    Line arrived multi' (delivered ++ [record']) [] buffered where
  inTurn := by rw [← line.inTurn]; simp [sameEvent]
  same := line.same.append fun released => by
    rw [KeyRecord.pressed, sameEvent] at released
    exact absurd pressed (by simp [KeyRecord.pressed, released])
  ledger := by
    have pressed' : record'.pressed = true := by rw [KeyRecord.pressed, sameEvent]; exact pressed
    have ledger := line.ledger
    rw [owed_none alternates line.inTurn pressed] at ledger
    rw [owed_append, pressed', if_pos rfl]
    exact ⟨fun other member => ledger other (List.mem_of_mem_tail member),
      .inr ((nextCount_zero ledger).trans uncounted.symm)⟩

/-- The waiting press is delivered as a tap, and its release is counted. -/
theorem Line.tap (line : Line arrived multi delivered [record] (waiting :: buffered))
    (record' waiting' : KeyRecord) (alternates : Alternates arrived) (sameEvent : record'.event = record.event)
    (pressed : record.pressed = true) (counted : record'.tap.count = 1)
    (sameRelease : waiting'.event = waiting.event) (counted' : waiting'.tap.count = 1) :
    Line arrived multi' (delivered ++ [record']) [] (waiting' :: buffered) where
  inTurn := by rw [← line.inTurn]; simp [sameEvent, sameRelease]
  same := line.same.append fun released => by
    rw [KeyRecord.pressed, sameEvent] at released
    exact absurd pressed (by simp [KeyRecord.pressed, released])
  ledger := by
    have pressed' : record'.pressed = true := by rw [KeyRecord.pressed, sameEvent]; exact pressed
    have ledger := line.ledger
    rw [owed_none alternates line.inTurn pressed] at ledger
    rw [owed_append, pressed', if_pos rfl]
    exact ⟨fun other member => ledger other (List.mem_cons_of_mem _ member),
      .inr (counted'.trans counted.symm)⟩

end Lines

end QmkSonix.Tapping
