import Mathlib.Data.List.Basic
import Mathlib.Tactic.Common

/-! Loops whose rounds leave events behind, which may run forever, and when such a
loop ends with every event allowed. -/

namespace QmkSonix.Lib

universe u v w

/-- How a round of a loop ends. -/
inductive Exit (State : Type u) (Result : Type v) where
  | again (state : State)
  | leave (result : Result)

/-- One round of a loop: what it does on the way, and how it ends. -/
structure Round (State : Type u) (Event : Type w) (Result : Type v) where
  events : List Event
  exit : Exit State Result

variable {State : Type u} {Event : Type w} {Result : Type v}

/-- The loop from a state, for a number of rounds. -/
def loop (round : State → Round State Event Result) : ℕ → State → Option (List Event × Result)
  | 0, _ => none
  | rounds + 1, state =>
    match (round state).exit with
    | .leave result => some ((round state).events, result)
    | .again next =>
      (loop round rounds next).map fun done => ((round state).events ++ done.1, done.2)

/-- The loop from a state ends, does only what is allowed, and its result meets a condition. -/
def Safe (allowed : Event → Prop) (post : Result → Prop)
    (round : State → Round State Event Result) (state : State) : Prop :=
  ∃ rounds events result, loop round rounds state = some (events, result) ∧
    (∀ event ∈ events, allowed event) ∧ post result

variable {allowed : Event → Prop} {post : Result → Prop}
  {round : State → Round State Event Result} {state next : State} {result : Result}

/-- A loop that ends within some rounds ends alike within any that suffice. -/
theorem loop_unique {fewer more : ℕ} {done other : List Event × Result}
    (ends : loop round fewer state = some done) (endsToo : loop round more state = some other) :
    done = other := by
  induction fewer generalizing more state done other with
  | zero => cases ends
  | succ fewer ih =>
    cases more with
    | zero => cases endsToo
    | succ more =>
      cases exits : (round state).exit with
      | leave result =>
        simp only [loop, exits] at ends endsToo
        exact Option.some.inj (ends.symm.trans endsToo)
      | again next =>
        simp only [loop, exits] at ends endsToo
        obtain ⟨early, endsEarly, rfl⟩ := Option.map_eq_some_iff.mp ends
        obtain ⟨late, endsLate, rfl⟩ := Option.map_eq_some_iff.mp endsToo
        rw [ih endsEarly endsLate]

theorem safe_leave (left : (round state).exit = .leave result) :
    Safe allowed post round state ↔ (∀ event ∈ (round state).events, allowed event) ∧ post result := by
  constructor
  · rintro ⟨rounds, events, value, ends, allowedAll, holds⟩
    cases rounds with
    | zero => simp [loop] at ends
    | succ rounds =>
      obtain ⟨rfl, rfl⟩ : (round state).events = events ∧ result = value := by
        simpa [loop, left] using ends
      exact ⟨allowedAll, holds⟩
  · rintro ⟨allowedAll, holds⟩
    exact ⟨1, (round state).events, result, by simp [loop, left], allowedAll, holds⟩

theorem safe_again (again : (round state).exit = .again next) :
    Safe allowed post round state ↔
      (∀ event ∈ (round state).events, allowed event) ∧ Safe allowed post round next := by
  constructor
  · rintro ⟨rounds, events, value, ends, allowedAll, holds⟩
    cases rounds with
    | zero => simp [loop] at ends
    | succ rounds =>
      obtain ⟨later, rest, rfl⟩ : ∃ later, loop round rounds next = some (later, value) ∧
          (round state).events ++ later = events := by
        simpa [loop, again, Option.map_eq_some_iff, and_comm] using ends
      rw [List.forall_mem_append] at allowedAll
      exact ⟨allowedAll.1, rounds, later, value, rest, allowedAll.2, holds⟩
  · rintro ⟨allowedHere, rounds, later, value, rest, allowedLater, holds⟩
    refine ⟨rounds + 1, (round state).events ++ later, value, ?_, ?_, holds⟩
    · simp [loop, again, rest]
    · exact List.forall_mem_append.mpr ⟨allowedHere, allowedLater⟩

/-- Where only the events are of interest. -/
theorem safe_iff_events :
    Safe allowed (fun _ => True) round state ↔
      ∃ rounds events, (loop round rounds state).map Prod.fst = some events ∧
        ∀ event ∈ events, allowed event := by
  constructor
  · rintro ⟨rounds, events, result, ends, allowedAll, -⟩
    exact ⟨rounds, events, by rw [ends]; rfl, allowedAll⟩
  · rintro ⟨rounds, events, ends, allowedAll⟩
    obtain ⟨⟨_, result⟩, looped, rfl⟩ := Option.map_eq_some_iff.mp ends
    exact ⟨rounds, _, result, looped, allowedAll, trivial⟩

theorem Safe.mono {weaker : Event → Prop} {weakerPost : Result → Prop}
    (safe : Safe allowed post round state) (events : ∀ event, allowed event → weaker event)
    (results : ∀ result, post result → weakerPost result) :
    Safe weaker weakerPost round state := by
  obtain ⟨rounds, done, result, ends, allowedAll, holds⟩ := safe
  exact ⟨rounds, done, result, ends, fun event member => events event (allowedAll event member),
    results result holds⟩

/-- A round that does something forbidden makes the loop unsafe, wherever it goes on. -/
theorem not_safe_of_mem {event : Event} (member : event ∈ (round state).events)
    (forbidden : ¬allowed event) : ¬Safe allowed post round state := by
  intro safe
  cases exits : (round state).exit with
  | leave result => exact forbidden (((safe_leave exits).mp safe).1 event member)
  | again next => exact forbidden (((safe_again exits).mp safe).1 event member)

end QmkSonix.Lib
