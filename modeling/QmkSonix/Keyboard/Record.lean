import Mathlib

/-! Key events and the records that carry them through the firmware. -/

namespace QmkSonix.Keyboard

/-- `keypos_t` -/
structure KeyPos where
  row : BitVec 8
  col : BitVec 8
  deriving DecidableEq, Repr

/-- `keyevent_t` -/
structure KeyEvent where
  key : KeyPos
  pressed : Bool
  time : BitVec 16
  deriving DecidableEq, Repr

/-- `tap_t`. The code never counts beyond 15, which its four bits hold. -/
structure Tap where
  interrupted : Bool := false
  count : Nat := 0
  deriving DecidableEq, Repr

/-- `keyrecord_t` -/
structure KeyRecord where
  event : KeyEvent
  tap : Tap := {}
  deriving DecidableEq, Repr

namespace KeyRecord

def pressed (record : KeyRecord) : Bool := record.event.pressed

def key (record : KeyRecord) : KeyPos := record.event.key

end KeyRecord

/-- `TICK`, read at a time. -/
def tickEvent (time : BitVec 16) : KeyEvent :=
  { key := { row := 255, col := 255 }, pressed := false, time := time ||| 1 }

/-- The events of one key. -/
def eventsOf (key : KeyPos) (events : List KeyEvent) : List KeyEvent :=
  events.filter fun event => event.key = key

/-- Press, release, press, and so on. -/
def Alternates (events : List KeyEvent) : Prop :=
  events.IsChain (fun earlier later => later.pressed = !earlier.pressed) ∧
    ∀ first ∈ events.head?, first.pressed = true

instance (events : List KeyEvent) : Decidable (Alternates events) :=
  inferInstanceAs (Decidable (_ ∧ _))

section Alternation

variable {key : KeyPos} {event : KeyEvent} {first second : List KeyEvent}

theorem Alternates.earlier (alternates : Alternates (first ++ second)) : Alternates first := by
  obtain ⟨chain, starts⟩ := alternates
  refine ⟨(List.isChain_append.mp chain).1, ?_⟩
  intro event isFirst
  apply starts event
  rw [List.head?_append, Option.mem_def.mp isFirst]
  rfl

theorem eventsOf_append_same (event : KeyEvent) (earlier : List KeyEvent) :
    eventsOf event.key (earlier ++ [event]) = eventsOf event.key earlier ++ [event] := by
  simp [eventsOf]

theorem eventsOf_append_other (other : event.key ≠ key) (earlier : List KeyEvent) :
    eventsOf key (earlier ++ [event]) = eventsOf key earlier := by
  simp [eventsOf, other]

end Alternation

end QmkSonix.Keyboard
