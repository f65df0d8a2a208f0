import QmkSonix.Tapping.Offer

/-! The loop over the waiting buffer: the records it offers to `process_tapping`,
and the branches that make it stop without a tapping key to wait for. -/

namespace QmkSonix.Tapping

open QmkSonix.Keyboard QmkSonix.Lib

variable {World : Type*}

/-- Records wait only for a tapping key that is pressed and not yet a tap. -/
def State.Guarded (s : State World) : Prop := s.waitingBuffer ≠ [] → s.unresolved = true

namespace Firmware

variable (fw : Firmware World)

/-- `process_tapping` takes a branch that refuses the record although it settles
or forgets the tapping key: a timeout, a tap that is not cancelled, a nested hold,
or a hold on another key's press. -/
def stalls (s : State World) (keyp : KeyRecord) : Bool :=
  if s.isTappingPressed then
    if s.tappingKey.tap.count = 0 then
      if fw.withinTappingTerm s keyp.event then
        if s.isTappingKey keyp.key && !keyp.pressed then !(fw.tapOnce s).unresolved
        else if fw.nestedHold s keyp then true
        else keyp.pressed && fw.getHoldOnOtherKeyPress s.world s.interrupt.tappingKey keyp
      else true
    else false
  else s.isTappingReleased && !fw.withinTappingTerm s keyp.event

/-- The states and records at which the loop calls `process_tapping`. -/
def drainOffers : Nat → State World → List (State World × KeyRecord)
  | 0, _ => []
  | steps + 1, s =>
    match s.waitingBuffer with
    | [] => []
    | waiting :: _ =>
      let verdict := fw.processTapping s waiting
      (s, waiting) ::
        if verdict.done then
          drainOffers steps { verdict.state with waitingBuffer := verdict.state.waitingBuffer.tail }
        else []

/-- The calls of `process_tapping` that an input makes for buffered records. -/
def bufferedOffers (s : State World) (input : Input World) : List (State World × KeyRecord) :=
  match input.event? with
  | none => []
  | some event =>
    let admitted := fw.admitRecord s { event := event }
    fw.drainOffers admitted.waitingBuffer.length admitted

/-- A buffered record meets one of the branches that stall the loop. -/
def stallsDrain (s : State World) (input : Input World) : Bool :=
  (fw.bufferedOffers s input).any fun offered => fw.stalls offered.1 offered.2

/-- The record is refused while the waiting buffer is full. -/
def overflows (s : State World) (input : Input World) : Bool :=
  match input.event? with
  | none => false
  | some event =>
    let verdict := fw.processTapping s { event := event }
    !verdict.done && !isNoEvent verdict.keyp.event &&
      verdict.state.waitingBuffer.length + 1 = waitingBufferSize

end Firmware

variable {fw : Firmware World} {s : State World} {keyp : KeyRecord} {verdict : Verdict World}

section Fields

@[simp] theorem interrupt_waitingBuffer : s.interrupt.waitingBuffer = s.waitingBuffer := rfl

@[simp] theorem interrupt_calls : s.interrupt.calls = s.calls := rfl

@[simp] theorem interrupt_unresolved : s.interrupt.unresolved = s.unresolved := rfl

@[simp] theorem process_waitingBuffer (record : KeyRecord) :
    (fw.process s record).1.waitingBuffer = s.waitingBuffer := rfl

@[simp] theorem process_tappingKey (record : KeyRecord) :
    (fw.process s record).1.tappingKey = s.tappingKey := rfl

@[simp] theorem tapOnce_waitingBuffer : (fw.tapOnce s).waitingBuffer = s.waitingBuffer := rfl

@[simp] theorem endTapping_waitingBuffer : (fw.endTapping s).waitingBuffer = s.waitingBuffer := rfl

@[simp] theorem endTapping_unresolved : (fw.endTapping s).unresolved = false := rfl

theorem startTapping_events (fw : Firmware World) (s : State World) (keyp : KeyRecord) :
    (fw.startTapping s keyp).waitingBuffer.map KeyRecord.event =
      s.waitingBuffer.map KeyRecord.event := by
  rcases startTapping_cases fw s keyp with ⟨counted, found, -, -, starts⟩ | ⟨starts, -⟩
  · rw [starts]
    exact countFirst_events found
  · rw [starts]

/-- `process_tapping` may count a waiting release, but takes nothing away. -/
theorem Offered.events (offered : Offered fw s keyp verdict) :
    verdict.state.waitingBuffer.map KeyRecord.event = s.waitingBuffer.map KeyRecord.event := by
  cases offered with
  | tapped => rfl
  | ended _ held flag => rcases flag with rfl | rfl <;> rfl
  | kept _ held flag => rcases flag with rfl | rfl <;> rfl
  | early => rfl
  | ownRelease => rfl
  | restarted => exact startTapping_events fw _ keyp
  | started => exact startTapping_events fw _ keyp
  | startedAgain => rfl
  | sequential => rfl
  | passed _ held flag => rcases flag with rfl | rfl <;> rfl
  | forgotten => rfl

/-- A refused record waits with the event it came with. -/
theorem Offered.refused (offered : Offered fw s keyp verdict) (refused : verdict.done = false) :
    verdict.keyp.event = keyp.event := by
  cases offered with
  | tapped => rfl
  | ended => rfl
  | kept => rfl
  | forgotten => rfl
  | _ => cases refused

theorem processTapping_waiting (fw : Firmware World) (s : State World) (keyp : KeyRecord) :
    (fw.processTapping s keyp).state.waitingBuffer.length = s.waitingBuffer.length := by
  simpa using congrArg List.length (processTapping_offered fw s keyp).events

end Fields

section Guard

theorem processTapped_done (fw : Firmware World) (s : State World) (keyp : KeyRecord) :
    (fw.processTapped s keyp).done = true := by
  unfold Firmware.processTapped
  split
  next => rfl
  next => split <;> rfl

theorem processReleased_done (fw : Firmware World) (s : State World) (keyp : KeyRecord) :
    (fw.processReleased s keyp).done = true := by
  unfold Firmware.processReleased
  split
  next =>
    split
    next => split <;> rfl
    next => split <;> rfl
  next => rfl

theorem processNotTapping_done (fw : Firmware World) (s : State World) (keyp : KeyRecord) :
    (fw.processNotTapping s keyp).done = true := by
  unfold Firmware.processNotTapping
  split <;> rfl

theorem unresolved_stalls_eq (unresolved : s.unresolved = true) :
    (if s.isTappingKey keyp.key && !keyp.pressed then !(fw.tapOnce s).unresolved
      else if fw.nestedHold s keyp then true
      else keyp.pressed && fw.getHoldOnOtherKeyPress s.world s.interrupt.tappingKey keyp) =
      (!(fw.processUnresolved s keyp).done && !(fw.processUnresolved s keyp).state.unresolved) := by
  unfold Firmware.processUnresolved
  split
  next => simp
  next =>
    split
    next => simp
    next =>
      split
      next early =>
        have released : keyp.pressed = false := by
          simp only [isReleased, Bool.and_eq_true, Bool.not_eq_true'] at early
          exact early.1.2
        split <;> simp [released, unresolved]
      next =>
        split
        next pressed => split <;> simp_all
        next pressed => simp [Bool.eq_false_iff.mpr pressed, unresolved]

/-- The stalling branches are those that refuse the record and leave no tapping
key to wait for. -/
theorem stalls_eq (fw : Firmware World) (s : State World) (keyp : KeyRecord) :
    fw.stalls s keyp =
      (!(fw.processTapping s keyp).done && !(fw.processTapping s keyp).state.unresolved) := by
  unfold Firmware.stalls Firmware.processTapping
  split
  next tapping =>
    split
    next uncounted =>
      have unresolved : s.unresolved = true := by simp [State.unresolved, tapping, uncounted]
      split
      next => exact unresolved_stalls_eq unresolved
      next => simp
    next => rw [processTapped_done]; rfl
  next =>
    split
    next released =>
      split
      next within => simp [processReleased_done, within]
      next late => simp [released, late, State.unresolved, State.isTappingPressed]
    next idle => simp [processNotTapping_done, idle]

theorem drain_guarded_iff {steps : Nat} (enough : s.waitingBuffer.length ≤ steps) :
    (fw.drain steps s).Guarded ↔
      ∀ offered ∈ fw.drainOffers steps s, fw.stalls offered.1 offered.2 = false := by
  induction steps generalizing s with
  | zero =>
    have empty : s.waitingBuffer = [] := List.length_eq_zero_iff.mp (Nat.le_zero.mp enough)
    simp [Firmware.drain, Firmware.drainOffers, State.Guarded, empty]
  | succ steps ih =>
    cases buffer : s.waitingBuffer with
    | nil => simp [Firmware.drain, Firmware.drainOffers, State.Guarded, buffer]
    | cons waiting rest =>
      have shorter : (fw.processTapping s waiting).state.waitingBuffer.tail.length ≤ steps := by
        rw [List.length_tail, processTapping_waiting]
        omega
      simp only [Firmware.drain, Firmware.drainOffers, buffer]
      split
      next done =>
        have notStalled : fw.stalls s waiting = false := by simp [stalls_eq, done]
        rw [ih shorter]
        simp [notStalled]
      next refused =>
        have isRefused := Bool.eq_false_iff.mpr refused
        simp [State.Guarded, stalls_eq, isRefused, State.unresolved, State.isTappingPressed]

/-- Behind an input that does not stall the loop, records wait only for a tapping
key that is pressed and not yet a tap. -/
theorem exec_guarded_iff (guarded : s.Guarded) (input : Input World) :
    (fw.exec s input).Guarded ↔ fw.stallsDrain s input = false := by
  cases input with
  | meanwhile change => exact iff_of_true guarded rfl
  | key event =>
    refine (drain_guarded_iff (le_refl _)).trans ?_
    simp [Firmware.stallsDrain, Firmware.bufferedOffers, Input.event?]
  | tick time =>
    refine (drain_guarded_iff (le_refl _)).trans ?_
    simp [Firmware.stallsDrain, Firmware.bufferedOffers, Input.event?]

end Guard

end QmkSonix.Tapping
