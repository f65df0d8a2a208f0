import Mathlib.Logic.Function.Basic

/-! Runs of a deterministic machine: a state, a step function and the list of
events it is fed. A condition may be required of every step of a run; the rules
carry invariants and simulations along such runs. -/

namespace QmkSonix.Lib

section Runs

variable {State Event Model : Type*}

/-- Feed every event to the machine, in order. -/
def run (step : State → Event → State) (start : State) (events : List Event) : State :=
  events.foldl step start

/-- Every step of the run meets a condition on the state before it and its event. -/
def Along (step : State → Event → State) (allowed : State → Event → Prop) :
    State → List Event → Prop
  | _, [] => True
  | state, event :: rest => allowed state event ∧ Along step allowed (step state event) rest

instance Along.decidable (step : State → Event → State) (allowed : State → Event → Prop)
    [∀ state event, Decidable (allowed state event)] (state : State) (events : List Event) :
    Decidable (Along step allowed state events) :=
  match events with
  | [] => isTrue trivial
  | event :: rest =>
    have := Along.decidable step allowed (step state event) rest
    inferInstanceAs (Decidable (allowed state event ∧ Along step allowed (step state event) rest))

variable {step : State → Event → State} {allowed : State → Event → Prop}

@[simp] theorem run_nil (start : State) : run step start [] = start := rfl

@[simp] theorem run_cons (start : State) (event : Event) (rest : List Event) :
    run step start (event :: rest) = run step (step start event) rest := rfl

theorem run_append (start : State) (first second : List Event) :
    run step start (first ++ second) = run step (run step start first) second := by
  simp [run]

theorem along_append (start : State) (first second : List Event) :
    Along step allowed start (first ++ second) ↔
      Along step allowed start first ∧ Along step allowed (run step start first) second := by
  induction first generalizing start with
  | nil => simp [Along]
  | cons event rest ih => simp [Along, ih, and_assoc]

/-- A condition holds along a run when it holds behind each of its prefixes. -/
theorem along_iff_earlier (start : State) (events : List Event) :
    Along step allowed start events ↔
      ∀ earlier event, earlier ++ [event] <+: events → allowed (run step start earlier) event := by
  constructor
  · rintro along earlier event ⟨later, rfl⟩
    rw [List.append_assoc, along_append] at along
    exact along.2.1
  · induction events generalizing start with
    | nil => exact fun _ => trivial
    | cons event rest ih =>
      intro holds
      refine ⟨holds [] event ⟨rest, rfl⟩, ih _ ?_⟩
      rintro earlier later ⟨tail, rfl⟩
      exact holds (event :: earlier) later ⟨tail, rfl⟩

theorem Along.mono {weaker : State → Event → Prop}
    (weaken : ∀ state event, allowed state event → weaker state event) {start : State}
    {events : List Event} (along : Along step allowed start events) :
    Along step weaker start events := by
  induction events generalizing start with
  | nil => trivial
  | cons event rest ih => exact ⟨weaken _ _ along.1, ih along.2⟩

theorem along_of_forall (always : ∀ state event, allowed state event) (start : State)
    (events : List Event) : Along step allowed start events := by
  induction events generalizing start with
  | nil => trivial
  | cons event rest ih => exact ⟨always _ _, ih _⟩

theorem along_of_mem {fine : Event → Prop} {events : List Event}
    (each : ∀ event ∈ events, fine event) (start : State) :
    Along step (fun _ event => fine event) start events := by
  induction events generalizing start with
  | nil => trivial
  | cons event rest ih =>
    exact ⟨each event List.mem_cons_self, ih (fun later member =>
      each later (List.mem_cons_of_mem event member)) _⟩

/-- A run cut after `cut` events ends in its start or behind an allowed step. -/
theorem run_take_cases {start : State} {events : List Event}
    (along : Along step allowed start events) (cut : Nat) :
    run step start (events.take cut) = start ∨
      ∃ before event, (events.take cut).getLast? = some event ∧ allowed before event ∧
        run step start (events.take cut) = step before event := by
  rcases List.eq_nil_or_concat (events.take cut) with nothing | ⟨earlier, event, split⟩
  · left
    rw [nothing, run_nil]
  · right
    have kept : Along step allowed start (events.take cut) := by
      rw [← List.take_append_drop cut events, along_append] at along
      exact along.1
    rw [List.concat_eq_append] at split
    rw [split, along_append] at kept
    refine ⟨run step start earlier, event, by simp [split], kept.2.1, ?_⟩
    rw [split, run_append, run_cons, run_nil]

/-- A relation that every allowed step keeps relates the ends of the two runs. -/
theorem run_simulates {modelStep : Model → Event → Model} {Related : State → Model → Prop}
    (keeps : ∀ state model event, Related state model → allowed state event →
      Related (step state event) (modelStep model event))
    {start : State} {model : Model} (initial : Related start model) {events : List Event}
    (along : Along step allowed start events) :
    Related (run step start events) (run modelStep model events) := by
  induction events generalizing start model with
  | nil => exact initial
  | cons event rest ih => exact ih (keeps _ _ _ initial along.1) along.2

/-- An invariant that every allowed step keeps holds at the end of the run. -/
theorem run_invariant {Invariant : State → Prop}
    (keeps : ∀ state event, Invariant state → allowed state event → Invariant (step state event))
    {start : State} (initial : Invariant start) {events : List Event}
    (along : Along step allowed start events) : Invariant (run step start events) := by
  induction events generalizing start with
  | nil => exact initial
  | cons event rest ih => exact ih (keeps _ _ initial along.1) along.2

/-- An invariant that every step keeps holds at the end of every run. -/
theorem run_keeps (Invariant : State → Prop)
    (keeps : ∀ state event, Invariant state → Invariant (step state event))
    {start : State} (initial : Invariant start) (events : List Event) :
    Invariant (run step start events) :=
  run_invariant (fun state event holds _ => keeps state event holds) initial
    (along_of_forall (fun _ _ => trivial) start events)

/-- What allowed steps meet where an invariant holds, which they keep, is met along every run
of allowed steps. -/
theorem along_imp {Invariant : State → Prop} {required : State → Event → Prop}
    (keeps : ∀ state event, Invariant state → allowed state event → Invariant (step state event))
    (gives : ∀ state event, Invariant state → allowed state event → required state event)
    {start : State} (initial : Invariant start) {events : List Event}
    (along : Along step allowed start events) : Along step required start events := by
  induction events generalizing start with
  | nil => trivial
  | cons event rest ih =>
    exact ⟨gives start event initial along.1, ih (keeps start event initial along.1) along.2⟩

/-- Two conditions that agree where an invariant holds, which either of them keeps, hold
along the same runs. -/
theorem along_congr {Invariant : State → Prop} {required : State → Event → Prop}
    (keeps : ∀ state event, Invariant state → allowed state event → Invariant (step state event))
    (agree : ∀ state event, Invariant state → (allowed state event ↔ required state event))
    {start : State} (initial : Invariant start) (events : List Event) :
    Along step allowed start events ↔ Along step required start events := by
  induction events generalizing start with
  | nil => exact Iff.rfl
  | cons event rest ih =>
    have first := agree start event initial
    constructor
    · rintro ⟨allows, along⟩
      exact ⟨first.mp allows, (ih (keeps _ _ initial allows)).mp along⟩
    · rintro ⟨requires, along⟩
      have allows := first.mpr requires
      exact ⟨allows, (ih (keeps _ _ initial allows)).mpr along⟩

/-- Where the allowed steps are exactly those that keep an invariant, it holds at
every cut of a run exactly when every step of the run is allowed. -/
theorem invariant_iff_along {Invariant : State → Prop}
    (keeps_iff : ∀ state event, Invariant state →
      (Invariant (step state event) ↔ allowed state event))
    {start : State} (initial : Invariant start) (events : List Event) :
    (∀ cut, Invariant (run step start (events.take cut))) ↔ Along step allowed start events := by
  induction events generalizing start with
  | nil => simpa [Along] using initial
  | cons event rest ih =>
    constructor
    · intro holds
      have first : Invariant (step start event) := by simpa using holds 1
      exact ⟨(keeps_iff start event initial).mp first,
        (ih first).mp fun cut => by simpa using holds (cut + 1)⟩
    · rintro ⟨allows, along⟩ cut
      have first := (keeps_iff start event initial).mpr allows
      cases cut with
      | zero => simpa using initial
      | succ cut => simpa using (ih first).mpr along cut

/-- Where an invariant implies a property, the allowed steps keep the invariant and no
other step keeps the property, the property holds at every cut of a run exactly when every
step of the run is allowed. -/
theorem property_iff_along {Invariant Property : State → Prop}
    (implies : ∀ state, Invariant state → Property state)
    (keeps : ∀ state event, Invariant state → allowed state event → Invariant (step state event))
    (exact : ∀ state event, Invariant state → Property (step state event) → allowed state event)
    {start : State} (initial : Invariant start) (events : List Event) :
    (∀ cut, Property (run step start (events.take cut))) ↔ Along step allowed start events := by
  induction events generalizing start with
  | nil => simpa [Along] using implies start initial
  | cons event rest ih =>
    constructor
    · intro holds
      have allows := exact start event initial (by simpa using holds 1)
      exact ⟨allows, (ih (keeps start event initial allows)).mp fun cut => by
        simpa using holds (cut + 1)⟩
    · rintro ⟨allows, along⟩ cut
      cases cut with
      | zero => simpa using implies start initial
      | succ cut => simpa using (ih (keeps start event initial allows)).mpr along cut

end Runs

end QmkSonix.Lib
