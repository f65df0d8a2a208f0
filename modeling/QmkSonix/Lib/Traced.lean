import Mathlib

/-! Programs over a state that leave a trace of what they access, the accesses
that all of a program's trace must respect, and what a program leaves alone. -/

namespace QmkSonix.Lib

universe u v w

/-- A program: its value, the state behind it, and its trace. -/
def Traced (State : Type v) (Access : Type w) (Value : Type u) : Type (max u v w) :=
  State → Value × State × List Access

namespace Traced

variable {State : Type v} {Access : Type w} {Value Result : Type u}

def value (program : Traced State Access Value) (state : State) : Value := (program state).1

def after (program : Traced State Access Value) (state : State) : State := (program state).2.1

def trace (program : Traced State Access Value) (state : State) : List Access :=
  (program state).2.2

instance : Monad (Traced State Access) where
  pure value := fun state => (value, state, [])
  bind program next := fun state =>
    (value (next (program.value state)) (program.after state),
      after (next (program.value state)) (program.after state),
      program.trace state ++ trace (next (program.value state)) (program.after state))

/-- A program for each element, in order. -/
def forEach {Element : Type*} (elements : List Element)
    (body : Element → Traced State Access PUnit.{u + 1}) : Traced State Access PUnit.{u + 1} :=
  match elements with
  | [] => pure ⟨⟩
  | element :: rest => do
    body element
    forEach rest body

variable {program : Traced State Access Value} {next : Value → Traced State Access Result}
  {state : State}

@[simp] theorem value_pure (value : Value) (state : State) :
    Traced.value (pure value : Traced State Access Value) state = value := rfl

@[simp] theorem after_pure (value : Value) (state : State) :
    Traced.after (pure value : Traced State Access Value) state = state := rfl

@[simp] theorem value_bind :
    Traced.value (program >>= next) state =
      Traced.value (next (program.value state)) (program.after state) := rfl

@[simp] theorem after_bind :
    Traced.after (program >>= next) state =
      Traced.after (next (program.value state)) (program.after state) := rfl

/-- Every access of the program from a state is allowed. -/
def Respects (allowed : Access → Prop) (program : Traced State Access Value) (state : State) :
    Prop :=
  ∀ access ∈ program.trace state, allowed access

variable {allowed : Access → Prop}

@[simp] theorem respects_pure (value : Value) (state : State) :
    Respects allowed (pure value : Traced State Access Value) state := by
  intro access member
  exact absurd member List.not_mem_nil

@[simp] theorem respects_bind :
    Respects allowed (program >>= next) state ↔
      Respects allowed program state ∧
        Respects allowed (next (program.value state)) (program.after state) := by
  constructor
  · intro respects
    exact ⟨fun access member => respects access (List.mem_append_left _ member),
      fun access member => respects access (List.mem_append_right _ member)⟩
  · rintro ⟨first, second⟩ access member
    rcases List.mem_append.mp member with former | latter
    · exact first access former
    · exact second access latter

/-- A loop whose bodies access the same whatever the state. -/
theorem respects_forEach {Element : Type*} {elements : List Element}
    {body : Element → Traced State Access PUnit.{u + 1}} (fine : Element → Prop)
    (each : ∀ element ∈ elements, ∀ state, Respects allowed (body element) state ↔ fine element)
    (state : State) :
    Respects allowed (forEach elements body) state ↔ ∀ element ∈ elements, fine element := by
  induction elements generalizing state with
  | nil => simp [forEach]
  | cons element rest ih =>
    rw [forEach, respects_bind, each element List.mem_cons_self,
      ih fun later member => each later (List.mem_cons_of_mem _ member), List.forall_mem_cons]

/-- The trace of the program breaks both of two measures, or it keeps both and then
the value and the state behind it meet a condition. -/
def Agrees (first second : Access → Prop) (post : Value → State → Prop)
    (program : Traced State Access Value) (state : State) : Prop :=
  (Respects first program state ∧ Respects second program state ∧
    post (program.value state) (program.after state)) ∨
    (¬Respects first program state ∧ ¬Respects second program state)

section Agreement

variable {first second : Access → Prop} {post between : Value → State → Prop}

theorem Agrees.iff (agrees : Agrees first second post program state) :
    Respects first program state ↔ Respects second program state := by
  rcases agrees with ⟨keepsFirst, keepsSecond, _⟩ | ⟨breaksFirst, breaksSecond⟩
  · exact iff_of_true keepsFirst keepsSecond
  · exact iff_of_false breaksFirst breaksSecond

theorem Agrees.holds (agrees : Agrees first second post program state)
    (keeps : Respects first program state) : post (program.value state) (program.after state) := by
  rcases agrees with ⟨-, -, holds⟩ | ⟨breaks, -⟩
  · exact holds
  · exact absurd keeps breaks

theorem agrees_pure {value : Value} (holds : post value state) :
    Agrees first second post (pure value) state :=
  .inl ⟨respects_pure value state, respects_pure value state, holds⟩

theorem Agrees.mono (agrees : Agrees first second between program state)
    (weaken : ∀ value after, between value after → post value after) :
    Agrees first second post program state :=
  agrees.imp_left fun ⟨keepsFirst, keepsSecond, holds⟩ =>
    ⟨keepsFirst, keepsSecond, weaken _ _ holds⟩

theorem Agrees.bind {result : Result → State → Prop}
    (agrees : Agrees first second between program state)
    (rest : ∀ value after, between value after → Agrees first second result (next value) after) :
    Agrees first second result (program >>= next) state := by
  unfold Agrees
  rw [respects_bind, respects_bind]
  rcases agrees with ⟨keepsFirst, keepsSecond, holds⟩ | ⟨breaksFirst, breaksSecond⟩
  · rcases rest _ _ holds with ⟨thenFirst, thenSecond, ends⟩ | ⟨thenFirst, thenSecond⟩
    · exact .inl ⟨⟨keepsFirst, thenFirst⟩, ⟨keepsSecond, thenSecond⟩, ends⟩
    · exact .inr ⟨fun keeps => thenFirst keeps.2, fun keeps => thenSecond keeps.2⟩
  · exact .inr ⟨fun keeps => breaksFirst keeps.1, fun keeps => breaksSecond keeps.1⟩

end Agreement

/-- The program leaves a view of the state alone. -/
def Keeps {View : Type*} (view : State → View) (program : Traced State Access Value) : Prop :=
  ∀ state, view (program.after state) = view state

section Keeping

variable {View : Type*} {view : State → View}

theorem keeps_pure (value : Value) : Keeps view (pure value : Traced State Access Value) :=
  fun _ => rfl

theorem Keeps.bind (first : Keeps view program) (second : ∀ value, Keeps view (next value)) :
    Keeps view (program >>= next) := by
  intro state
  rw [after_bind, second, first]

theorem keeps_forEach {Element : Type*} {elements : List Element}
    {body : Element → Traced State Access PUnit.{u + 1}}
    (each : ∀ element ∈ elements, Keeps view (body element)) :
    Keeps view (forEach elements body) := by
  induction elements with
  | nil => exact keeps_pure _
  | cons element rest ih =>
    exact (each element List.mem_cons_self).bind fun _ =>
      ih fun later member => each later (List.mem_cons_of_mem _ member)

end Keeping

/-- A cell of the state changes only with an access that names it. -/
def Notes {Address Cell : Type*} (cell : State → Address → Cell) (mark : Address → Access)
    (program : Traced State Access Value) : Prop :=
  ∀ state address, mark address ∉ program.trace state →
    cell (program.after state) address = cell state address

section Noting

variable {Address Cell : Type*} {cell : State → Address → Cell} {mark : Address → Access}

theorem Keeps.notes (keeps : Keeps cell program) : Notes cell mark program := by
  intro state address _
  rw [keeps]

theorem Notes.bind (first : Notes cell mark program)
    (second : ∀ value, Notes cell mark (next value)) : Notes cell mark (program >>= next) := by
  intro state address unnamed
  have apart := List.mem_append.not.mp unnamed
  rw [after_bind, second _ _ _ (not_or.mp apart).2, first _ _ (not_or.mp apart).1]

theorem notes_forEach {Element : Type*} {elements : List Element}
    {body : Element → Traced State Access PUnit.{u + 1}}
    (each : ∀ element, Notes cell mark (body element)) :
    Notes cell mark (forEach elements body) := by
  induction elements with
  | nil => exact (keeps_pure _).notes
  | cons element rest ih => exact (each element).bind fun _ => ih

theorem Notes.unchanged (notes : Notes cell mark program) (respects : Respects allowed program state)
    {address : Address} (outside : ¬allowed (mark address)) :
    cell (program.after state) address = cell state address :=
  notes state address fun named => outside (respects _ named)

end Noting

end Traced

end QmkSonix.Lib
