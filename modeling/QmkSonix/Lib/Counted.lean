import Mathlib.Data.List.Basic

/-! Counted loops whose rounds may fail. -/

namespace QmkSonix.Lib

section Loops

variable {Value : Type*} {body : ℕ → Option Value} {count : ℕ} {values : List Value}

/-- The results of the rounds `0`, …, `count - 1`, unless one of them fails. -/
def counted (count : ℕ) (body : ℕ → Option Value) : Option (List Value) :=
  (List.range count).mapM body

theorem counted_succ (count : ℕ) (body : ℕ → Option Value) :
    counted (count + 1) body =
      (counted count body).bind fun values => (body count).map fun value => values ++ [value] := by
  simp only [counted, List.range_succ, List.mapM_append, List.mapM_cons, List.mapM_nil]
  cases (List.range count).mapM body <;> cases body count <;> rfl

/-- A loop ends when each of its rounds does. -/
theorem counted_isSome : (counted count body).isSome ↔ ∀ i < count, (body i).isSome := by
  induction count with
  | zero => simp [counted]
  | succ count ih =>
    rw [counted_succ, Nat.forall_lt_succ_right, ← ih]
    cases counted count body <;> cases body count <;> simp

theorem counted_length (ends : counted count body = some values) : values.length = count := by
  induction count generalizing values with
  | zero =>
    cases ends
    rfl
  | succ count ih =>
    rw [counted_succ] at ends
    obtain ⟨earlier, first, last⟩ := Option.bind_eq_some_iff.mp ends
    obtain ⟨value, -, rfl⟩ := Option.map_eq_some_iff.mp last
    rw [List.length_append, ih first, List.length_singleton]

/-- The result of a round stands at its place. -/
theorem counted_getElem? (ends : counted count body = some values) {i : ℕ} (inside : i < count) :
    values[i]? = body i := by
  induction count generalizing values with
  | zero => omega
  | succ count ih =>
    rw [counted_succ] at ends
    obtain ⟨earlier, first, last⟩ := Option.bind_eq_some_iff.mp ends
    obtain ⟨value, final, rfl⟩ := Option.map_eq_some_iff.mp last
    have length := counted_length first
    by_cases here : i = count
    · rw [here, ← length, List.getElem?_concat_length, length, final]
    · rw [List.getElem?_append_left (by omega), ih first (by omega)]

theorem mem_counted (ends : counted count body = some values) {value : Value} (member : value ∈ values) :
    ∃ i < count, body i = some value := by
  obtain ⟨i, inside, rfl⟩ := List.mem_iff_getElem.mp member
  have length := counted_length ends
  refine ⟨i, by omega, ?_⟩
  rw [← counted_getElem? ends (by omega), List.getElem?_eq_getElem inside]

end Loops

end QmkSonix.Lib
