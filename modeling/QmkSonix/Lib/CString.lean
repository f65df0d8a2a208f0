import Mathlib.Data.List.Basic
import Mathlib.Tactic.Common

/-! Strings that a zero byte ends, in a memory of bytes. -/

namespace QmkSonix.Lib

/-- At an address the memory holds a text, with the zero byte that ends it behind. -/
def Holds (memory : ℕ → BitVec 8) (address : ℕ) : List (BitVec 8) → Prop
  | [] => memory address = 0
  | byte :: rest => memory address = byte ∧ byte ≠ 0 ∧ Holds memory (address + 1) rest

/-- A text with its zero byte, and other bytes behind. -/
def textMemory (text : List (BitVec 8)) (behind : ℕ → BitVec 8) (address : ℕ) : BitVec 8 :=
  (text ++ [0]).getD address (behind address)

section

variable {memory : ℕ → BitVec 8} {address : ℕ} {byte : BitVec 8} {text rest : List (BitVec 8)}

@[simp] theorem holds_nil : Holds memory address [] ↔ memory address = 0 := Iff.rfl

@[simp] theorem holds_cons :
    Holds memory address (byte :: rest) ↔
      memory address = byte ∧ byte ≠ 0 ∧ Holds memory (address + 1) rest := Iff.rfl

theorem Holds.drop (held : Holds memory address text) {count : ℕ} (inside : count ≤ text.length) :
    Holds memory (address + count) (text.drop count) := by
  induction count generalizing address text with
  | zero => simpa using held
  | succ count ih =>
    cases text with
    | nil => simp at inside
    | cons byte rest =>
      have next := ih held.2.2 (Nat.le_of_succ_le_succ inside)
      rw [List.drop_succ_cons]
      rwa [show address + (count + 1) = address + 1 + count by omega]

/-- The zero byte that ends the text. -/
theorem Holds.terminator (held : Holds memory address text) :
    memory (address + text.length) = 0 := by
  simpa using held.drop (Nat.le_refl _)

theorem Holds.read (held : Holds memory address text) {index : ℕ} (inside : index < text.length) :
    memory (address + index) = text[index] := by
  have later := held.drop (Nat.le_of_lt inside)
  rw [List.drop_eq_getElem_cons inside] at later
  exact later.1

theorem Holds.nonzero (held : Holds memory address text) : (0 : BitVec 8) ∉ text := by
  induction text generalizing address with
  | nil => exact List.not_mem_nil
  | cons byte rest ih =>
    rw [List.mem_cons, not_or]
    exact ⟨Ne.symm held.2.1, ih held.2.2⟩

end

end QmkSonix.Lib
