import Mathlib.Logic.Function.Basic
import Mathlib.Tactic.Common
import Mathlib.Data.Nat.Notation

/-! Sets of numbers as the bits of an array of words. -/

namespace QmkSonix.Lib.Bitmap

variable {width : ℕ}

/-- A number is in the set when its bit is set. -/
def Member (words : ℕ → BitVec width) (number : ℕ) : Prop :=
  (words (number / width)).getLsbD (number % width) = true

instance (words : ℕ → BitVec width) (number : ℕ) : Decidable (Member words number) :=
  inferInstanceAs (Decidable (_ = _))

/-- A bit is set when the word agrees with it under its mask. -/
theorem and_twoPow_iff (word : BitVec width) {place : ℕ} (inside : place < width) :
    word &&& BitVec.twoPow width place = BitVec.twoPow width place ↔
      word.getLsbD place = true := by
  constructor
  · intro same
    have set := congrArg (BitVec.getLsbD · place) same
    simpa [BitVec.getLsbD_twoPow, inside] using set
  · intro set
    apply BitVec.eq_of_getLsbD_eq
    intro i below
    rw [BitVec.getLsbD_and, BitVec.getLsbD_twoPow]
    by_cases same : place = i
    · subst same
      simp [set]
    · simp [same]

variable {words : ℕ → BitVec width} {number other : ℕ}

theorem number_eq (sameWord : other / width = number / width)
    (sameBit : other % width = number % width) : other = number := by
  rw [← Nat.div_add_mod other width, ← Nat.div_add_mod number width, sameWord, sameBit]

/-- A word that sets one bit adds that number. -/
theorem member_insert (positive : 0 < width) :
    Member (Function.update words (number / width)
        (words (number / width) ||| BitVec.twoPow width (number % width))) other ↔
      other = number ∨ Member words other := by
  unfold Member
  by_cases sameWord : other / width = number / width
  · rw [sameWord, Function.update_self, BitVec.getLsbD_or, BitVec.getLsbD_twoPow,
      decide_eq_true (Nat.mod_lt number positive), Bool.true_and, Bool.or_eq_true,
      decide_eq_true_iff, or_comm]
    refine or_congr_left ⟨fun same => number_eq sameWord same.symm, ?_⟩
    rintro rfl
    rfl
  · have apart : other ≠ number := fun same => sameWord (congrArg (· / width) same)
    rw [Function.update_of_ne sameWord, or_iff_right apart]

/-- A word that clears one bit takes that number away. -/
theorem member_erase (positive : 0 < width) :
    Member (Function.update words (number / width)
        (words (number / width) &&& ~~~BitVec.twoPow width (number % width))) other ↔
      other ≠ number ∧ Member words other := by
  unfold Member
  by_cases sameWord : other / width = number / width
  · rw [sameWord, Function.update_self, BitVec.getLsbD_and, BitVec.getLsbD_not,
      BitVec.getLsbD_twoPow, decide_eq_true (Nat.mod_lt number positive),
      decide_eq_true (Nat.mod_lt other positive), Bool.and_eq_true, and_comm]
    refine and_congr_left fun _ => ?_
    simp only [Bool.true_and, Bool.not_eq_true', decide_eq_false_iff_not]
    refine not_congr ⟨fun same => number_eq sameWord same.symm, ?_⟩
    rintro rfl
    rfl
  · have apart : other ≠ number := fun same => sameWord (congrArg (· / width) same)
    rw [Function.update_of_ne sameWord, and_iff_right apart]

end QmkSonix.Lib.Bitmap
