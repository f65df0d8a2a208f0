import Mathlib.Data.List.GetD
import Mathlib.Data.List.TakeWhile
import Mathlib.Logic.Function.Basic
import QmkSonix.Lib.CString

/-! The functions of `string.h` on arrays of bytes that have a size: they fail where they would
access an element outside of it. -/

namespace QmkSonix.Lib.Strings

section Functions

/-- The bytes of an array up to the first zero -/
def upTo (size : ℕ) (array : ℕ → BitVec 8) : List (BitVec 8) :=
  ((List.range size).map array).takeWhile (· ≠ 0)

/-- A zero byte ends the string within the array. -/
def Terminated (size : ℕ) (array : ℕ → BitVec 8) : Prop := (upTo size array).length < size

instance (size : ℕ) (array : ℕ → BitVec 8) : Decidable (Terminated size array) :=
  inferInstanceAs (Decidable (_ < _))

/-- The string in an array, as `strlen` and every other reader finds it -/
def read (size : ℕ) (array : ℕ → BitVec 8) : Option (List (BitVec 8)) :=
  if Terminated size array then some (upTo size array) else none

/-- `strcpy` of a text into an array -/
def strcpy (size : ℕ) (text : List (BitVec 8)) (array : ℕ → BitVec 8) :
    Option (ℕ → BitVec 8) :=
  if text.length < size then some (textMemory text array) else none

/-- `strncpy` between arrays of at least `count` bytes -/
def strncpy (count : ℕ) (source array : ℕ → BitVec 8) (index : ℕ) : BitVec 8 :=
  if index < count then (upTo count source).getD index 0 else array index

/-- `strncat` of one byte that is not zero -/
def strncat (size : ℕ) (byte : BitVec 8) (array : ℕ → BitVec 8) : Option (ℕ → BitVec 8) := do
  let text ← read size array
  if text.length + 1 < size then
    return Function.update (Function.update array text.length byte) (text.length + 1) 0
  else none

/-- The words that `strtok` finds in a text, one after another -/
def words (delimiter : BitVec 8) (text : List (BitVec 8)) : List (List (BitVec 8)) :=
  (text.splitOn delimiter).filter (· ≠ [])

/-- The array that `strtok` leaves behind: the delimiter behind each word is a zero. -/
def strtok (delimiter : BitVec 8) (array : ℕ → BitVec 8) (length index : ℕ) : BitVec 8 :=
  if 0 < index ∧ index < length ∧ array index = delimiter ∧ array (index - 1) ≠ delimiter then 0
  else array index

end Functions

section Bounds

variable {size : ℕ} {array : ℕ → BitVec 8} {text : List (BitVec 8)}

theorem terminated_of_zero {index : ℕ} (inside : index < size) (zero : array index = 0) :
    Terminated size array := by
  by_contra full
  have whole : upTo size array = (List.range size).map array := by
    refine (List.takeWhile_prefix _).eq_of_length_le ?_
    rw [List.length_map, List.length_range]
    exact Nat.le_of_not_lt full
  have member : array index ∈ upTo size array := by
    rw [whole]
    exact List.mem_map_of_mem (List.mem_range.mpr inside)
  have nonzero := List.mem_takeWhile_imp member
  simp [zero] at nonzero

theorem read_of_terminated (ends : Terminated size array) :
    read size array = some (upTo size array) := if_pos ends

theorem strcpy_eq_some {copy : ℕ → BitVec 8} (copied : strcpy size text array = some copy) :
    text.length < size ∧ copy = textMemory text array := by
  rw [strcpy] at copied
  split at copied
  · rename_i room
    exact ⟨room, (Option.some.inj copied).symm⟩
  · cases copied

theorem terminated_textMemory (room : text.length < size) :
    Terminated size (textMemory text array) :=
  terminated_of_zero room (by simp [textMemory])

/-- A text that was copied leaves what lies behind its zero. -/
theorem textMemory_behind {index : ℕ} (behind : text.length < index) :
    textMemory text array index = array index := by
  rw [textMemory, List.getD_eq_default]
  rw [List.length_append, List.length_singleton]
  exact behind

theorem strncpy_last {source : ℕ → BitVec 8} (ends : Terminated (size + 1) source) :
    strncpy (size + 1) source array size = 0 := by
  rw [strncpy, if_pos (Nat.lt_succ_self size), List.getD_eq_default]
  exact Nat.le_of_lt_succ ends

theorem strncpy_behind {source : ℕ → BitVec 8} {index : ℕ} (behind : size ≤ index) :
    strncpy size source array index = array index := if_neg (Nat.not_lt.mpr behind)

theorem terminated_strncpy {source : ℕ → BitVec 8} (ends : Terminated size source) :
    Terminated size (strncpy size source array) := by
  refine terminated_of_zero ends ?_
  have inside : (upTo size source).length < size := ends
  rw [strncpy, if_pos inside, List.getD_eq_default _ _ le_rfl]

theorem terminated_zero (positive : 0 < size) : Terminated size fun _ => 0 :=
  terminated_of_zero positive rfl

end Bounds

end QmkSonix.Lib.Strings
