import Mathlib.Data.Nat.Notation
import Mathlib.Tactic.Common

/-! Bits of a word that are held, and bits that are lent on top of them until they are
taken back. -/

namespace QmkSonix.Lib.Loans

variable {width : ℕ} {word held lent bits : BitVec width}

/-- The word has the bits that are held and those that are lent, which are no others. -/
structure Covers (word held lent : BitVec width) : Prop where
  whole : word = held ||| lent
  apart : lent &&& held = 0

theorem Covers.zero : Covers (0 : BitVec width) 0 0 := ⟨by simp, by simp⟩

theorem Covers.lend (covers : Covers word held lent) (bits : BitVec width) :
    Covers (word ||| bits) held (lent ||| (bits &&& ~~~held)) := by
  obtain ⟨rfl, apart⟩ := covers
  rw [BitVec.eq_of_getElem_eq_iff] at apart
  constructor <;>
    simp only [BitVec.eq_of_getElem_eq_iff, BitVec.getElem_or, BitVec.getElem_and,
      BitVec.getElem_not] at apart ⊢ <;>
    grind

theorem Covers.hold (covers : Covers word held lent) (bits : BitVec width) :
    Covers (word ||| bits) (held ||| bits) (lent &&& ~~~bits) := by
  obtain ⟨rfl, apart⟩ := covers
  rw [BitVec.eq_of_getElem_eq_iff] at apart
  constructor <;>
    simp only [BitVec.eq_of_getElem_eq_iff, BitVec.getElem_or, BitVec.getElem_and,
      BitVec.getElem_not] at apart ⊢ <;>
    grind

theorem Covers.letGo (covers : Covers word held lent) (bits : BitVec width) :
    Covers (word &&& ~~~bits) (held &&& ~~~bits) (lent &&& ~~~bits) := by
  obtain ⟨rfl, apart⟩ := covers
  rw [BitVec.eq_of_getElem_eq_iff] at apart
  constructor <;>
    simp only [BitVec.eq_of_getElem_eq_iff, BitVec.getElem_or, BitVec.getElem_and,
      BitVec.getElem_not] at apart ⊢ <;>
    grind

/-- Taking bits back leaves what is held exactly if none of them is held and nothing else
is lent. -/
theorem Covers.takeBack_iff (covers : Covers word held lent) (bits : BitVec width) :
    word &&& ~~~bits = held ↔ bits &&& held = 0 ∧ lent &&& ~~~bits = 0 := by
  obtain ⟨rfl, apart⟩ := covers
  simp only [BitVec.eq_of_getElem_eq_iff, BitVec.getElem_or, BitVec.getElem_and,
    BitVec.getElem_not] at apart ⊢
  grind

theorem Covers.takeBack (covers : Covers word held lent) (bits : BitVec width)
    (unheld : bits &&& held = 0) : Covers (word &&& ~~~bits) held (lent &&& ~~~bits) := by
  have kept : held &&& ~~~bits = held := by
    simp only [BitVec.eq_of_getElem_eq_iff, BitVec.getElem_and, BitVec.getElem_not] at unheld ⊢
    grind
  simpa [kept] using covers.letGo bits

end QmkSonix.Lib.Loans
