import Mathlib

/-! A counter seen only modulo its range: recovering the true count from readings
that are close together, and scaling a count that has lost whole ranges. -/

namespace QmkSonix.Lib

section Scale

variable {den : ℕ}

theorem le_mul_ceilDiv (positive : 0 < den) (n : ℕ) : n ≤ den * (n ⌈/⌉ den) :=
  (ceilDiv_le_iff_le_mul positive).mp le_rfl

theorem mul_ceilDiv_lt (positive : 0 < den) (n : ℕ) : den * (n ⌈/⌉ den) < n + den := by
  rw [Nat.ceilDiv_eq_add_pred_div]
  have below := Nat.mul_div_le (n + den - 1) den
  omega

theorem mul_add_ceilDiv (positive : 0 < den) (whole n : ℕ) :
    (den * whole + n) ⌈/⌉ den = whole + n ⌈/⌉ den := by
  have shift : den * whole + n + den - 1 = den * whole + (n + den - 1) := by omega
  rw [Nat.ceilDiv_eq_add_pred_div, shift, Nat.mul_add_div positive, Nat.ceilDiv_eq_add_pred_div]

theorem ceilDiv_le_ceilDiv (positive : 0 < den) {n m : ℕ} (le : n ≤ m) :
    n ⌈/⌉ den ≤ m ⌈/⌉ den :=
  (ceilDiv_le_iff_le_mul positive).mpr (le.trans (le_mul_ceilDiv positive m))

variable {num range n : ℕ}

theorem mul_eq_wraps_add (num range n : ℕ) :
    num * n = num * (n / range) * range + num * (n % range) := by
  calc num * n = num * (range * (n / range) + n % range) := by rw [Nat.div_add_mod]
    _ = num * (n / range) * range + num * (n % range) := by ring

/-- Whole ranges that scale to whole units may be lost from a count. -/
theorem ceilDiv_modEq_of_dvd (positive : 0 < den) (whole : den ∣ num * (n / range)) :
    num * n ⌈/⌉ den ≡ num * (n % range) ⌈/⌉ den [MOD range] := by
  obtain ⟨units, scales⟩ := whole
  rw [mul_eq_wraps_add num range n, scales, mul_assoc, mul_add_ceilDiv positive, Nat.ModEq,
    Nat.mul_comm, Nat.mul_add_mod]

/-- No other ranges may be lost when the divisor is at most the range. -/
theorem dvd_of_ceilDiv_modEq (positive : 0 < den) (small : den ≤ range)
    (same : num * n ⌈/⌉ den ≡ num * (n % range) ⌈/⌉ den [MOD range]) :
    den ∣ num * (n / range) := by
  have lower := mul_eq_wraps_add num range n
  have monotone : num * (n % range) ⌈/⌉ den ≤ num * n ⌈/⌉ den :=
    ceilDiv_le_ceilDiv positive (Nat.mul_le_mul_left _ (Nat.mod_le _ _))
  obtain ⟨units, apart⟩ := (Nat.modEq_iff_dvd' monotone).mp same.symm
  have ends : num * n ⌈/⌉ den = num * (n % range) ⌈/⌉ den + range * units := by omega
  have above := le_mul_ceilDiv positive (num * n)
  have below := mul_ceilDiv_lt positive (num * n)
  have aboveRest := le_mul_ceilDiv positive (num * (n % range))
  have belowRest := mul_ceilDiv_lt positive (num * (n % range))
  rw [ends, Nat.mul_add] at above below
  have scaled : den * (range * units) = den * units * range := by ring
  rw [scaled] at above below
  refine ⟨units, Nat.le_antisymm ?_ ?_⟩
  · have close : num * (n / range) * range < (den * units + 1) * range := by
      rw [Nat.add_mul]
      omega
    exact Nat.lt_succ_iff.mp (Nat.lt_of_mul_lt_mul_right close)
  · have close : den * units * range < (num * (n / range) + 1) * range := by
      rw [Nat.add_mul]
      omega
    exact Nat.lt_succ_iff.mp (Nat.lt_of_mul_lt_mul_right close)

/-- The scaled length of an interval, from the scaled counts at its ends. -/
theorem ceilDiv_sub_bounds (num : ℕ) (positive : 0 < den) {first last : ℕ}
    (le : first ≤ last) :
    num * (last - first) < den * (num * last ⌈/⌉ den - num * first ⌈/⌉ den + 1) ∧
      den * (num * last ⌈/⌉ den - num * first ⌈/⌉ den) < num * (last - first) + den := by
  have scaledLe : num * first ≤ num * last := Nat.mul_le_mul_left _ le
  have monotone := ceilDiv_le_ceilDiv positive scaledLe
  obtain ⟨units, ends⟩ := Nat.exists_eq_add_of_le monotone
  have aboveFirst := le_mul_ceilDiv positive (num * first)
  have belowFirst := mul_ceilDiv_lt positive (num * first)
  have aboveLast := le_mul_ceilDiv positive (num * last)
  have belowLast := mul_ceilDiv_lt positive (num * last)
  rw [ends, Nat.mul_add] at aboveLast belowLast
  rw [ends, Nat.add_sub_cancel_left, Nat.mul_sub, Nat.mul_add]
  omega

end Scale

/-- Fewer than `range` counts apart, a reading that went back has wrapped once. -/
theorem div_of_close {range : ℕ} (positive : 0 < range) (old : ℕ) {gap : ℕ}
    (close : gap < range) :
    (old + gap) / range =
      old / range + if (old + gap) % range < old % range then 1 else 0 := by
  have before := Nat.div_add_mod old range
  have low := Nat.mod_lt old positive
  have sum : old + gap = range * (old / range) + (old % range + gap) := by omega
  by_cases wraps : old % range + gap < range
  · have kept : (old % range + gap) / range = 0 := Nat.div_eq_of_lt wraps
    rw [sum, Nat.mul_add_div positive, Nat.mul_add_mod, kept, Nat.mod_eq_of_lt wraps, if_neg]
    omega
  · obtain ⟨rest, split⟩ := Nat.exists_eq_add_of_le (Nat.le_of_not_lt wraps)
    have short : rest < range := by omega
    have once : (old % range + gap) / range = 1 := by
      rw [split, Nat.add_div_left _ positive, Nat.div_eq_of_lt short]
    have left : (old % range + gap) % range = rest := by
      rw [split, Nat.add_mod_left, Nat.mod_eq_of_lt short]
    rw [sum, Nat.mul_add_div positive, Nat.mul_add_mod, once, left, if_pos]
    omega

section Sign

/-- Readings less than half the range apart: the sign of their wrapped difference
is that of the true one. -/
theorem toInt_diff {later earlier : ℕ} (behind : earlier ≤ later + 2 ^ 31)
    (ahead : later < earlier + 2 ^ 31) :
    (BitVec.ofNat 32 later - BitVec.ofNat 32 earlier).toInt = (later : ℤ) - earlier := by
  rw [BitVec.toInt_sub, BitVec.toInt_ofNat', BitVec.toInt_ofNat', Int.bmod_sub_bmod,
    Int.sub_bmod_bmod]
  exact Int.bmod_eq_of_le_mul_two (by omega) (by omega)

end Sign

end QmkSonix.Lib
