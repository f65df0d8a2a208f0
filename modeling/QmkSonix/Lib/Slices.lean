import Mathlib

/-! A range that is visited slice by slice, each from a start that is computed modulo a bound.
A slice whose end would pass the bound visits nothing, and the first one that reaches the end
of the range is the last. -/

namespace QmkSonix.Lib

section Slices

variable (modulus limit first last : ℕ)

/-- Where slice `k` starts. -/
def sliceStart (k : ℕ) : ℕ := limit * k % modulus

/-- What slice `k` visits of the range. -/
def slice (k : ℕ) : List ℕ :=
  if sliceStart modulus limit k + limit < modulus then
    List.range' (max first (sliceStart modulus limit k))
      (min last (sliceStart modulus limit k + limit) - max first (sliceStart modulus limit k))
  else []

/-- What the first `n` slices visit. -/
def slices (n : ℕ) : List ℕ := (List.range n).flatMap (slice modulus limit first last)

/-- Slice `k` reaches the end of the range. -/
def SliceEnds (k : ℕ) : Prop :=
  last ≤ sliceStart modulus limit k + limit ∧ sliceStart modulus limit k + limit < modulus

instance (k : ℕ) : Decidable (SliceEnds modulus limit last k) :=
  inferInstanceAs (Decidable (_ ∧ _))

/-- Some slice reaches the end of the range, and each one before it that passes the bound
starts before the range. -/
def SlicesFit : Prop :=
  ∃ k, SliceEnds modulus limit last k ∧
    ∀ j < k, modulus ≤ sliceStart modulus limit j + limit → sliceStart modulus limit j ≤ first

/-- Slice `k` is the first to reach the end, and then every index of the range has been visited
once, and no other. -/
def VisitsOnce (k : ℕ) : Prop :=
  SliceEnds modulus limit last k ∧ (∀ j < k, ¬ SliceEnds modulus limit last j) ∧
    ∀ i, (slices modulus limit first last (k + 1)).count i =
      if first ≤ i ∧ i < last then 1 else 0

variable {modulus limit first last}

@[simp] theorem sliceStart_zero : sliceStart modulus limit 0 = 0 := by simp [sliceStart]

theorem sliceStart_succ (small : limit < modulus) (k : ℕ) :
    sliceStart modulus limit (k + 1) =
      if sliceStart modulus limit k + limit < modulus then sliceStart modulus limit k + limit
      else sliceStart modulus limit k + limit - modulus := by
  have below : limit * k % modulus < modulus := Nat.mod_lt _ (by omega)
  unfold sliceStart
  rw [Nat.mul_succ, ← Nat.mod_add_mod]
  split
  · rename_i fits
    exact Nat.mod_eq_of_lt fits
  · rw [Nat.mod_eq_sub_mod (by omega), Nat.mod_eq_of_lt (by omega)]

theorem slices_succ (n : ℕ) : slices modulus limit first last (n + 1) =
    slices modulus limit first last n ++ slice modulus limit first last n := by
  simp [slices, List.range_succ]

theorem count_slice (k i : ℕ) : (slice modulus limit first last k).count i =
    if sliceStart modulus limit k + limit < modulus ∧ first ≤ i ∧ i < last ∧
      sliceStart modulus limit k ≤ i ∧ i < sliceStart modulus limit k + limit then 1 else 0 := by
  unfold slice
  split
  · rename_i fits
    rw [List.Nodup.count (List.nodup_range' (h := by omega))]
    simp only [List.mem_range'_1]
    congr 1
    apply propext
    omega
  · rename_i passes
    rw [if_neg (by tauto)]
    rfl

theorem count_slices_mono {m n : ℕ} (le : m ≤ n) (i : ℕ) :
    (slices modulus limit first last m).count i ≤ (slices modulus limit first last n).count i := by
  induction n, le using Nat.le_induction with
  | base => exact le_rfl
  | succ n _ ih =>
    rw [slices_succ, List.count_append]
    omega

/-- Where no slice has passed the bound from inside of the range, the range has been visited
once up to the start of the next slice. -/
theorem count_slices (small : limit < modulus) {k : ℕ}
    (harmless : ∀ j < k, modulus ≤ sliceStart modulus limit j + limit →
      sliceStart modulus limit j ≤ first) (i : ℕ) :
    (slices modulus limit first last k).count i =
      if first ≤ i ∧ i < last ∧ i < sliceStart modulus limit k then 1 else 0 := by
  induction k with
  | zero =>
    rw [sliceStart_zero, if_neg (by omega)]
    rfl
  | succ k ih =>
    have start := sliceStart_succ small k
    rw [slices_succ, List.count_append, ih fun j below => harmless j (by omega), count_slice]
    by_cases fits : sliceStart modulus limit k + limit < modulus
    · rw [if_pos fits] at start
      split_ifs <;> omega
    · rw [if_neg fits] at start
      have before := harmless k (by omega) (by omega)
      split_ifs <;> omega

/-- Before the end is reached a slice starts inside of the range, or with it. -/
theorem sliceStart_lt (small : limit < modulus) {k : ℕ}
    (goesOn : ∀ j < k, ¬ SliceEnds modulus limit last j) :
    sliceStart modulus limit k = 0 ∨ sliceStart modulus limit k < last := by
  induction k with
  | zero => exact .inl sliceStart_zero
  | succ k ih =>
    have earlier := ih fun j below => goesOn j (by omega)
    have open' := goesOn k (by omega)
    have start := sliceStart_succ small k
    unfold SliceEnds at open'
    split_ifs at start <;> omega

/-- Slices behind one that has passed the bound from inside of the range start again before
it, as long as they visit nothing. -/
theorem sliceStart_lt_of_passed (small : limit < modulus) {passed k : ℕ} (later : passed < k)
    (passes : modulus ≤ sliceStart modulus limit passed + limit)
    (inside : first < sliceStart modulus limit passed)
    (idle : ∀ j, passed < j → j < k → sliceStart modulus limit j + limit < modulus →
      sliceStart modulus limit j + limit ≤ first) :
    sliceStart modulus limit k < sliceStart modulus limit passed := by
  induction k, later using Nat.le_induction with
  | base =>
    have start := sliceStart_succ small passed
    rw [if_neg (by omega)] at start
    rw [Nat.succ_eq_add_one]
    omega
  | succ k later ih =>
    have before := ih fun j after below => idle j after (by omega)
    have start := sliceStart_succ small k
    by_cases fits : sliceStart modulus limit k + limit < modulus
    · have quiet := idle k later (by omega) fits
      rw [if_pos fits] at start
      omega
    · rw [if_neg fits] at start
      omega

/-- A slice that has passed the bound from inside of the range leaves something that a later
one visits again. -/
theorem visited_twice (small : limit < modulus) {passed k : ℕ} (later : passed < k)
    (passes : modulus ≤ sliceStart modulus limit passed + limit)
    (inside : first < sliceStart modulus limit passed)
    (harmless : ∀ j < passed, modulus ≤ sliceStart modulus limit j + limit →
      sliceStart modulus limit j ≤ first)
    (goesOn : ∀ j < k, ¬ SliceEnds modulus limit last j) (ends : SliceEnds modulus limit last k) :
    ∃ i, 1 < (slices modulus limit first last (k + 1)).count i := by
  have start := sliceStart_lt small fun j below => goesOn j (below.trans later)
  obtain ⟨reaches, fits⟩ := ends
  have again : ∃ j, passed < j ∧ sliceStart modulus limit j + limit < modulus ∧
      first < sliceStart modulus limit j + limit := ⟨k, later, fits, by omega⟩
  obtain ⟨after, room, visits⟩ := Nat.find_spec again
  have within : Nat.find again ≤ k := Nat.find_min' again ⟨later, fits, by omega⟩
  have back := sliceStart_lt_of_passed small after passes inside fun j behind below lands => by
    have none := Nat.find_min again below
    omega
  generalize Nat.find again = j at after room visits within back
  refine ⟨max first (sliceStart modulus limit j), ?_⟩
  have once : (slices modulus limit first last passed).count
      (max first (sliceStart modulus limit j)) = 1 := by
    rw [count_slices small harmless, if_pos (by omega)]
  have again : (slice modulus limit first last j).count
      (max first (sliceStart modulus limit j)) = 1 := by
    rw [count_slice, if_pos (by omega)]
  refine lt_of_lt_of_le ?_ (count_slices_mono (show j + 1 ≤ k + 1 by omega) _)
  rw [slices_succ, List.count_append, again]
  exact Nat.lt_add_of_pos_left
    (lt_of_lt_of_le (once.symm ▸ Nat.one_pos) (count_slices_mono after.le _))

/-- The range is visited once exactly where the slices fit it. -/
theorem visitsOnce_iff (small : limit < modulus) :
    (∃ k, VisitsOnce modulus limit first last k) ↔ SlicesFit modulus limit first last := by
  constructor
  · rintro ⟨k, ends, goesOn, once⟩
    refine ⟨k, ends, ?_⟩
    by_contra breaks
    push Not at breaks
    obtain ⟨below, passes, inside⟩ := Nat.find_spec breaks
    obtain ⟨i, twice⟩ := visited_twice small below passes inside
      (fun j earlier passed => by
        have none := Nat.find_min breaks earlier
        by_contra starts
        exact none ⟨by omega, passed, by omega⟩)
      goesOn ends
    rw [once] at twice
    split_ifs at twice <;> omega
  · rintro ⟨k, ends, harmless⟩
    have reached : ∃ j, SliceEnds modulus limit last j := ⟨k, ends⟩
    obtain ⟨j, within, done, goesOn⟩ : ∃ j ≤ k, SliceEnds modulus limit last j ∧
        ∀ i < j, ¬ SliceEnds modulus limit last i :=
      ⟨Nat.find reached, Nat.find_min' reached ends, Nat.find_spec reached,
        fun i below => Nat.find_min reached below⟩
    refine ⟨j, done, goesOn, fun i => ?_⟩
    rw [slices_succ, List.count_append,
      count_slices small (fun i below => harmless i (by omega)), count_slice]
    unfold SliceEnds at done
    split_ifs <;> omega

end Slices

end QmkSonix.Lib
