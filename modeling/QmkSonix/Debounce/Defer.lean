import QmkSonix.Debounce.Apart

/-! `sym_defer_pk`: a change is reported once it has lasted. -/

namespace QmkSonix.Debounce

open QmkSonix.Matrix

section OneKey

variable {debounceTime : Nat} {bit : Nat → Bool} {time : Nat → Nat} {width : Nat}

theorem symDeferPk_lawful (positive : 0 < debounceTime) :
    Lawful (symDeferPk debounceTime) (0 < ·) where
  rested := lt_irrefl 0
  update_rested elapsedTime raw counter cooked still := by
    obtain rfl : counter = 0 := Nat.eq_zero_of_not_pos still
    rfl
  update_zero raw counter cooked := by
    by_cases still : counter = 0
    · subst still
      rfl
    · simp [Algorithm.advance, symDeferPk, Visit.cell, debounceElapsed, still]
  update_running elapsedTime raw counter cooked runs := by
    by_cases still : counter = 0
    · simp [symDeferPk, debounceElapsed, still] at runs
    · by_cases expires : counter ≤ elapsedTime
      · simp [symDeferPk, debounceElapsed, still, expires] at runs
      · simp [symDeferPk, debounceElapsed, still, expires]
  transfer_running raw counter cooked runs := by
    by_cases same : raw = cooked
    · simp [symDeferPk, debounceElapsed, same] at runs
    · by_cases still : counter = 0
      · simp [symDeferPk, debounceElapsed, same, still]
      · exact .inl (Nat.pos_of_ne_zero still)
  transfer_settles raw cell := by
    by_cases same : raw = cell.cooked
    · simp [Algorithm.settle, symDeferPk, Visit.cell, debounceElapsed, same]
    · by_cases still : cell.counter = 0
      · simp [Algorithm.settle, symDeferPk, Visit.cell, debounceElapsed, same, still, positive.ne']
      · simp [Algorithm.settle, symDeferPk, Visit.cell, debounceElapsed, same, still]
  update_settled elapsedTime raw counter cooked settled _ := by
    by_cases still : counter = 0
    · subst still
      exact settled
    · by_cases expires : counter ≤ elapsedTime
      · simp [Algorithm.settle, Algorithm.advance, symDeferPk, Visit.cell, debounceElapsed, still,
          expires]
      · have differs : raw ≠ cooked := by
          rintro rfl
          simp [Algorithm.settle, symDeferPk, Visit.cell, debounceElapsed, Ne.symm still] at settled
        have runs : counter - elapsedTime ≠ 0 := by omega
        simp [Algorithm.settle, Algorithm.advance, symDeferPk, Visit.cell, debounceElapsed, still,
          expires, differs, runs]
  start_settled cooked := by
    simp [Algorithm.settle, symDeferPk, Visit.cell, debounceElapsed]

/-- What a scan makes of a key. -/
theorem symDeferPk_step (short : debounceTime ≤ 255) (gap : Nat) (raw : Bool)
    {cell : Cell Nat Bool} (small : cell.counter ≤ debounceTime) :
    (symDeferPk debounceTime).step gap raw cell =
      if cell.counter = 0 then ⟨if raw = cell.cooked then 0 else debounceTime, cell.cooked⟩
      else if cell.counter ≤ gap then ⟨0, raw⟩
      else ⟨if raw = cell.cooked then 0 else cell.counter - gap, cell.cooked⟩ := by
  have clamped : cell.counter ≤ min gap 255 ↔ cell.counter ≤ gap := by omega
  by_cases still : cell.counter = 0
  · by_cases same : raw = cell.cooked
    · simp [Algorithm.step, Algorithm.settle, Algorithm.advance, symDeferPk, Visit.cell,
        debounceElapsed, still, same]
    · simp [Algorithm.step, Algorithm.settle, Algorithm.advance, symDeferPk, Visit.cell,
        debounceElapsed, still, same]
  · by_cases expires : cell.counter ≤ gap
    · simp [Algorithm.step, Algorithm.settle, Algorithm.advance, symDeferPk, Visit.cell,
        debounceElapsed, still, clamped, expires]
    · have unclamped : min gap 255 = gap := by omega
      have runs : cell.counter - gap ≠ 0 := by omega
      by_cases same : raw = cell.cooked
      · simp [Algorithm.step, Algorithm.settle, Algorithm.advance, symDeferPk, Visit.cell,
          debounceElapsed, still, unclamped, expires, same]
      · simp [Algorithm.step, Algorithm.settle, Algorithm.advance, symDeferPk, Visit.cell,
          debounceElapsed, still, unclamped, expires, same, runs]

/-- A key rests, its raw bit as reported, or its counter holds what is left of the
debounce time since the scan behind `s`, the first at which the raw bit differed. -/
def Waits (debounceTime : Nat) (bit : Nat → Bool) (time : Nat → Nat) (n : Nat)
    (cell : Cell Nat Bool) : Prop :=
  (cell.counter = 0 ∧ bit n = cell.cooked) ∨
    (0 < cell.counter ∧ ∃ s < n, bit s = cell.cooked ∧
      (∀ m, s < m → m ≤ n → bit m ≠ cell.cooked) ∧
      time (s + 1) ≤ time n ∧ time n + cell.counter = time (s + 1) + debounceTime)

theorem Waits.small {n : Nat} {cell : Cell Nat Bool} (waits : Waits debounceTime bit time n cell) :
    cell.counter ≤ debounceTime := by
  rcases waits with ⟨still, -⟩ | ⟨-, s, -, -, -, later, left⟩ <;> omega

theorem waits_step (positive : 0 < debounceTime) (short : debounceTime ≤ 255)
    (spaced : Spaced width time) {n : Nat} {cell : Cell Nat Bool}
    (waits : Waits debounceTime bit time n cell) :
    Waits debounceTime bit time (n + 1)
      ((symDeferPk debounceTime).step (time (n + 1) - time n) (bit (n + 1)) cell) := by
  rw [symDeferPk_step short _ _ waits.small]
  rcases waits with ⟨still, same⟩ | ⟨runs, s, earlier, before, differs, later, left⟩
  · rw [if_pos still]
    by_cases next : bit (n + 1) = cell.cooked
    · exact .inl ⟨if_pos next, next⟩
    · refine .inr ⟨?_, n, Nat.lt_succ_self n, same, ?_, le_rfl, ?_⟩
      · rw [if_neg next]
        exact positive
      · intro m above below
        obtain rfl : m = n + 1 := by omega
        exact next
      · rw [if_neg next]
  · have passed := (spaced n (by omega)).1
    rw [if_neg runs.ne']
    by_cases expires : cell.counter ≤ time (n + 1) - time n
    · rw [if_pos expires]
      exact .inl ⟨rfl, rfl⟩
    · rw [if_neg expires]
      by_cases next : bit (n + 1) = cell.cooked
      · exact .inl ⟨if_pos next, next⟩
      · rw [if_neg next]
        refine .inr ⟨by dsimp only; omega, s, by omega, before, ?_, later.trans passed, ?_⟩
        · intro m above below
          rcases Nat.lt_or_ge n m with last | inner
          · obtain rfl : m = n + 1 := by omega
            exact next
          · exact differs m above inner
        · dsimp only
          omega

theorem waits_track (positive : 0 < debounceTime) (short : debounceTime ≤ 255)
    (spaced : Spaced width time) (n : Nat) :
    Waits debounceTime bit time n ((symDeferPk debounceTime).track bit time n) := by
  induction n with
  | zero => exact .inl ⟨rfl, rfl⟩
  | succ n ih => exact waits_step positive short spaced ih

/-- A key's report changes at the first scan at which its raw bit has differed from it
for the debounce time, and at every scan since. -/
theorem track_changes_iff (positive : 0 < debounceTime) (short : debounceTime ≤ 255)
    (spaced : Spaced width time) (n : Nat) :
    ((symDeferPk debounceTime).track bit time (n + 1)).cooked ≠
        ((symDeferPk debounceTime).track bit time n).cooked ↔
      ∃ s ≤ n, bit s = ((symDeferPk debounceTime).track bit time n).cooked ∧
        (∀ m, s < m → m ≤ n + 1 → bit m ≠ ((symDeferPk debounceTime).track bit time n).cooked) ∧
        time (s + 1) + debounceTime ≤ time (n + 1) ∧
        ∀ m, s < m → m ≤ n → time m < time (s + 1) + debounceTime := by
  have waits : Waits debounceTime bit time n _ := waits_track positive short spaced n
  have stepped : (symDeferPk debounceTime).track bit time (n + 1) =
      (symDeferPk debounceTime).step (time (n + 1) - time n) (bit (n + 1))
        ((symDeferPk debounceTime).track bit time n) := rfl
  rw [stepped, symDeferPk_step short _ _ waits.small]
  generalize (symDeferPk debounceTime).track bit time n = cell at waits ⊢
  rcases waits with ⟨still, same⟩ | ⟨runs, s, earlier, before, differs, later, left⟩
  · rw [if_pos still]
    refine ⟨fun changes => absurd rfl changes, ?_⟩
    rintro ⟨s, upto, -, differs, lasts, -⟩
    rcases Nat.lt_or_ge s n with inner | last
    · exact absurd same (differs n inner (Nat.le_succ n))
    · obtain rfl : s = n := by omega
      omega
  · have passed := (spaced n (by omega)).1
    rw [if_neg runs.ne']
    constructor
    · intro changes
      by_cases expires : cell.counter ≤ time (n + 1) - time n
      · rw [if_pos expires] at changes
        refine ⟨s, earlier.le, before, ?_, by omega, ?_⟩
        · intro m above below
          rcases Nat.lt_or_ge n m with last | inner
          · obtain rfl : m = n + 1 := by omega
            exact changes
          · exact differs m above inner
        · intro m above below
          have sooner := spaced.mono (by omega : 1 ≤ m) below
          omega
      · rw [if_neg expires] at changes
        exact absurd rfl changes
    · rintro ⟨first, upto, start, differ, lasts, -⟩
      obtain rfl : first = s := by
        rcases Nat.lt_trichotomy first s with less | same | more
        · exact absurd before (differ s less (by omega))
        · exact same
        · exact absurd start (differs first more upto)
      rw [if_pos (by omega)]
      exact differ (n + 1) (by omega) le_rfl

end OneKey

/-- A key of a matrix. -/
def keyBit {rows cols : Nat} (matrix : Rows rows cols) (key : Fin rows × Fin cols) : Bool :=
  (matrix key.1).getLsbD key.2

/-- What `sym_defer_pk` reports behind `n` scans. -/
def deferred {rows cols : Nat} (debounceTime width : Nat) (raw : Nat → Rows rows cols)
    (time : Nat → Nat) (n : Nat) : Rows rows cols :=
  (after (symDeferPk debounceTime) width raw time n :
    State rows cols width (keys rows cols) Nat).cooked

theorem keyBit_deferred {rows cols debounceTime width : Nat} (positive : 0 < debounceTime)
    (raw : Nat → Rows rows cols) {time : Nat → Nat} (spaced : Spaced width time) (n : Nat)
    (key : Fin rows × Fin cols) :
    keyBit (deferred debounceTime width raw time n) key =
      ((symDeferPk debounceTime).track (fun m => keyBit (raw m) key) time n).cooked :=
  read_after (keys rows cols) (symDeferPk_lawful positive) raw spaced n key

/-- A key changes at a scan exactly when its raw bit has differed from the reported one
at every scan from the one behind `s`, the first, up to this one, and this is the first
scan the debounce time after it. The other keys have no influence. -/
theorem deferred_changes_iff {rows cols debounceTime width : Nat} (positive : 0 < debounceTime)
    (short : debounceTime ≤ 255) (raw : Nat → Rows rows cols) (time : Nat → Nat)
    (spaced : Spaced width time) (key : Fin rows × Fin cols) :
    (∀ n, keyBit (deferred debounceTime width raw time (n + 1)) key ≠
          keyBit (deferred debounceTime width raw time n) key ↔
        ∃ s ≤ n, keyBit (raw s) key = keyBit (deferred debounceTime width raw time n) key ∧
          (∀ m, s < m → m ≤ n + 1 →
            keyBit (raw m) key ≠ keyBit (deferred debounceTime width raw time n) key) ∧
          time (s + 1) + debounceTime ≤ time (n + 1) ∧
          ∀ m, s < m → m ≤ n → time m < time (s + 1) + debounceTime) ∧
      ∀ others : Nat → Rows rows cols, (∀ m, keyBit (others m) key = keyBit (raw m) key) →
        ∀ n, keyBit (deferred debounceTime width others time n) key =
          keyBit (deferred debounceTime width raw time n) key := by
  constructor
  · intro n
    rw [keyBit_deferred positive raw spaced, keyBit_deferred positive raw spaced]
    exact track_changes_iff positive short spaced n
  · intro others same n
    rw [keyBit_deferred positive others spaced, keyBit_deferred positive raw spaced,
      funext same]

/-- The only key of a matrix, held from the first scan on. -/
def heldKey (n : Nat) : Rows 1 1 := fun _ => if n = 0 then 0 else 1

/-- A scan every four milliseconds. -/
def everyFour (n : Nat) : Nat := 4 * n

theorem everyFour_spaced : Spaced 16 everyFour := by
  intro n _
  unfold everyFour
  omega

theorem held_key_deferred :
    keyBit (deferred 5 16 heldKey everyFour 3) (0, 0) ≠
      keyBit (deferred 5 16 heldKey everyFour 2) (0, 0) := by
  refine ((deferred_changes_iff (by decide) (by decide) _ _ everyFour_spaced (0, 0)).1 2).mpr
    ⟨0, by decide, by decide +kernel, ?_, by decide, ?_⟩
  · intro m above below
    interval_cases m <;> decide +kernel
  · intro m above below
    unfold everyFour
    omega

end QmkSonix.Debounce
