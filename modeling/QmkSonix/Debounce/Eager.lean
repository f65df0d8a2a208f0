import QmkSonix.Debounce.Defer

/-! `sym_eager_pk` and `sym_eager_pr`: a change is reported at once, and the place is
locked behind it. -/

namespace QmkSonix.Debounce

open QmkSonix.Matrix

/-- Flipping a bit that differs from the raw one takes over the raw one. -/
theorem symEagerPk_eq (debounceTime : Nat) : symEagerPk debounceTime = symEagerPr Bool debounceTime := by
  have transfers : (symEagerPk debounceTime).transfer = (symEagerPr Bool debounceTime).transfer := by
    funext raw counter cooked
    cases raw <;> cases cooked <;> rfl
  rw [symEagerPk, symEagerPr, Algorithm.mk.injEq]
  exact ⟨rfl, rfl, transfers⟩

section OnePlace

variable {Value : Type} [DecidableEq Value] {debounceTime : Nat} {raw : Nat → Value}
  {time : Nat → Nat} {width : Nat}

theorem symEagerPr_lawful (positive : 0 < debounceTime) :
    Lawful (symEagerPr Value debounceTime) (0 < ·) where
  rested := lt_irrefl 0
  update_rested elapsedTime raw counter cooked still := by
    obtain rfl : counter = 0 := Nat.eq_zero_of_not_pos still
    rfl
  update_zero raw counter cooked := by
    by_cases still : counter = 0
    · subst still
      rfl
    · simp [Algorithm.advance, symEagerPr, eagerUpdate, Visit.cell, debounceElapsed, still]
  update_running elapsedTime raw counter cooked runs := by
    by_cases still : counter = 0
    · simp [symEagerPr, eagerUpdate, debounceElapsed, still] at runs
    · by_cases expires : counter ≤ elapsedTime
      · simp [symEagerPr, eagerUpdate, debounceElapsed, still, expires] at runs
      · simp [symEagerPr, eagerUpdate, debounceElapsed, still, expires]
  transfer_running raw counter cooked runs := by
    by_cases still : counter = 0
    · by_cases same : raw = cooked
      · simp [symEagerPr, debounceElapsed, same, still] at runs
      · simp [symEagerPr, debounceElapsed, same, still]
    · exact .inl (Nat.pos_of_ne_zero still)
  transfer_settles raw cell := by
    by_cases same : raw = cell.cooked
    · simp [Algorithm.settle, symEagerPr, Visit.cell, same]
    · by_cases still : cell.counter = 0
      · simp [Algorithm.settle, symEagerPr, Visit.cell, debounceElapsed, same, still]
      · simp [Algorithm.settle, symEagerPr, Visit.cell, debounceElapsed, same, still]
  update_settled elapsedTime raw counter cooked settled unasked := by
    by_cases still : counter = 0
    · subst still
      exact settled
    · by_cases expires : counter ≤ elapsedTime
      · simp [symEagerPr, eagerUpdate, debounceElapsed, still, expires] at unasked
      · have runs : counter - elapsedTime ≠ 0 := by omega
        by_cases same : raw = cooked
        · simp [Algorithm.settle, Algorithm.advance, symEagerPr, eagerUpdate, Visit.cell,
            debounceElapsed, still, expires, same]
        · simp [Algorithm.settle, Algorithm.advance, symEagerPr, eagerUpdate, Visit.cell,
            debounceElapsed, still, expires, same, runs]
  start_settled cooked := by
    simp [Algorithm.settle, symEagerPr, Visit.cell]

/-- What a scan makes of a place. -/
theorem symEagerPr_step (short : debounceTime ≤ 255) (gap : Nat) (raw : Value)
    {cell : Cell Nat Value} (small : cell.counter ≤ debounceTime) :
    (symEagerPr Value debounceTime).step gap raw cell =
      if cell.counter ≤ gap then
        if raw = cell.cooked then ⟨0, cell.cooked⟩ else ⟨debounceTime, raw⟩
      else ⟨cell.counter - gap, cell.cooked⟩ := by
  have clamped : cell.counter ≤ min gap 255 ↔ cell.counter ≤ gap := by omega
  by_cases still : cell.counter = 0
  · by_cases same : raw = cell.cooked
    · simp [Algorithm.step, Algorithm.settle, Algorithm.advance, symEagerPr, eagerUpdate,
        Visit.cell, debounceElapsed, still, same]
    · simp [Algorithm.step, Algorithm.settle, Algorithm.advance, symEagerPr, eagerUpdate,
        Visit.cell, debounceElapsed, still, same]
  · by_cases expires : cell.counter ≤ gap
    · by_cases same : raw = cell.cooked
      · simp [Algorithm.step, Algorithm.settle, Algorithm.advance, symEagerPr, eagerUpdate,
          Visit.cell, debounceElapsed, still, clamped, expires, same]
      · simp [Algorithm.step, Algorithm.settle, Algorithm.advance, symEagerPr, eagerUpdate,
          Visit.cell, debounceElapsed, still, clamped, expires, same]
    · have unclamped : min gap 255 = gap := by omega
      have runs : cell.counter - gap ≠ 0 := by omega
      simp [Algorithm.step, Algorithm.settle, Algorithm.advance, symEagerPr, eagerUpdate,
        Visit.cell, debounceElapsed, still, unclamped, expires, runs]

/-- Behind `n` scans the counter holds what is left of the debounce time since the last
change of a report. -/
structure Locked (debounceTime : Nat) (raw : Nat → Value) (time : Nat → Nat) (report : Nat → Value)
    (n : Nat) (counter : Nat) : Prop where
  follows : counter = 0 → report n = raw n
  holds : 0 < counter → ∃ s < n, report (s + 1) ≠ report s ∧ time (s + 1) ≤ time n ∧
    time n + counter = time (s + 1) + debounceTime
  ends : ∀ s < n, report (s + 1) ≠ report s → time (s + 1) + debounceTime ≤ time n + counter

/-- What a place reports behind `n` scans. -/
def eagerReport (debounceTime : Nat) (raw : Nat → Value) (time : Nat → Nat) (n : Nat) : Value :=
  ((symEagerPr Value debounceTime).track raw time n).cooked

/-- The counter of a place behind `n` scans. -/
def eagerCounter (debounceTime : Nat) (raw : Nat → Value) (time : Nat → Nat) (n : Nat) : Nat :=
  ((symEagerPr Value debounceTime).track raw time n).counter

theorem Locked.small {report : Nat → Value} {n counter : Nat}
    (locked : Locked debounceTime raw time report n counter) : counter ≤ debounceTime := by
  rcases Nat.eq_zero_or_pos counter with still | runs
  · omega
  · obtain ⟨s, -, -, later, left⟩ := locked.holds runs
    omega

theorem eager_step (short : debounceTime ≤ 255) {n : Nat}
    (small : eagerCounter debounceTime raw time n ≤ debounceTime) :
    (⟨eagerCounter debounceTime raw time (n + 1), eagerReport debounceTime raw time (n + 1)⟩ :
        Cell Nat Value) =
      if eagerCounter debounceTime raw time n ≤ time (n + 1) - time n then
        if raw (n + 1) = eagerReport debounceTime raw time n then
          ⟨0, eagerReport debounceTime raw time n⟩
        else ⟨debounceTime, raw (n + 1)⟩
      else
        ⟨eagerCounter debounceTime raw time n - (time (n + 1) - time n),
          eagerReport debounceTime raw time n⟩ :=
  symEagerPr_step short (time (n + 1) - time n) (raw (n + 1)) small

theorem locked_track (short : debounceTime ≤ 255) (spaced : Spaced width time) (n : Nat) :
    Locked debounceTime raw time (eagerReport debounceTime raw time) n
      (eagerCounter debounceTime raw time n) := by
  induction n with
  | zero =>
    refine ⟨fun _ => rfl, fun runs => absurd runs (lt_irrefl 0), fun s none => by omega⟩
  | succ n ih =>
    have stepped : (⟨eagerCounter debounceTime raw time (n + 1),
        eagerReport debounceTime raw time (n + 1)⟩ : Cell Nat Value) = _ :=
      eager_step short ih.small
    -- the changes before this scan
    have earlier (s : Nat) (inner : s < n)
        (changes : eagerReport debounceTime raw time (s + 1) ≠ eagerReport debounceTime raw time s) :
        time n ≤ time (n + 1) ∧
          time (s + 1) + debounceTime ≤ time n + eagerCounter debounceTime raw time n :=
      ⟨(spaced n (by omega)).1, ih.ends s inner changes⟩
    by_cases expires : eagerCounter debounceTime raw time n ≤ time (n + 1) - time n
    · rw [if_pos expires] at stepped
      by_cases same : raw (n + 1) = eagerReport debounceTime raw time n
      · rw [if_pos same, Cell.mk.injEq] at stepped
        obtain ⟨counter, report⟩ := stepped
        rw [counter]
        refine ⟨fun _ => report.trans same.symm, fun runs => absurd runs (lt_irrefl 0),
          fun s inside changes => ?_⟩
        rcases Nat.lt_succ_iff_lt_or_eq.mp inside with inner | rfl
        · obtain ⟨passed, ends⟩ := earlier s inner changes
          omega
        · exact absurd report changes
      · rw [if_neg same, Cell.mk.injEq] at stepped
        obtain ⟨counter, report⟩ := stepped
        rw [counter]
        refine ⟨fun _ => report, fun _ => ⟨n, Nat.lt_succ_self n, ?_, le_rfl, rfl⟩,
          fun s inside changes => ?_⟩
        · rw [report]
          exact same
        · rcases Nat.lt_succ_iff_lt_or_eq.mp inside with inner | rfl
          · obtain ⟨passed, ends⟩ := earlier s inner changes
            omega
          · exact le_rfl
    · rw [if_neg expires, Cell.mk.injEq] at stepped
      obtain ⟨counter, report⟩ := stepped
      rw [counter]
      refine ⟨fun still => by omega, fun _ => ?_, fun s inside changes => ?_⟩
      · obtain ⟨s, inner, changes, later, left⟩ := ih.holds (by omega)
        have passed := (spaced n (by omega)).1
        exact ⟨s, by omega, changes, later.trans passed, by omega⟩
      · rcases Nat.lt_succ_iff_lt_or_eq.mp inside with inner | rfl
        · obtain ⟨passed, ends⟩ := earlier s inner changes
          omega
        · exact absurd report changes

/-- A report that has not changed within the debounce time is the raw value, and two
changes are at least the debounce time apart. -/
theorem eagerReport_follows (short : debounceTime ≤ 255) (spaced : Spaced width time) (n : Nat) :
    ((∀ m < n, time n < time (m + 1) + debounceTime →
          eagerReport debounceTime raw time (m + 1) = eagerReport debounceTime raw time m) →
        eagerReport debounceTime raw time n = raw n) ∧
      ∀ m < n, eagerReport debounceTime raw time (m + 1) ≠ eagerReport debounceTime raw time m →
        eagerReport debounceTime raw time (n + 1) ≠ eagerReport debounceTime raw time n →
          time (m + 1) + debounceTime ≤ time (n + 1) := by
  have locked : Locked debounceTime raw time _ n _ := locked_track short spaced n
  constructor
  · intro quiet
    apply locked.follows
    by_contra runs
    obtain ⟨s, inside, changes, -, left⟩ := locked.holds (Nat.pos_of_ne_zero runs)
    exact changes (quiet s inside (by omega))
  · intro m inside before changes
    have passed := (spaced n (by omega)).1
    have ends := locked.ends m inside before
    have stepped : (⟨eagerCounter debounceTime raw time (n + 1),
        eagerReport debounceTime raw time (n + 1)⟩ : Cell Nat Value) = _ :=
      eager_step short locked.small
    by_cases expires : eagerCounter debounceTime raw time n ≤ time (n + 1) - time n
    · omega
    · rw [if_neg expires, Cell.mk.injEq] at stepped
      exact absurd stepped.2 changes

end OnePlace

/-- What `sym_eager_pk` reports behind `n` scans. -/
def eagerKeys {rows cols : Nat} (debounceTime width : Nat) (raw : Nat → Rows rows cols)
    (time : Nat → Nat) (n : Nat) : Rows rows cols :=
  (after (symEagerPk debounceTime) width raw time n :
    State rows cols width (keys rows cols) Nat).cooked

/-- What `sym_eager_pr` reports behind `n` scans. -/
def eagerRows {rows cols : Nat} (debounceTime width : Nat) (raw : Nat → Rows rows cols)
    (time : Nat → Nat) (n : Nat) : Rows rows cols :=
  (after (symEagerPr (BitVec cols) debounceTime) width raw time n :
    State rows cols width (wholeRows rows cols) Nat).cooked

theorem keyBit_eagerKeys {rows cols debounceTime width : Nat} (positive : 0 < debounceTime)
    (raw : Nat → Rows rows cols) {time : Nat → Nat} (spaced : Spaced width time) (n : Nat)
    (key : Fin rows × Fin cols) :
    keyBit (eagerKeys debounceTime width raw time n) key =
      eagerReport debounceTime (fun m => keyBit (raw m) key) time n := by
  have lawful : Lawful (symEagerPk debounceTime) (0 < ·) :=
    symEagerPk_eq debounceTime ▸ symEagerPr_lawful positive
  rw [eagerReport, ← symEagerPk_eq]
  exact read_after (keys rows cols) lawful raw spaced n key

theorem eagerRows_row {rows cols debounceTime width : Nat} (positive : 0 < debounceTime)
    (raw : Nat → Rows rows cols) {time : Nat → Nat} (spaced : Spaced width time) (n : Nat)
    (row : Fin rows) :
    eagerRows debounceTime width raw time n row =
      eagerReport debounceTime (fun m => raw m row) time n :=
  read_after (wholeRows rows cols) (symEagerPr_lawful positive) raw spaced n row

/-- A key, or a row, that has not changed its report within the debounce time is
reported as it is, and never changes its report sooner than that after it did. -/
theorem eager_reports {rows cols debounceTime width : Nat} (positive : 0 < debounceTime)
    (short : debounceTime ≤ 255) (raw : Nat → Rows rows cols) (time : Nat → Nat)
    (spaced : Spaced width time) (n : Nat) :
    (∀ key, ((∀ m < n, time n < time (m + 1) + debounceTime →
            keyBit (eagerKeys debounceTime width raw time (m + 1)) key =
              keyBit (eagerKeys debounceTime width raw time m) key) →
          keyBit (eagerKeys debounceTime width raw time n) key = keyBit (raw n) key) ∧
        ∀ m < n, keyBit (eagerKeys debounceTime width raw time (m + 1)) key ≠
            keyBit (eagerKeys debounceTime width raw time m) key →
          keyBit (eagerKeys debounceTime width raw time (n + 1)) key ≠
            keyBit (eagerKeys debounceTime width raw time n) key →
          time (m + 1) + debounceTime ≤ time (n + 1)) ∧
      ∀ row, ((∀ m < n, time n < time (m + 1) + debounceTime →
            eagerRows debounceTime width raw time (m + 1) row =
              eagerRows debounceTime width raw time m row) →
          eagerRows debounceTime width raw time n row = raw n row) ∧
        ∀ m < n, eagerRows debounceTime width raw time (m + 1) row ≠
            eagerRows debounceTime width raw time m row →
          eagerRows debounceTime width raw time (n + 1) row ≠
            eagerRows debounceTime width raw time n row →
          time (m + 1) + debounceTime ≤ time (n + 1) := by
  constructor
  · intro key
    simp only [keyBit_eagerKeys positive raw spaced]
    exact eagerReport_follows short spaced n
  · intro row
    simp only [eagerRows_row positive raw spaced]
    exact eagerReport_follows short spaced n

theorem held_key_eager :
    keyBit (eagerKeys 5 16 heldKey everyFour 4) (0, 0) = keyBit (heldKey 4) (0, 0) ∧
      eagerRows 5 16 heldKey everyFour 4 0 = heldKey 4 0 := by
  have reports := eager_reports (by decide : 0 < 5) (by decide) heldKey everyFour
    everyFour_spaced 4
  constructor
  · refine (reports.1 (0, 0)).1 fun m inside recent => ?_
    have late : m = 2 ∨ m = 3 := by
      unfold everyFour at recent
      omega
    rcases late with rfl | rfl <;> decide +kernel
  · refine (reports.2 0).1 fun m inside recent => ?_
    have late : m = 2 ∨ m = 3 := by
      unfold everyFour at recent
      omega
    rcases late with rfl | rfl <;> decide +kernel

end QmkSonix.Debounce
