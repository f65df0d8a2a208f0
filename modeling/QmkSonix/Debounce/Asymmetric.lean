import QmkSonix.Debounce.Defer

/-! `asym_eager_defer_pk`: a press is reported at once and locks the key, a release is
reported once it has lasted. One counter, with a direction, serves both. -/

namespace QmkSonix.Debounce

open QmkSonix.Matrix

section OneKey

variable {debounceTime : Nat} {bit : Nat → Bool} {time : Nat → Nat} {width : Nat}

theorem asymEagerDeferPk_lawful (positive : 0 < debounceTime) :
    Lawful (asymEagerDeferPk debounceTime) (0 < ·.time) where
  rested := lt_irrefl 0
  update_rested elapsedTime raw counter cooked still := by
    have zero : counter.time = 0 := Nat.eq_zero_of_not_pos still
    simp [Algorithm.advance, asymEagerDeferPk, Visit.cell, debounceElapsed, zero]
  update_zero raw counter cooked := by
    by_cases still : counter.time = 0
    · simp [Algorithm.advance, asymEagerDeferPk, Visit.cell, debounceElapsed, still]
    · simp [Algorithm.advance, asymEagerDeferPk, Visit.cell, debounceElapsed, still]
  update_running elapsedTime raw counter cooked runs := by
    by_cases still : counter.time = 0
    · simp [asymEagerDeferPk, debounceElapsed, still] at runs
    · by_cases expires : counter.time ≤ elapsedTime
      · cases pressed : counter.pressed <;>
          simp [asymEagerDeferPk, debounceElapsed, still, expires, pressed] at runs
      · simp [asymEagerDeferPk, debounceElapsed, still, expires]
  transfer_running raw counter cooked runs := by
    by_cases still : counter.time = 0
    · by_cases same : raw = cooked
      · simp [asymEagerDeferPk, debounceElapsed, same, still] at runs
      · simp [asymEagerDeferPk, debounceElapsed, same, still]
    · exact .inl (Nat.pos_of_ne_zero still)
  transfer_settles raw cell := by
    obtain ⟨⟨pressed, left⟩, cooked⟩ := cell
    by_cases still : left = 0
    · cases raw <;> cases cooked <;>
        simp [Algorithm.settle, asymEagerDeferPk, Visit.cell, debounceElapsed, still, positive.ne']
    · cases raw <;> cases cooked <;> cases pressed <;>
        simp [Algorithm.settle, asymEagerDeferPk, Visit.cell, debounceElapsed, still]
  update_settled elapsedTime raw counter cooked settled unasked := by
    obtain ⟨pressed, left⟩ := counter
    by_cases still : left = 0
    · subst still
      exact settled
    · by_cases expires : left ≤ elapsedTime
      · cases pressed with
        | true => simp [asymEagerDeferPk, debounceElapsed, still, expires] at unasked
        | false =>
          simp [Algorithm.settle, Algorithm.advance, asymEagerDeferPk, Visit.cell,
            debounceElapsed, still, expires]
      · have runs : left - elapsedTime ≠ 0 := by omega
        cases raw <;> cases cooked <;> cases pressed <;>
          simp [Algorithm.settle, Algorithm.advance, asymEagerDeferPk, Visit.cell,
            debounceElapsed, still, expires, runs, Ne.symm still] at settled ⊢
  start_settled cooked := by
    simp [Algorithm.settle, asymEagerDeferPk, Visit.cell, debounceElapsed]

/-- What a scan makes of a key that rests. -/
theorem asymEagerDeferPk_step_rest (gap : Nat) (raw pressed cooked : Bool) :
    (asymEagerDeferPk debounceTime).step gap raw ⟨⟨pressed, 0⟩, cooked⟩ =
      if raw = cooked then ⟨⟨pressed, 0⟩, cooked⟩ else ⟨⟨raw, debounceTime⟩, true⟩ := by
  cases raw <;> cases cooked <;>
    simp [Algorithm.step, Algorithm.settle, Algorithm.advance, asymEagerDeferPk, Visit.cell,
      debounceElapsed]

/-- What a scan makes of a key that is locked behind its press. -/
theorem asymEagerDeferPk_step_locked (short : debounceTime ≤ 255) (gap : Nat) (raw : Bool)
    {left : Nat} (runs : 0 < left) (small : left ≤ debounceTime) :
    (asymEagerDeferPk debounceTime).step gap raw ⟨⟨true, left⟩, true⟩ =
      if left ≤ gap then
        if raw then ⟨⟨true, 0⟩, true⟩ else ⟨⟨false, debounceTime⟩, true⟩
      else ⟨⟨true, left - gap⟩, true⟩ := by
  have clamped : left ≤ min gap 255 ↔ left ≤ gap := by omega
  by_cases expires : left ≤ gap
  · cases raw <;>
      simp [Algorithm.step, Algorithm.settle, Algorithm.advance, asymEagerDeferPk, Visit.cell,
        debounceElapsed, runs.ne', clamped, expires]
  · have unclamped : min gap 255 = gap := by omega
    have more : left - gap ≠ 0 := by omega
    cases raw <;>
      simp [Algorithm.step, Algorithm.settle, Algorithm.advance, asymEagerDeferPk, Visit.cell,
        debounceElapsed, runs.ne', unclamped, expires, more]

/-- What a scan makes of a key whose release waits. -/
theorem asymEagerDeferPk_step_waiting (short : debounceTime ≤ 255) (gap : Nat) (raw : Bool)
    {left : Nat} (runs : 0 < left) (small : left ≤ debounceTime) :
    (asymEagerDeferPk debounceTime).step gap raw ⟨⟨false, left⟩, true⟩ =
      if left ≤ gap then ⟨⟨false, 0⟩, raw⟩
      else if raw then ⟨⟨false, 0⟩, true⟩ else ⟨⟨false, left - gap⟩, true⟩ := by
  have clamped : left ≤ min gap 255 ↔ left ≤ gap := by omega
  by_cases expires : left ≤ gap
  · cases raw <;>
      simp [Algorithm.step, Algorithm.settle, Algorithm.advance, asymEagerDeferPk, Visit.cell,
        debounceElapsed, runs.ne', clamped, expires]
  · have unclamped : min gap 255 = gap := by omega
    have more : left - gap ≠ 0 := by omega
    cases raw <;>
      simp [Algorithm.step, Algorithm.settle, Algorithm.advance, asymEagerDeferPk, Visit.cell,
        debounceElapsed, runs.ne', unclamped, expires, more]

/-- The report goes from released to pressed at the scan behind `s`. -/
def PressedAt (report : Nat → Bool) (s : Nat) : Prop := report s = false ∧ report (s + 1) = true

/-- The state of a key behind `n` scans. -/
inductive Directed (debounceTime : Nat) (bit : Nat → Bool) (time : Nat → Nat)
    (report : Nat → Bool) (n : Nat) : DirectedCounter → Prop
  /-- It is reported as it is, and out of the lock of every press. -/
  | rests {pressed : Bool} (same : report n = bit n)
      (free : ∀ s < n, PressedAt report s → time (s + 1) + debounceTime ≤ time n) :
      Directed debounceTime bit time report n ⟨pressed, 0⟩
  /-- The counter holds what is left of the lock of its last press. -/
  | locked {left s : Nat} (runs : 0 < left) (down : report n = true) (earlier : s < n)
      (press : PressedAt report s) (later : time (s + 1) ≤ time n)
      (ends : time n + left = time (s + 1) + debounceTime)
      (free : ∀ s < n, PressedAt report s → time (s + 1) + debounceTime ≤ time n + left) :
      Directed debounceTime bit time report n ⟨true, left⟩
  /-- The counter holds what is left of the time since the scan behind `r`, the first at
  which the key was up and out of its lock. -/
  | waits {left r : Nat} (runs : 0 < left) (down : report n = true) (earlier : r < n)
      (up : ∀ m, r < m → m ≤ n → bit m = false) (later : time (r + 1) ≤ time n)
      (ends : time n + left = time (r + 1) + debounceTime)
      (free : ∀ s < n, PressedAt report s → time (s + 1) + debounceTime ≤ time (r + 1))
      (first : bit r = true ∨
        ∃ s < r, PressedAt report s ∧ time r < time (s + 1) + debounceTime) :
      Directed debounceTime bit time report n ⟨false, left⟩

/-- What a key reports behind `n` scans. -/
def directedReport (debounceTime : Nat) (bit : Nat → Bool) (time : Nat → Nat) (n : Nat) : Bool :=
  ((asymEagerDeferPk debounceTime).track bit time n).cooked

/-- The counter of a key behind `n` scans. -/
def directedCounter (debounceTime : Nat) (bit : Nat → Bool) (time : Nat → Nat) (n : Nat) :
    DirectedCounter :=
  ((asymEagerDeferPk debounceTime).track bit time n).counter

theorem directed_step (n : Nat) :
    (⟨directedCounter debounceTime bit time (n + 1), directedReport debounceTime bit time (n + 1)⟩ :
        Cell DirectedCounter Bool) =
      (asymEagerDeferPk debounceTime).step (time (n + 1) - time n) (bit (n + 1))
        ⟨directedCounter debounceTime bit time n, directedReport debounceTime bit time n⟩ := rfl

/-- A key that is reported as pressed is no longer pressed at a later scan. -/
theorem not_pressedAt_of_down {report : Nat → Bool} {n : Nat} (down : report n = true) :
    ¬PressedAt report n := by
  rintro ⟨up, -⟩
  rw [down] at up
  cases up

theorem directed_track (positive : 0 < debounceTime) (short : debounceTime ≤ 255)
    (spaced : Spaced width time) (n : Nat) :
    Directed debounceTime bit time (directedReport debounceTime bit time) n
      (directedCounter debounceTime bit time n) := by
  induction n with
  | zero => exact .rests rfl fun s none => absurd none (Nat.not_lt_zero s)
  | succ n ih =>
    have stepped : (⟨directedCounter debounceTime bit time (n + 1),
      directedReport debounceTime bit time (n + 1)⟩ : Cell DirectedCounter Bool) = _ :=
      directed_step n
    have passed (s : Nat) (inside : s < n) : time n ≤ time (n + 1) := (spaced n (by omega)).1
    generalize directedCounter debounceTime bit time n = counter at ih stepped
    generalize directedCounter debounceTime bit time (n + 1) = next at stepped ⊢
    cases ih with
    | @rests pressed same free =>
      rw [asymEagerDeferPk_step_rest] at stepped
      by_cases still : bit (n + 1) = directedReport debounceTime bit time n
      · rw [if_pos still, Cell.mk.injEq] at stepped
        obtain ⟨rfl, report⟩ := stepped
        refine .rests (report.trans still.symm) fun s inside press => ?_
        rcases Nat.lt_succ_iff_lt_or_eq.mp inside with inner | rfl
        · exact (free s inner press).trans (passed s inner)
        · exact absurd (press.1.symm.trans report.symm |>.trans press.2) Bool.false_ne_true
      · rw [if_neg still, Cell.mk.injEq] at stepped
        obtain ⟨rfl, report⟩ := stepped
        cases down : directedReport debounceTime bit time n with
        | true =>
          have up : bit (n + 1) = false := by
            rw [down] at still
            exact Bool.eq_false_iff.mpr still
          rw [up]
          refine .waits positive report (Nat.lt_succ_self n) ?_ le_rfl rfl ?_
            (.inl (same.symm.trans down))
          · intro m above below
            obtain rfl : m = n + 1 := by omega
            exact up
          · intro s inside press
            rcases Nat.lt_succ_iff_lt_or_eq.mp inside with inner | rfl
            · exact (free s inner press).trans (passed s inner)
            · exact absurd press (not_pressedAt_of_down down)
        | false =>
          have pressed : bit (n + 1) = true := by
            rw [down] at still
            exact Bool.eq_true_of_not_eq_false still
          rw [pressed]
          refine .locked positive report (Nat.lt_succ_self n) ⟨down, report⟩ le_rfl rfl ?_
          intro s inside press
          rcases Nat.lt_succ_iff_lt_or_eq.mp inside with inner | rfl
          · have ends := free s inner press
            have later := passed s inner
            omega
          · exact le_rfl
    | @locked left s runs down earlier press later ends free =>
      have gone := passed s earlier
      rw [down, asymEagerDeferPk_step_locked short _ _ runs (by omega)] at stepped
      have older (s' : Nat) (inside : s' < n + 1)
          (press' : PressedAt (directedReport debounceTime bit time) s') :
          time (s' + 1) + debounceTime ≤ time n + left := by
        rcases Nat.lt_succ_iff_lt_or_eq.mp inside with inner | rfl
        · exact free s' inner press'
        · exact absurd press' (not_pressedAt_of_down down)
      by_cases expires : left ≤ time (n + 1) - time n
      · rw [if_pos expires] at stepped
        cases raw : bit (n + 1) with
        | true =>
          rw [if_pos raw, Cell.mk.injEq] at stepped
          obtain ⟨rfl, report⟩ := stepped
          refine .rests (report.trans raw.symm) fun s' inside press' => ?_
          have bound := older s' inside press'
          omega
        | false =>
          rw [if_neg (by rw [raw]; exact Bool.false_ne_true), Cell.mk.injEq] at stepped
          obtain ⟨rfl, report⟩ := stepped
          refine .waits positive report (Nat.lt_succ_self n) ?_ le_rfl rfl ?_
            (.inr ⟨s, earlier, press, by omega⟩)
          · intro m above below
            obtain rfl : m = n + 1 := by omega
            exact raw
          · intro s' inside press'
            have bound := older s' inside press'
            omega
      · rw [if_neg expires, Cell.mk.injEq] at stepped
        obtain ⟨rfl, report⟩ := stepped
        refine .locked (by omega) report (by omega) press (later.trans gone) (by omega) ?_
        intro s' inside press'
        have bound := older s' inside press'
        omega
    | @waits left r runs down earlier up later ends free first =>
      have gone := passed r earlier
      rw [down, asymEagerDeferPk_step_waiting short _ _ runs (by omega)] at stepped
      have older (s : Nat) (inside : s < n + 1)
          (press : PressedAt (directedReport debounceTime bit time) s) :
          time (s + 1) + debounceTime ≤ time (r + 1) := by
        rcases Nat.lt_succ_iff_lt_or_eq.mp inside with inner | rfl
        · exact free s inner press
        · exact absurd press (not_pressedAt_of_down down)
      have rested (s : Nat) (inside : s < n + 1)
          (press : PressedAt (directedReport debounceTime bit time) s) :
          time (s + 1) + debounceTime ≤ time (n + 1) :=
        (older s inside press).trans (later.trans gone)
      by_cases expires : left ≤ time (n + 1) - time n
      · rw [if_pos expires, Cell.mk.injEq] at stepped
        obtain ⟨rfl, report⟩ := stepped
        exact .rests report rested
      · rw [if_neg expires] at stepped
        cases raw : bit (n + 1) with
        | true =>
          rw [if_pos raw, Cell.mk.injEq] at stepped
          obtain ⟨rfl, report⟩ := stepped
          exact .rests (report.trans raw.symm) rested
        | false =>
          rw [if_neg (by rw [raw]; exact Bool.false_ne_true), Cell.mk.injEq] at stepped
          obtain ⟨rfl, report⟩ := stepped
          refine .waits (by omega) report (by omega) ?_ (later.trans gone) (by omega) older first
          intro m above below
          rcases Nat.lt_or_ge n m with last | inner
          · obtain rfl : m = n + 1 := by omega
            exact raw
          · exact up m above inner

/-- A key that is pressed is reported as pressed. -/
theorem directedReport_of_pressed (positive : 0 < debounceTime) (short : debounceTime ≤ 255)
    (spaced : Spaced width time) {n : Nat} (pressed : bit n = true) :
    directedReport debounceTime bit time n = true := by
  have directed : Directed debounceTime bit time _ n _ :=
    directed_track positive short spaced n
  generalize directedCounter debounceTime bit time n = counter at directed
  cases directed with
  | rests same free => exact same.trans pressed
  | locked runs down => exact down
  | waits runs down => exact down

/-- A report that differs from the key is of a key that is up, and a counter runs. -/
theorem bit_of_pressedAt (positive : 0 < debounceTime) (short : debounceTime ≤ 255)
    (spaced : Spaced width time) {n : Nat}
    (press : PressedAt (directedReport debounceTime bit time) n) : bit (n + 1) = true := by
  have directed : Directed debounceTime bit time _ n _ :=
    directed_track positive short spaced n
  have stepped : (⟨directedCounter debounceTime bit time (n + 1),
    directedReport debounceTime bit time (n + 1)⟩ : Cell DirectedCounter Bool) = _ :=
    directed_step n
  generalize directedCounter debounceTime bit time n = counter at directed stepped
  cases directed with
  | rests same free =>
    rw [asymEagerDeferPk_step_rest, press.1, press.2] at stepped
    by_contra up
    rw [if_pos (Bool.eq_false_iff.mpr up), Cell.mk.injEq] at stepped
    exact Bool.false_ne_true stepped.2.symm
  | locked runs down => exact absurd press (not_pressedAt_of_down down)
  | waits runs down => exact absurd press (not_pressedAt_of_down down)

/-- A release is reported once the key has been up for the debounce time, out of the
lock of every press before. -/
theorem directed_release (positive : 0 < debounceTime) (short : debounceTime ≤ 255)
    (spaced : Spaced width time) {n : Nat}
    (down : directedReport debounceTime bit time n = true)
    (up : directedReport debounceTime bit time (n + 1) = false) :
    ∃ r ≤ n, (∀ m, r < m → m ≤ n + 1 → bit m = false) ∧
      time (r + 1) + debounceTime ≤ time (n + 1) ∧
      ∀ s < n, PressedAt (directedReport debounceTime bit time) s →
        time (s + 1) + debounceTime ≤ time (r + 1) := by
  have directed : Directed debounceTime bit time _ n _ :=
    directed_track positive short spaced n
  have stepped : (⟨directedCounter debounceTime bit time (n + 1),
    directedReport debounceTime bit time (n + 1)⟩ : Cell DirectedCounter Bool) = _ :=
    directed_step n
  rw [up] at stepped
  generalize directedCounter debounceTime bit time n = counter at directed stepped
  cases directed with
  | rests same free =>
    rw [asymEagerDeferPk_step_rest, down] at stepped
    split at stepped <;> exact absurd (congrArg Cell.cooked stepped) Bool.false_ne_true
  | locked runs _ earlier press later ends free =>
    rw [down, asymEagerDeferPk_step_locked short _ _ runs (by omega)] at stepped
    split at stepped
    · split at stepped <;> exact absurd (congrArg Cell.cooked stepped) Bool.false_ne_true
    · exact absurd (congrArg Cell.cooked stepped) Bool.false_ne_true
  | @waits left r runs _ earlier released later ends free first =>
    have gone := (spaced n (by omega)).1
    rw [down, asymEagerDeferPk_step_waiting short _ _ runs (by omega)] at stepped
    by_cases expires : left ≤ time (n + 1) - time n
    · rw [if_pos expires] at stepped
      refine ⟨r, earlier.le, ?_, by omega, free⟩
      intro m above below
      rcases Nat.lt_or_ge n m with last | inner
      · obtain rfl : m = n + 1 := by omega
        exact (congrArg Cell.cooked stepped).symm
      · exact released m above inner
    · rw [if_neg expires] at stepped
      split at stepped <;> exact absurd (congrArg Cell.cooked stepped) Bool.false_ne_true

/-- A key that stays as it is from scan `s` on is reported so at every scan that is the
debounce time behind one that is the debounce time behind it. -/
theorem directed_settles (positive : 0 < debounceTime) (short : debounceTime ≤ 255)
    (spaced : Spaced width time) {s e f : Nat} (first : 1 ≤ s) (early : s ≤ e) (late : e ≤ f)
    (stays : ∀ m, s ≤ m → m ≤ f → bit m = bit s) (lock : time s + debounceTime ≤ time e)
    (release : time e + debounceTime ≤ time f) :
    directedReport debounceTime bit time f = bit f := by
  cases raw : bit f with
  | true => exact directedReport_of_pressed positive short spaced raw
  | false =>
    have up (m : Nat) (above : s ≤ m) (below : m ≤ f) : bit m = false := by
      rw [stays m above below, ← stays f (early.trans late) le_rfl, raw]
    -- every press lies before the key stays up
    have before (p : Nat) (inside : p < f)
        (press : PressedAt (directedReport debounceTime bit time) p) : time (p + 1) ≤ time s := by
      have pressed := bit_of_pressedAt positive short spaced press
      refine spaced.mono (Nat.le_add_left 1 p) ?_
      by_contra behind
      rw [up (p + 1) (by omega) inside] at pressed
      cases pressed
    have passed := spaced.mono (first.trans early) late
    have directed : Directed debounceTime bit time _ f _ :=
      directed_track positive short spaced f
    generalize directedCounter debounceTime bit time f = counter at directed
    cases directed with
    | rests same free => exact same.trans raw
    | @locked left p runs _ earlier press later ends free =>
      have old := before p earlier press
      omega
    | @waits left r runs _ earlier released later ends free start =>
      rcases Nat.lt_or_ge e (r + 1) with behind | inner
      · have held : time e ≤ time r := spaced.mono (first.trans early) (by omega)
        rcases start with pressed | ⟨p, inside, press, locks⟩
        · rw [up r (by omega) earlier.le] at pressed
          cases pressed
        · have old := before p (by omega) press
          omega
      · have old := spaced.mono (Nat.le_add_left 1 r) inner
        omega

end OneKey

/-- What `asym_eager_defer_pk` reports behind `n` scans. -/
def directedKeys {rows cols : Nat} (debounceTime width : Nat) (raw : Nat → Rows rows cols)
    (time : Nat → Nat) (n : Nat) : Rows rows cols :=
  (after (asymEagerDeferPk debounceTime) width raw time n :
    State rows cols width (keys rows cols) DirectedCounter).cooked

theorem keyBit_directedKeys {rows cols debounceTime width : Nat} (positive : 0 < debounceTime)
    (raw : Nat → Rows rows cols) {time : Nat → Nat} (spaced : Spaced width time) (n : Nat)
    (key : Fin rows × Fin cols) :
    keyBit (directedKeys debounceTime width raw time n) key =
      directedReport debounceTime (fun m => keyBit (raw m) key) time n :=
  read_after (keys rows cols) (asymEagerDeferPk_lawful positive) raw spaced n key

/-- A pressed key is reported in the same scan, and for at least the debounce time. Its
release is reported at a scan at which it has been up for that time since its locks
ended. A key that stays as it is is reported so once a scan has ended its lock and a
later one its release, each with the debounce time before it. -/
theorem directed_reports {rows cols debounceTime width : Nat} (positive : 0 < debounceTime)
    (short : debounceTime ≤ 127) (raw : Nat → Rows rows cols) (time : Nat → Nat)
    (spaced : Spaced width time) (key : Fin rows × Fin cols) :
    (∀ n, keyBit (raw n) key = true →
        keyBit (directedKeys debounceTime width raw time n) key = true) ∧
      (∀ p n, p < n →
        PressedAt (fun m => keyBit (directedKeys debounceTime width raw time m) key) p →
        keyBit (directedKeys debounceTime width raw time n) key = true →
        keyBit (directedKeys debounceTime width raw time (n + 1)) key = false →
        time (p + 1) + debounceTime ≤ time (n + 1)) ∧
      (∀ n, keyBit (directedKeys debounceTime width raw time n) key = true →
        keyBit (directedKeys debounceTime width raw time (n + 1)) key = false →
        ∃ r ≤ n, (∀ m, r < m → m ≤ n + 1 → keyBit (raw m) key = false) ∧
          time (r + 1) + debounceTime ≤ time (n + 1) ∧
          ∀ p < n, PressedAt
              (fun m => keyBit (directedKeys debounceTime width raw time m) key) p →
            time (p + 1) + debounceTime ≤ time (r + 1)) ∧
      ∀ s e f, 1 ≤ s → s ≤ e → e ≤ f →
        (∀ m, s ≤ m → m ≤ f → keyBit (raw m) key = keyBit (raw s) key) →
        time s + debounceTime ≤ time e → time e + debounceTime ≤ time f →
        keyBit (directedKeys debounceTime width raw time f) key = keyBit (raw f) key := by
  have clamp : debounceTime ≤ 255 := by omega
  simp only [keyBit_directedKeys positive raw spaced]
  refine ⟨fun n pressed => directedReport_of_pressed positive clamp spaced pressed, ?_,
    fun n down up => directed_release positive clamp spaced down up,
    fun s e f first early late stays lock release =>
      directed_settles positive clamp spaced first early late stays lock release⟩
  intro p n inside press down up
  obtain ⟨r, -, -, lasts, free⟩ := directed_release positive clamp spaced down up
  have locked := free p inside press
  omega

theorem held_key_directed :
    keyBit (directedKeys 5 16 heldKey everyFour 5) (0, 0) = keyBit (heldKey 5) (0, 0) :=
  (directed_reports (by decide : 0 < 5) (by decide) heldKey everyFour everyFour_spaced
    (0, 0)).2.2.2 1 3 5 (by decide) (by decide) (by decide)
    (fun m above below => by interval_cases m <;> decide +kernel) (by decide) (by decide)

/-- A key pressed in the first scan only. -/
def tappedKey (n : Nat) : Rows 1 1 := fun _ => if n = 1 then 1 else 0

/-- Scans at 1, 2 and 13. -/
def sparse (n : Nat) : Nat := if n ≤ 2 then n else 10 + n

/-- The key stays up from time 2 on, and is still reported as pressed at time 13, more
than twice the debounce time of 5 later: that scan ends the lock only. -/
theorem tapped_key_outlasts :
    Spaced 16 sparse ∧ (∀ n : Nat, 2 ≤ n → keyBit (tappedKey n) (0, 0) = false) ∧
      sparse 2 + 2 * 5 ≤ sparse 3 ∧
      keyBit (directedKeys 5 16 tappedKey sparse 3) (0, 0) = true := by
  refine ⟨fun n _ => ?_, fun n later => ?_, by decide, by decide +kernel⟩
  · unfold sparse
    split <;> split <;> omega
  · have apart : n ≠ 1 := by omega
    simp [keyBit, tappedKey, apart]

end QmkSonix.Debounce
