import QmkSonix.Keyboard.Task
import QmkSonix.Lib.Run

/-! Every key is reported pressed and released in turn, and no change that stays
is lost. -/

namespace QmkSonix.Keyboard

open QmkSonix.Lib

/-- Whether the last event of a key was its press. -/
def lastPressed (events : List KeyEvent) : Bool := (events.getLast?.map KeyEvent.pressed).getD false

section Events

variable {events : List KeyEvent} {event : KeyEvent}

theorem lastPressed_append (events : List KeyEvent) (event : KeyEvent) :
    lastPressed (events ++ [event]) = event.pressed := by
  simp [lastPressed]

theorem Alternates.append (alternates : Alternates events)
    (turns : event.pressed = !lastPressed events) : Alternates (events ++ [event]) := by
  obtain ⟨chain, starts⟩ := alternates
  cases last : events.getLast? with
  | none =>
    obtain rfl := List.getLast?_eq_none_iff.mp last
    exact ⟨List.isChain_singleton event, by simpa [lastPressed] using turns⟩
  | some latest =>
    have latestPressed : lastPressed events = latest.pressed := by simp [lastPressed, last]
    constructor
    · refine List.isChain_append.mpr ⟨chain, List.isChain_singleton event, ?_⟩
      intro earlier isLast later isOnly
      obtain rfl : later = event := by simpa [eq_comm] using isOnly
      obtain rfl : earlier = latest := by simpa [last, eq_comm] using isLast
      rw [turns, latestPressed]
    · intro first isFirst
      apply starts first
      have some : events ≠ [] := by
        rintro rfl
        simp at last
      rwa [List.head?_append_of_ne_nil _ some] at isFirst

end Events

variable {board : Board}

theorem Board.cols_le_rowBits (board : Board) : board.matrixCols ≤ board.rowBits := by
  have fits := board.cols_fit
  unfold Board.rowBits
  split <;> [omega; split <;> omega]

/-- The state of a key in a matrix. -/
def Board.Matrix.isOn (matrix : board.Matrix) (r : Fin board.matrixRows)
    (c : Fin board.matrixCols) : Bool := (matrix r).getLsbD c

/-- The keys that two matrices tell apart. -/
def Board.Matrix.changed (matrix matrixPrev : board.Matrix) :
    Finset (Fin board.matrixRows × Fin board.matrixCols) :=
  Finset.univ.filter fun key => matrix.isOn key.1 key.2 ≠ matrixPrev.isOn key.1 key.2

section Keys

variable {scan : Scan board} {progress : Progress board} {r r' : Fin board.matrixRows}
  {c c' : Fin board.matrixCols}

theorem mask_ne_zero (row : BitVec board.rowBits) (c : Fin board.matrixCols) :
    (row &&& board.colMask c ≠ 0) ↔ row.getLsbD c = true := by
  have bound : (c : ℕ) < board.rowBits := lt_of_lt_of_le c.isLt board.cols_le_rowBits
  rw [Board.colMask, BitVec.and_twoPow]
  by_cases set : row.getLsbD c = true
  · rw [set, if_pos rfl]
    refine iff_of_true ?_ rfl
    intro zero
    have bit := congrArg (BitVec.getLsbD · c) zero
    simp [BitVec.getLsbD_twoPow, bound] at bit
  · simp [set]

theorem keyEvent_pressed (scan : Scan board) (progress : Progress board)
    (r : Fin board.matrixRows) (c : Fin board.matrixCols) :
    (board.keyEvent scan progress r c).pressed = scan.matrix.isOn r c := by
  have masked := mask_ne_zero (scan.matrix r) c
  rw [Board.Matrix.isOn, Bool.eq_iff_iff, ← masked]
  simp [Board.keyEvent]

theorem keyAt_inj : board.keyAt r c = board.keyAt r' c' ↔ r = r' ∧ c = c' := by
  have rows := board.rows_fit
  have cols := board.cols_fit
  constructor
  · intro same
    have row := congrArg (BitVec.toNat ∘ KeyPos.row) same
    have col := congrArg (BitVec.toNat ∘ KeyPos.col) same
    simp only [Function.comp, Board.keyAt, BitVec.toNat_ofNat] at row col
    omega
  · rintro ⟨rfl, rfl⟩
    rfl

theorem keyAt_ne_tick (r : Fin board.matrixRows) (c : ℕ) (time : BitVec 16) :
    (tickEvent time).key ≠ board.keyAt r c := by
  have rows := board.rows_fit
  intro same
  have row := congrArg (BitVec.toNat ∘ KeyPos.row) same
  simp only [Function.comp, tickEvent, Board.keyAt, BitVec.toNat_ofNat] at row
  have max : (255 : BitVec 8).toNat = 255 := rfl
  omega

/-- Only the key that is processed turns in `matrix_prev`. -/
theorem processKey_isOn (scan : Scan board) (progress : Progress board)
    (r r' : Fin board.matrixRows) (c c' : Fin board.matrixCols) :
    (board.processKey scan r c progress).matrixPrev.isOn r' c' =
      if r' = r ∧ c' = c then !progress.matrixPrev.isOn r' c' else progress.matrixPrev.isOn r' c' := by
  have bound : (c : ℕ) < board.rowBits := lt_of_lt_of_le c.isLt board.cols_le_rowBits
  unfold Board.Matrix.isOn Board.processKey Board.colMask
  by_cases row : r' = r
  · subst row
    by_cases col : c' = c
    · subst col
      simp [BitVec.getLsbD_twoPow, bound]
    · have apart : (c : ℕ) ≠ c' := fun same => col (Fin.ext same.symm)
      simp [BitVec.getLsbD_twoPow, col, apart]
  · simp [row]

/-- A key that differs is processed, again and again. -/
inductive Reports (scan : Scan board) : ℕ → Progress board → Progress board → Prop where
  | done (progress : Progress board) : Reports scan 0 progress progress
  | key {keys : ℕ} {progress final : Progress board} (r : Fin board.matrixRows)
      (c : Fin board.matrixCols) (differs : scan.matrix.isOn r c ≠ progress.matrixPrev.isOn r c)
      (rest : Reports scan keys (board.processKey scan r c progress) final) :
      Reports scan (keys + 1) progress final

variable {keys more : ℕ} {middle final : Progress board}

theorem Reports.trans (first : Reports scan keys progress middle)
    (second : Reports scan more middle final) : Reports scan (keys + more) progress final := by
  induction first with
  | done progress => rwa [Nat.zero_add]
  | key r c differs rest ih =>
    rw [Nat.add_right_comm]
    exact .key r c differs (ih second)

theorem Reports.one (r : Fin board.matrixRows) (c : Fin board.matrixCols)
    (differs : scan.matrix.isOn r c ≠ progress.matrixPrev.isOn r c) :
    Reports scan 1 progress (board.processKey scan r c progress) :=
  .key r c differs (.done _)

theorem processKey_agrees (differs : scan.matrix.isOn r c ≠ progress.matrixPrev.isOn r c) :
    (board.processKey scan r c progress).matrixPrev.isOn r c = scan.matrix.isOn r c := by
  rw [processKey_isOn, if_pos ⟨rfl, rfl⟩]
  exact (Bool.eq_not.mpr differs).symm

/-- A key that agrees with the matrix is left alone from then on. -/
theorem Reports.keeps (reports : Reports scan keys progress final)
    (agrees : progress.matrixPrev.isOn r c = scan.matrix.isOn r c) :
    final.matrixPrev.isOn r c = scan.matrix.isOn r c := by
  induction reports with
  | done progress => exact agrees
  | key r' c' differs rest ih =>
    apply ih
    rw [processKey_isOn, if_neg, agrees]
    rintro ⟨rfl, rfl⟩
    exact differs agrees.symm

/-- Every processed key takes one change away. -/
theorem Reports.changes (reports : Reports scan keys progress final) :
    (scan.matrix.changed final.matrixPrev).card + keys =
      (scan.matrix.changed progress.matrixPrev).card := by
  induction reports with
  | done progress => rfl
  | @key keys progress final r c differs rest ih =>
    have erased : scan.matrix.changed (board.processKey scan r c progress).matrixPrev =
        (scan.matrix.changed progress.matrixPrev).erase (r, c) := by
      ext ⟨r', c'⟩
      simp only [Board.Matrix.changed, Finset.mem_filter_univ, Finset.mem_erase, Prod.mk.injEq,
        processKey_isOn]
      by_cases same : r' = r ∧ c' = c
      · obtain ⟨rfl, rfl⟩ := same
        simp [Bool.eq_not.mpr differs]
      · simp [same]
    have member : (r, c) ∈ scan.matrix.changed progress.matrixPrev := by
      simpa [Board.Matrix.changed] using differs
    rw [← Finset.card_erase_add_one member, ← erased, ← ih, Nat.add_assoc]

/-- The events of the keys that are processed. -/
theorem Reports.events (reports : Reports scan keys progress final)
    (master : scan.shouldProcessKeypress = true) :
    ∃ events : List KeyEvent, final.executed = progress.executed ++ events ∧
      events.length = keys ∧
      ∀ event ∈ events, ∃ (r : Fin board.matrixRows) (c : Fin board.matrixCols),
        event.key = board.keyAt r c ∧ event.pressed = scan.matrix.isOn r c ∧
          scan.matrix.isOn r c ≠ progress.matrixPrev.isOn r c := by
  induction reports with
  | done progress => exact ⟨[], by simp, rfl, by simp⟩
  | @key keys progress final r c differs rest ih =>
    obtain ⟨events, executed, length, changes⟩ := ih
    refine ⟨board.keyEvent scan progress r c :: events, ?_, by rw [List.length_cons, length], ?_⟩
    · rw [executed, Board.processKey, if_pos master, List.append_assoc, List.singleton_append]
    · intro event member
      rcases List.mem_cons.mp member with rfl | later
      · exact ⟨r, c, rfl, keyEvent_pressed scan progress r c, differs⟩
      · obtain ⟨r', c', key, pressed, differs'⟩ := changes event later
        refine ⟨r', c', key, pressed, ?_⟩
        intro agrees
        apply differs'
        rw [processKey_isOn, if_neg, agrees]
        rintro ⟨rfl, rfl⟩
        exact differs agrees

theorem Reports.counted (reports : Reports scan keys progress final) :
    final.keysProcessed = progress.keysProcessed + BitVec.ofNat 8 keys := by
  induction reports with
  | done progress => simp
  | @key keys progress final r c differs rest ih =>
    have counted : (board.processKey scan r c progress).keysProcessed =
        progress.keysProcessed + 1#8 := rfl
    rw [ih, counted, BitVec.ofNat_add, BitVec.add_assoc, BitVec.add_comm 1#8]

end Keys

section Loops

variable {scan : Scan board}

/-- What a loop of `keyboard_task` does, from its start to its end: it processes
keys that differ, stops early only behind one, and otherwise never found enough of
them and leaves none of the keys that it is about. -/
structure Loop (scan : Scan board) (about : Fin board.matrixRows → Fin board.matrixCols → Prop)
    (progress : Progress board) (ended : Progress board × Bool) : Prop where
  reports : ∃ keys, Reports scan keys progress ended.1 ∧ (ended.2 = true → 0 < keys) ∧
    (ended.2 = false → ∀ count, 0 < count → count ≤ keys →
      board.enough (progress.keysProcessed + BitVec.ofNat 8 count) = false)
  agrees : ended.2 = false → ∀ r c, about r c →
    ended.1.matrixPrev.isOn r c = scan.matrix.isOn r c
  frame : ∀ r c, ¬about r c → ended.1.matrixPrev.isOn r c = progress.matrixPrev.isOn r c

variable {about others : Fin board.matrixRows → Fin board.matrixCols → Prop}
  {progress : Progress board} {ended : Progress board × Bool}

theorem Loop.skip (idle : ∀ r c, about r c → progress.matrixPrev.isOn r c = scan.matrix.isOn r c) :
    Loop scan about progress (progress, false) where
  reports := ⟨0, .done progress, by simp, fun _ count some none => by omega⟩
  agrees := fun _ => idle
  frame := fun _ _ _ => rfl

theorem Loop.jump (r : Fin board.matrixRows) (c : Fin board.matrixCols)
    (differs : scan.matrix.isOn r c ≠ progress.matrixPrev.isOn r c) :
    Loop scan (fun r' c' => r' = r ∧ c' = c) progress (board.processKey scan r c progress, true) where
  reports := ⟨1, .one r c differs, fun _ => Nat.one_pos, by simp⟩
  agrees := by simp
  frame := fun r' c' other => by rw [processKey_isOn, if_neg other]

theorem Loop.one (r : Fin board.matrixRows) (c : Fin board.matrixCols)
    (differs : scan.matrix.isOn r c ≠ progress.matrixPrev.isOn r c)
    (few : board.enough (board.processKey scan r c progress).keysProcessed = false) :
    Loop scan (fun r' c' => r' = r ∧ c' = c) progress
      (board.processKey scan r c progress, false) where
  reports := by
    refine ⟨1, .one r c differs, by simp, ?_⟩
    intro _ count some single
    obtain rfl : count = 1 := by omega
    exact few
  agrees := by
    rintro - r' c' ⟨rfl, rfl⟩
    exact processKey_agrees differs
  frame := fun r' c' other => by rw [processKey_isOn, if_neg other]

/-- A loop that goes on where another one ended. -/
theorem Loop.append {middle : Progress board} (first : Loop scan about progress (middle, false))
    (second : Loop scan others middle ended) :
    Loop scan (fun r c => about r c ∨ others r c) progress ended where
  reports := by
    obtain ⟨keys, reports, -, few⟩ := first.reports
    obtain ⟨more, later, jumps, fewer⟩ := second.reports
    refine ⟨keys + more, reports.trans later, fun jumped => Nat.add_pos_right _ (jumps jumped), ?_⟩
    intro ends count some within
    by_cases early : count ≤ keys
    · exact few rfl count some early
    · have late := fewer ends (count - keys) (by omega) (by omega)
      rw [reports.counted, BitVec.add_assoc, ← BitVec.ofNat_add,
        Nat.add_sub_cancel' (Nat.le_of_not_le early)] at late
      exact late
  agrees := by
    rintro ends r c (former | latter)
    · obtain ⟨more, later, -⟩ := second.reports
      exact later.keeps (first.agrees rfl r c former)
    · exact second.agrees ends r c latter
  frame := by
    intro r c neither
    rw [second.frame r c fun latter => neither (.inr latter)]
    exact first.frame r c fun former => neither (.inl former)

theorem Loop.congr (loop : Loop scan about progress ended)
    (same : ∀ r c, about r c ↔ others r c) : Loop scan others progress ended where
  reports := loop.reports
  agrees := fun ends r c other => loop.agrees ends r c ((same r c).mpr other)
  frame := fun r c neither => loop.frame r c (mt (same r c).mp neither)

/-- A loop that stopped early promises nothing about further keys. -/
theorem Loop.widen {stopped : Progress board} (loop : Loop scan about progress (stopped, true))
    (more : ∀ r c, about r c → others r c) : Loop scan others progress (stopped, true) where
  reports := loop.reports
  agrees := by simp
  frame := fun r c neither => loop.frame r c (mt (more r c) neither)

/-- The loop over the columns is about the changed keys of its row. -/
theorem scanColumns_loop (r : Fin board.matrixRows) (change : BitVec board.rowBits)
    (cols : List (Fin board.matrixCols)) (distinct : cols.Nodup) (progress : Progress board)
    (fresh : ∀ c ∈ cols, change.getLsbD c = true ↔
      scan.matrix.isOn r c ≠ progress.matrixPrev.isOn r c) :
    Loop scan (fun r' c' => r' = r ∧ c' ∈ cols) progress
      (board.scanColumns scan r change (cols.map Fin.val) progress) := by
  induction cols generalizing progress with
  | nil => exact .skip (by simp)
  | cons c rest ih =>
    obtain ⟨absent, distinctRest⟩ := List.nodup_cons.mp distinct
    rw [List.map_cons, Board.scanColumns]
    by_cases changed : change &&& board.colMask c ≠ 0
    · have differs := (fresh c List.mem_cons_self).mp ((mask_ne_zero change c).mp changed)
      have later : ∀ c' ∈ rest, change.getLsbD c' = true ↔
          scan.matrix.isOn r c' ≠ (board.processKey scan r c progress).matrixPrev.isOn r c' := by
        intro c' member
        rw [processKey_isOn, if_neg (by rintro ⟨-, rfl⟩; exact absent member)]
        exact fresh c' (List.mem_cons_of_mem c member)
      rw [if_pos changed]
      cases few : board.enough (board.processKey scan r c progress).keysProcessed with
      | true =>
        rw [if_pos few]
        exact (Loop.jump r c differs).widen (by rintro r' c' ⟨rfl, rfl⟩; simp)
      | false =>
        rw [if_neg (by rw [few]; decide)]
        refine ((Loop.one r c differs few).append (ih distinctRest _ later)).congr ?_
        intro r' c'
        rw [List.mem_cons, ← and_or_left]
    · have agrees : progress.matrixPrev.isOn r c = scan.matrix.isOn r c := by
        by_contra differs
        have set := (fresh c List.mem_cons_self).mpr (Ne.symm differs)
        exact changed ((mask_ne_zero change c).mpr set)
      have skip : Loop scan (fun r' c' => r' = r ∧ c' = c) progress (progress, false) :=
        .skip (by rintro r' c' ⟨rfl, rfl⟩; exact agrees)
      rw [if_neg changed]
      refine (skip.append (ih distinctRest progress fun c' member =>
        fresh c' (List.mem_cons_of_mem c member))).congr ?_
      intro r' c'
      rw [List.mem_cons, ← and_or_left]

theorem change_fresh (scan : Scan board) (progress : Progress board) (r : Fin board.matrixRows)
    (c : Fin board.matrixCols) :
    (scan.matrix r ^^^ progress.matrixPrev r).getLsbD c = true ↔
      scan.matrix.isOn r c ≠ progress.matrixPrev.isOn r c := by
  rw [BitVec.getLsbD_xor, Board.Matrix.isOn, Board.Matrix.isOn]
  exact Bool.xor_iff_ne

theorem scanRows_loop (rows : List (Fin board.matrixRows)) (distinct : rows.Nodup)
    (progress : Progress board) :
    Loop scan (fun r _ => r ∈ rows) progress (board.scanRows scan rows progress) := by
  induction rows generalizing progress with
  | nil => exact .skip (by simp)
  | cons r rest ih =>
    obtain ⟨absent, distinctRest⟩ := List.nodup_cons.mp distinct
    rw [Board.scanRows]
    have columns : List.range board.matrixCols = (List.finRange board.matrixCols).map Fin.val := by
      simp
    by_cases changed : scan.matrix r ^^^ progress.matrixPrev r ≠ 0
    · have row := scanColumns_loop r (scan.matrix r ^^^ progress.matrixPrev r)
        (List.finRange board.matrixCols) (List.nodup_finRange _) progress
        fun c _ => change_fresh scan progress r c
      rw [← columns] at row
      rw [if_pos changed]
      generalize board.scanColumns scan r (scan.matrix r ^^^ progress.matrixPrev r)
        (List.range board.matrixCols) progress = scanned at row ⊢
      obtain ⟨processed, jumped⟩ := scanned
      cases jumped with
      | true => exact row.widen (by simp +contextual)
      | false =>
        refine (row.append (ih distinctRest processed)).congr ?_
        intro r' c'
        simp
    · have agrees : ∀ c : Fin board.matrixCols,
          progress.matrixPrev.isOn r c = scan.matrix.isOn r c := by
        intro c
        by_contra differs
        have set := (change_fresh scan progress r c).mpr (Ne.symm differs)
        rw [not_ne_iff.mp changed] at set
        simp at set
      have skip : Loop scan (fun r' (_ : Fin board.matrixCols) => r' = r) progress
          (progress, false) := .skip (by rintro r' c rfl; exact agrees c)
      rw [if_neg changed]
      refine (skip.append (ih distinctRest progress)).congr ?_
      intro r' c'
      rw [List.mem_cons]

end Loops

section Calls

variable {scan : Scan board} {matrixPrev : board.Matrix}

theorem changed_empty {matrix : board.Matrix}
    (agrees : ∀ r c, matrixPrev.isOn r c = matrix.isOn r c) : matrix.changed matrixPrev = ∅ := by
  apply Finset.filter_eq_empty_iff.mpr
  rintro ⟨r, c⟩ -
  simp [agrees r c]

/-- With less than 256 keys for each scan the count of processed keys never wraps. -/
theorem few_keys {keys few : ℕ} (perScan : board.keysPerScan = some few) (small : few < 256)
    (ended : ∀ count, 0 < count → count ≤ keys → board.enough (BitVec.ofNat 8 count) = false)
    (wrapped : BitVec.ofNat 8 keys = 0) : keys = 0 := by
  have enough_iff : ∀ count, board.enough (BitVec.ofNat 8 count) = false ↔ count % 256 < few := by
    intro count
    simp [Board.enough, perScan]
  by_contra some
  have below : keys < few := by
    by_contra reached
    rcases Nat.eq_zero_or_pos few with rfl | positive
    · have first := (enough_iff 1).mp (ended 1 Nat.one_pos (by omega))
      omega
    · have last := (enough_iff few).mp (ended few positive (Nat.le_of_not_lt reached))
      omega
  have zero := congrArg BitVec.toNat wrapped
  rw [BitVec.toNat_ofNat] at zero
  have none : (0 : BitVec 8).toNat = 0 := rfl
  omega

/-- How a call ends: behind processed keys, or with a TICK when no change is left. -/
theorem keyboardTask_cases (board : Board) (matrixPrev : board.Matrix) (scan : Scan board) :
    ∃ keys final, Reports scan keys { matrixPrev := matrixPrev } final ∧
      (board.keyboardTask matrixPrev scan).matrixPrev = final.matrixPrev ∧
      ((0 < keys ∧ (board.keyboardTask matrixPrev scan).executed = final.executed) ∨
        (((∀ few ∈ board.keysPerScan, few < 256) → keys = 0) ∧
          scan.matrix.changed final.matrixPrev = ∅ ∧
          ∃ time, (board.keyboardTask matrixPrev scan).executed =
            final.executed ++ [tickEvent time])) := by
  have loop : Loop scan _ { matrixPrev := matrixPrev } _ :=
    scanRows_loop (List.finRange board.matrixRows) (List.nodup_finRange _) _
  unfold Board.keyboardTask
  generalize board.scanRows scan (List.finRange board.matrixRows) { matrixPrev := matrixPrev } =
    scanned at loop
  obtain ⟨final, jumped⟩ := scanned
  obtain ⟨keys, reports, some, few⟩ := loop.reports
  refine ⟨keys, final, reports, by dsimp only; split <;> rfl, ?_⟩
  cases jumped with
  | true => exact .inl ⟨some rfl, by simp⟩
  | false =>
    have counted := reports.counted
    have start : ∀ count : BitVec 8, 0 + count = count := fun count => by simp
    simp only [start] at counted few
    dsimp only
    split
    · rename_i processed
      simp only [Bool.false_or, Bool.and_eq_true, decide_eq_true_eq] at processed
      refine .inl ⟨Nat.pos_of_ne_zero ?_, rfl⟩
      rintro rfl
      exact processed.2 counted
    · rename_i none
      have agrees : ∀ r c, final.matrixPrev.isOn r c = scan.matrix.isOn r c :=
        fun r c => loop.agrees rfl r c (List.mem_finRange r)
      refine .inr ⟨?_, changed_empty agrees, _, rfl⟩
      intro small
      cases defined : board.keysPerScan with
      | none =>
        by_contra processed
        have jumps := few trivial 1 Nat.one_pos (Nat.pos_of_ne_zero processed)
        simp [Board.enough, defined] at jumps
      | some limit =>
        have zero : final.keysProcessed = 0 := by simpa [defined] using none
        exact few_keys defined (small limit defined) (few trivial) (counted.symm.trans zero)

end Calls

section Runs

variable {matrixPrev : board.Matrix} {events : List KeyEvent}

/-- Every key alternates, and `matrix_prev` holds what its last event said. -/
def Balanced (matrixPrev : board.Matrix) (events : List KeyEvent) : Prop :=
  ∀ (r : Fin board.matrixRows) (c : Fin board.matrixCols),
    Alternates (eventsOf (board.keyAt r c) events) ∧
      matrixPrev.isOn r c = lastPressed (eventsOf (board.keyAt r c) events)

theorem balanced_start (board : Board) : Balanced (fun _ => 0 : board.Matrix) [] := by
  intro r c
  exact ⟨⟨List.isChain_nil, by simp [eventsOf]⟩, by simp [Board.Matrix.isOn, eventsOf, lastPressed]⟩

theorem Balanced.tick (balanced : Balanced matrixPrev events) (time : BitVec 16) :
    Balanced matrixPrev (events ++ [tickEvent time]) := by
  intro r c
  rw [eventsOf_append_other (keyAt_ne_tick r c time)]
  exact balanced r c

theorem Balanced.key {scan : Scan board} {progress : Progress board} {r : Fin board.matrixRows}
    {c : Fin board.matrixCols} (balanced : Balanced progress.matrixPrev events)
    (differs : scan.matrix.isOn r c ≠ progress.matrixPrev.isOn r c) :
    Balanced (board.processKey scan r c progress).matrixPrev
      (events ++ [board.keyEvent scan progress r c]) := by
  intro r' c'
  rw [processKey_isOn]
  by_cases same : r' = r ∧ c' = c
  · obtain ⟨rfl, rfl⟩ := same
    obtain ⟨alternates, held⟩ := balanced r' c'
    have turns : (board.keyEvent scan progress r' c').pressed =
        !lastPressed (eventsOf (board.keyAt r' c') events) := by
      rw [keyEvent_pressed, ← held]
      exact Bool.eq_not.mpr differs
    have added : eventsOf (board.keyAt r' c') (events ++ [board.keyEvent scan progress r' c']) =
        eventsOf (board.keyAt r' c') events ++ [board.keyEvent scan progress r' c'] :=
      eventsOf_append_same (board.keyEvent scan progress r' c') events
    rw [if_pos ⟨rfl, rfl⟩, added, lastPressed_append, turns, held]
    exact ⟨alternates.append turns, rfl⟩
  · have other : (board.keyEvent scan progress r c).key ≠ board.keyAt r' c' := by
      intro key
      obtain ⟨rfl, rfl⟩ := keyAt_inj.mp key
      exact same ⟨rfl, rfl⟩
    rw [if_neg same, eventsOf_append_other other]
    exact balanced r' c'

theorem Reports.balanced {scan : Scan board} {keys : ℕ} {progress final : Progress board}
    (reports : Reports scan keys progress final) (master : scan.shouldProcessKeypress = true)
    (earlier : List KeyEvent) (balanced : Balanced progress.matrixPrev (earlier ++ progress.executed)) :
    Balanced final.matrixPrev (earlier ++ final.executed) := by
  induction reports with
  | done progress => exact balanced
  | @key keys progress final r c differs rest ih =>
    apply ih
    have executed : (board.processKey scan r c progress).executed =
        progress.executed ++ [board.keyEvent scan progress r c] := if_pos master
    rw [executed, ← List.append_assoc]
    exact balanced.key differs

theorem step_balanced {reported : Reported board} {scan : Scan board}
    (balanced : Balanced reported.matrixPrev reported.executed)
    (master : scan.shouldProcessKeypress = true) :
    Balanced (board.step reported scan).matrixPrev (board.step reported scan).executed := by
  obtain ⟨keys, final, reports, prev, ends⟩ :=
    keyboardTask_cases board reported.matrixPrev scan
  have processed := reports.balanced master reported.executed (by simpa using balanced)
  rw [Board.step, prev]
  rcases ends with ⟨-, executed⟩ | ⟨-, -, time, executed⟩
  · rwa [executed]
  · rw [executed, ← List.append_assoc]
    exact processed.tick time

/-- A call processes a changed key or finds none left. -/
theorem step_changes (board : Board) (reported : Reported board) (scan : Scan board) :
    (scan.matrix.changed (board.step reported scan).matrixPrev).card ≤
      (scan.matrix.changed reported.matrixPrev).card - 1 := by
  obtain ⟨keys, final, reports, prev, ends⟩ :=
    keyboardTask_cases board reported.matrixPrev scan
  have changes := reports.changes
  have stepped : (board.step reported scan).matrixPrev = final.matrixPrev := prev
  rw [stepped]
  dsimp only at changes
  rcases ends with ⟨some, -⟩ | ⟨-, none, -⟩
  · omega
  · rw [none, Finset.card_empty]
    exact Nat.zero_le _

theorem run_balanced (board : Board) {scans : List (Scan board)}
    (master : ∀ scan ∈ scans, scan.shouldProcessKeypress = true) :
    Balanced (run board.step {} scans).matrixPrev (run board.step {} scans).executed := by
  have keeps : ∀ (reported : Reported board) (scan : Scan board),
      Balanced reported.matrixPrev reported.executed → scan.shouldProcessKeypress = true →
      Balanced (board.step reported scan).matrixPrev (board.step reported scan).executed :=
    fun _ _ balanced alone => step_balanced balanced alone
  exact run_invariant keeps (balanced_start board) (along_of_mem master _)

/-- While the matrix stays the same, each call takes a change away. -/
theorem run_changes (matrix : board.Matrix) (scans : List (Scan board))
    (constant : ∀ scan ∈ scans, scan.matrix = matrix) (reported : Reported board) :
    (matrix.changed (run board.step reported scans).matrixPrev).card ≤
      (matrix.changed reported.matrixPrev).card - scans.length := by
  induction scans generalizing reported with
  | nil => exact Nat.le_refl _
  | cons scan rest ih =>
    have later := ih (fun scan member => constant scan (List.mem_cons_of_mem _ member))
      (board.step reported scan)
    have now := step_changes board reported scan
    rw [constant scan List.mem_cons_self] at now
    rw [run_cons, List.length_cons]
    omega

/-- What one call hands to `action_exec`: events of keys that differ from
`matrix_prev`, or a TICK. -/
structure CallEvents (matrixPrev matrix : board.Matrix) (executed : List KeyEvent) : Prop where
  only_changes : ∀ (r : Fin board.matrixRows) (c : Fin board.matrixCols),
    matrixPrev.isOn r c = matrix.isOn r c → eventsOf (board.keyAt r c) executed = []
  key_or_tick : (∃ (r : Fin board.matrixRows) (c : Fin board.matrixCols),
      eventsOf (board.keyAt r c) executed ≠ []) ∨
    ∃ time, executed = [tickEvent time]
  never_both : (∀ few ∈ board.keysPerScan, few < 256) →
    (∀ event ∈ executed, ∃ (r : Fin board.matrixRows) (c : Fin board.matrixCols),
      event.key = board.keyAt r c) ∨ ∃ time, executed = [tickEvent time]

theorem keyboardTask_events (board : Board) (matrixPrev : board.Matrix) {scan : Scan board}
    (master : scan.shouldProcessKeypress = true) :
    CallEvents matrixPrev scan.matrix (board.keyboardTask matrixPrev scan).executed := by
  obtain ⟨keys, final, reports, prev, ends⟩ := keyboardTask_cases board matrixPrev scan
  obtain ⟨events, executed, length, changes⟩ := reports.events master
  rw [List.nil_append] at executed
  have unchanged : ∀ (r : Fin board.matrixRows) (c : Fin board.matrixCols),
      matrixPrev.isOn r c = scan.matrix.isOn r c → eventsOf (board.keyAt r c) events = [] := by
    intro r c agrees
    apply List.filter_eq_nil_iff.mpr
    intro event member
    obtain ⟨r', c', key, -, differs⟩ := changes event member
    simp only [decide_eq_true_eq]
    intro same
    obtain ⟨rfl, rfl⟩ := keyAt_inj.mp (key.symm.trans same)
    exact differs agrees.symm
  have reported : 0 < keys → ∃ (r : Fin board.matrixRows) (c : Fin board.matrixCols),
      eventsOf (board.keyAt r c) events ≠ [] := by
    intro some
    obtain ⟨event, member⟩ := List.exists_mem_of_length_pos (length.symm ▸ some)
    obtain ⟨r, c, key, -⟩ := changes event member
    refine ⟨r, c, List.ne_nil_of_mem (a := event) ?_⟩
    simp [eventsOf, member, key]
  rcases ends with ⟨some, only⟩ | ⟨few, -, time, ticked⟩
  · rw [only, executed]
    refine ⟨unchanged, .inl (reported some), fun _ => .inl ?_⟩
    intro event member
    obtain ⟨r, c, key, -⟩ := changes event member
    exact ⟨r, c, key⟩
  · rw [ticked, executed]
    constructor
    · intro r c agrees
      rw [eventsOf_append_other (keyAt_ne_tick r c time)]
      exact unchanged r c agrees
    · rcases Nat.eq_zero_or_pos keys with rfl | some
      · exact .inr ⟨time, by rw [List.eq_nil_of_length_eq_zero length, List.nil_append]⟩
      · obtain ⟨r, c, event⟩ := reported some
        refine .inl ⟨r, c, ?_⟩
        rwa [eventsOf_append_other (keyAt_ne_tick r c time)]
    · intro small
      rw [few small] at length
      exact .inr ⟨time, by rw [List.eq_nil_of_length_eq_zero length, List.nil_append]⟩

/-- Over every run of `keyboard_task` the events of each key alternate from a press
on and `matrix_prev` says what its last event was; each call hands over events of
changed keys or a TICK; and while the matrix stays the same, as many calls as keys
have changed report them all. -/
theorem matrix_to_events (board : Board) (scans : List (Scan board))
    (master : ∀ scan ∈ scans, scan.shouldProcessKeypress = true) :
    (∀ (r : Fin board.matrixRows) (c : Fin board.matrixCols),
      Alternates (eventsOf (board.keyAt r c) (run board.step {} scans).executed) ∧
        (run board.step {} scans).matrixPrev.isOn r c =
          lastPressed (eventsOf (board.keyAt r c) (run board.step {} scans).executed)) ∧
      (∀ earlier scan later, scans = earlier ++ scan :: later →
        CallEvents (run board.step {} earlier).matrixPrev scan.matrix
          (board.keyboardTask (run board.step {} earlier).matrixPrev scan).executed) ∧
      ∀ earlier later matrix, scans = earlier ++ later → (∀ scan ∈ later, scan.matrix = matrix) →
        (matrix.changed (run board.step {} earlier).matrixPrev).card ≤ later.length →
        ∀ (r : Fin board.matrixRows) (c : Fin board.matrixCols),
          (run board.step {} scans).matrixPrev.isOn r c = matrix.isOn r c ∧
            lastPressed (eventsOf (board.keyAt r c) (run board.step {} scans).executed) =
              matrix.isOn r c := by
  have balanced := run_balanced board master
  refine ⟨balanced, ?_, ?_⟩
  · rintro earlier scan later rfl
    exact keyboardTask_events board _ (master scan (by simp))
  · rintro earlier later matrix rfl constant enough r c
    have none : (matrix.changed (run board.step {} (earlier ++ later)).matrixPrev).card = 0 := by
      have fewer := run_changes matrix later constant (run board.step {} earlier)
      rw [← run_append] at fewer
      omega
    have agrees : (run board.step {} (earlier ++ later)).matrixPrev.isOn r c = matrix.isOn r c := by
      by_contra differs
      have member : (r, c) ∈ matrix.changed (run board.step {} (earlier ++ later)).matrixPrev := by
        simpa [Board.Matrix.changed] using Ne.symm differs
      rw [Finset.card_eq_zero.mp none] at member
      exact absurd member (Finset.notMem_empty _)
    exact ⟨agrees, (balanced r c).2.symm.trans agrees⟩

/-- One row of two keys, a key processed in each scan. -/
def pair : Board where
  matrixRows := 1
  matrixCols := 2
  keysPerScan := none
  rows_fit := by decide
  cols_fit := (by decide : 1 + 1 ≤ 32)

/-- Both keys are pressed and stay down. -/
def chord : Scan pair := { matrix := fun _ => 3, shouldProcessKeypress := true, timerRead := fun _ => 7 }

def onlyRow : Fin pair.matrixRows := ⟨0, by decide⟩

def lastColumn : Fin pair.matrixCols := ⟨1, by decide⟩

theorem chord_reported :
    (run pair.step {} [chord, chord]).matrixPrev.isOn onlyRow lastColumn = true ∧
      lastPressed (eventsOf (pair.keyAt onlyRow lastColumn)
        (run pair.step {} [chord, chord]).executed) = true :=
  (matrix_to_events pair [chord, chord] (by simp [chord])).2.2 [] [chord, chord] chord.matrix rfl
    (by simp) (by decide) onlyRow lastColumn

end Runs

end QmkSonix.Keyboard
