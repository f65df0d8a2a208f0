import Mathlib

/-! An array that is used up to a count: loops that shift a part of it down, and a sweep that
removes cells while it goes through them. -/

namespace QmkSonix.Lib

section Shift

variable {Cell : Type*}

/-- The cells that are used. -/
def window (cells : ℕ → Cell) (count : ℕ) : List Cell := (List.range count).map cells

@[simp] theorem length_window (cells : ℕ → Cell) (count : ℕ) :
    (window cells count).length = count := by
  simp [window]

@[simp] theorem getElem_window (cells : ℕ → Cell) (count i : ℕ)
    (below : i < (window cells count).length) : (window cells count)[i] = cells i := by
  simp [window]

theorem mem_window {cells : ℕ → Cell} {count : ℕ} {cell : Cell} :
    cell ∈ window cells count ↔ ∃ i < count, cells i = cell := by
  simp [window]

theorem window_succ (cells : ℕ → Cell) (count : ℕ) :
    window cells (count + 1) = window cells count ++ [cells count] := by
  simp [window, List.range_succ]

theorem window_eq_append (cells : ℕ → Cell) {count : ℕ} (some : 0 < count) :
    window cells count = window cells (count - 1) ++ [cells (count - 1)] := by
  rw [← window_succ, Nat.sub_add_cancel some]

theorem window_congr {cells other : ℕ → Cell} {count : ℕ} (same : ∀ i < count, cells i = other i) :
    window cells count = window other count :=
  List.map_congr_left fun i member => same i (List.mem_range.mp member)

/-- A loop that pulls each cell from `first` to before `last` down by one, and leaves `fill`
behind -/
def pullFill (fill : Cell) (cells : ℕ → Cell) (first last : ℕ) : ℕ → Cell :=
  (List.range' first (last - first)).foldl
    (fun cells j => Function.update (Function.update cells j (cells (j + 1))) (j + 1) fill) cells

theorem pullFill_apply (fill : Cell) (cells : ℕ → Cell) {first last : ℕ} (below : first ≤ last)
    (x : ℕ) :
    pullFill fill cells first last x =
      if first ≤ x ∧ x < last then cells (x + 1)
      else if x = last ∧ first < last then fill else cells x := by
  obtain ⟨n, rfl⟩ := Nat.exists_eq_add_of_le below
  rw [pullFill, Nat.add_sub_cancel_left]
  clear below
  induction n generalizing x with
  | zero => simp
  | succ n ih =>
    rw [List.range'_1_concat, List.foldl_append, List.foldl_cons, List.foldl_nil]
    simp only [Function.update_apply, ih]
    by_cases top : x = first + n + 1
    · rw [if_pos top, if_neg (by omega), if_pos ⟨by omega, by omega⟩]
    · rw [if_neg top]
      by_cases here : x = first + n
      · rw [if_pos here, if_neg (by omega), if_neg (by omega), if_pos ⟨by omega, by omega⟩, here]
      · rw [if_neg here, if_neg (by omega : ¬ (x = first + n ∧ first < first + n)),
          if_neg (by omega : ¬ (x = first + (n + 1) ∧ first < first + (n + 1)))]
        exact if_congr (by omega) rfl rfl

/-- A loop that copies each of the first cells from the next one -/
def pullDown (cells : ℕ → Cell) (count : ℕ) : ℕ → Cell :=
  (List.range count).foldl (fun cells i => Function.update cells i (cells (i + 1))) cells

theorem pullDown_apply (cells : ℕ → Cell) (count x : ℕ) :
    pullDown cells count x = if x < count then cells (x + 1) else cells x := by
  unfold pullDown
  induction count generalizing x with
  | zero => simp
  | succ count ih =>
    rw [List.range_succ, List.foldl_append, List.foldl_cons, List.foldl_nil]
    simp only [Function.update_apply, ih]
    by_cases here : x = count
    · rw [if_pos here, if_neg (by omega), if_pos (by omega), here]
    · rw [if_neg here]
      exact if_congr (by omega) rfl rfl

/-- Cells that have moved down behind a removed one -/
theorem window_of_removed {cells other : ℕ → Cell} {count i : ℕ} (below : i ≤ count)
    (before : ∀ x < i, other x = cells x)
    (behind : ∀ x, i ≤ x → x < count → other x = cells (x + 1)) :
    window other count = (window cells (count + 1)).eraseIdx i := by
  refine List.ext_getElem ?_ fun x left right => ?_
  · rw [length_window, List.length_eraseIdx_of_lt (by rw [length_window]; omega), length_window]
    rfl
  · rw [length_window] at left
    rw [getElem_window, List.getElem_eraseIdx]
    split
    · rename_i early
      rw [getElem_window, before x early]
    · rename_i late
      rw [getElem_window, behind x (by omega) left]

/-- In a list with distinct keys, the entry of a key is the only one that a filter drops. -/
theorem filter_ne_eq_eraseIdx {Key : Type*} [DecidableEq Key] {key : Cell → Key} {list : List Cell}
    (distinct : (list.map key).Nodup) {i : ℕ} (below : i < list.length) :
    list.filter (fun cell => key cell ≠ key list[i]) = list.eraseIdx i := by
  induction list generalizing i with
  | nil => exact absurd below (Nat.not_lt_zero i)
  | cons first rest ih =>
    rw [List.map_cons, List.nodup_cons] at distinct
    obtain ⟨fresh, distinct⟩ := distinct
    cases i with
    | zero =>
      rw [List.filter_cons_of_neg (by simp), List.eraseIdx_cons_zero, List.filter_eq_self]
      intro cell member
      refine decide_eq_true fun same => fresh ?_
      rw [List.getElem_cons_zero] at same
      exact same ▸ List.mem_map_of_mem member
    | succ i =>
      have inside : i < rest.length := Nat.lt_of_succ_lt_succ below
      have other : key first ≠ key rest[i] := fun same =>
        fresh (same ▸ List.mem_map_of_mem (List.getElem_mem inside))
      simp only [List.getElem_cons_succ, List.eraseIdx_cons_succ]
      rw [List.filter_cons_of_pos (by simpa using other), ih distinct inside]

end Shift

section Sweep

variable {Cell : Type*} (gone : Cell → Prop) [DecidablePred gone]

/-- A sweep that removes the cells that are gone, and goes on behind the next one. -/
def sweepSkipping : List Cell → List Cell
  | [] => []
  | [cell] => if gone cell then [] else [cell]
  | cell :: next :: rest =>
    if gone cell then next :: sweepSkipping rest else cell :: sweepSkipping (next :: rest)

/-- No two neighbours are gone. -/
def NoPair (cells : List Cell) : Prop := cells.IsChain fun cell next => ¬ (gone cell ∧ gone next)

instance (cells : List Cell) : Decidable (NoPair gone cells) :=
  inferInstanceAs (Decidable (List.IsChain _ _))

variable {gone}

theorem noPair_cons_of_not {cell : Cell} (stays : ¬ gone cell) (cells : List Cell) :
    NoPair gone (cell :: cells) ↔ NoPair gone cells := by
  cases cells with
  | nil => simp [NoPair]
  | cons next rest => simp [NoPair, stays]

theorem sweepSkipping_cons_of_not {cell : Cell} (stays : ¬ gone cell) (cells : List Cell) :
    sweepSkipping gone (cell :: cells) = cell :: sweepSkipping gone cells := by
  cases cells with
  | nil => simp [sweepSkipping, stays]
  | cons next rest => rw [sweepSkipping, if_neg stays]

/-- A sweep leaves a cell that is gone exactly if two neighbours are. -/
theorem sweepSkipping_clean_iff (cells : List Cell) :
    (∀ cell ∈ sweepSkipping gone cells, ¬ gone cell) ↔ NoPair gone cells := by
  fun_induction sweepSkipping gone cells with
  | case1 => simp [NoPair]
  | case2 cell goes => simp [NoPair]
  | case3 cell stays => simp [NoPair, stays]
  | case4 cell next rest goes ih =>
    rw [List.forall_mem_cons, ih]
    constructor
    · rintro ⟨stays, apart⟩
      have pair : ¬ (gone cell ∧ gone next) := fun both => stays both.2
      exact List.isChain_cons_cons.mpr ⟨pair, (noPair_cons_of_not stays rest).mpr apart⟩
    · intro apart
      obtain ⟨pair, apart⟩ := List.isChain_cons_cons.mp apart
      have stays : ¬ gone next := fun gone => pair ⟨goes, gone⟩
      exact ⟨stays, (noPair_cons_of_not stays rest).mp apart⟩
  | case5 cell next rest stays ih =>
    rw [List.forall_mem_cons, ih, noPair_cons_of_not stays]
    exact and_iff_right stays

/-- Where no two neighbours are gone, the sweep removes all that are. -/
theorem sweepSkipping_eq_filter {cells : List Cell} (apart : NoPair gone cells) :
    sweepSkipping gone cells = cells.filter fun cell => ¬ gone cell := by
  fun_induction sweepSkipping gone cells with
  | case1 => rfl
  | case2 cell goes => simp [goes]
  | case3 cell stays => simp [stays]
  | case4 cell next rest goes ih =>
    obtain ⟨pair, apart⟩ := List.isChain_cons_cons.mp apart
    have stays : ¬ gone next := fun gone => pair ⟨goes, gone⟩
    rw [ih ((noPair_cons_of_not stays rest).mp apart), List.filter_cons_of_neg (by simpa using goes),
      List.filter_cons_of_pos (by simpa using stays)]
  | case5 cell next rest stays ih =>
    rw [List.filter_cons_of_pos (by simpa using stays), ih ((noPair_cons_of_not stays _).mp apart)]

theorem sweepSkipping_eq_filter_iff (cells : List Cell) :
    sweepSkipping gone cells = cells.filter (fun cell => ¬ gone cell) ↔ NoPair gone cells := by
  refine ⟨fun same => (sweepSkipping_clean_iff cells).mp ?_, sweepSkipping_eq_filter⟩
  rw [same]
  intro cell member
  simpa using (List.mem_filter.mp member).2

/-- Only a single cell can be swept away without a rest. -/
theorem sweepSkipping_eq_nil_iff (cells : List Cell) :
    sweepSkipping gone cells = [] ↔ cells = [] ∨ ∃ cell, cells = [cell] ∧ gone cell := by
  unfold sweepSkipping
  split
  · simp
  · split <;> simp_all
  · split <;> simp

theorem sweepSkipping_sublist (cells : List Cell) : (sweepSkipping gone cells).Sublist cells := by
  fun_induction sweepSkipping gone cells with
  | case1 => exact List.Sublist.refl []
  | case2 cell goes => exact List.nil_sublist _
  | case3 cell stays => exact List.Sublist.refl _
  | case4 cell next rest goes ih => exact (ih.cons_cons next).cons cell
  | case5 cell next rest stays ih => exact ih.cons_cons cell

end Sweep

end QmkSonix.Lib
