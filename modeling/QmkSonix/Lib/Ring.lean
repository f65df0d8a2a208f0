import Mathlib

/-! Circular storage: slots counted from a start, and windows of values that the
cells of a ring show from that start on. -/

namespace QmkSonix.Lib

section Slots

variable {n : Nat} [NeZero n] {start : Fin n}

/-- The `k`-th slot of the ring after `start`. -/
def slot (start : Fin n) (k : Nat) : Fin n := ⟨(start.val + k) % n, Nat.mod_lt _ (Nat.pos_of_neZero n)⟩

@[simp] theorem slot_zero (start : Fin n) : slot start 0 = start := by
  apply Fin.ext
  simp [slot, Nat.mod_eq_of_lt start.isLt]

theorem slot_succ (start : Fin n) (k : Nat) : slot start (k + 1) = slot start k + 1 := by
  apply Fin.ext
  simp [slot, Fin.val_add, Nat.add_assoc]

theorem slot_next (start : Fin n) (k : Nat) : slot (start + 1) k = slot start (k + 1) := by
  apply Fin.ext
  simp [slot, Fin.val_add, Nat.add_assoc, Nat.add_comm 1 k]

theorem slot_succ_sub_one (start : Fin n) (k : Nat) : slot start (k + 1) - 1 = slot start k := by
  rw [slot_succ, add_sub_cancel_right]

theorem slot_sub (start : Fin n) (k m : Nat) : slot start (k + m) - slot 0 m = slot start k := by
  induction m with
  | zero => simp
  | succ m ih => rw [← Nat.add_assoc, slot_succ, slot_succ, add_sub_add_right_eq_sub, ih]

theorem slot_sub_start (start : Fin n) (k : Nat) : slot start k - start = slot 0 k := by
  induction k with
  | zero => simp
  | succ k ih => rw [slot_succ, slot_succ, add_sub_right_comm, ih]

/-- Going round the whole ring ends at the start. -/
@[simp] theorem slot_full (start : Fin n) : slot start n = start := by
  apply Fin.ext
  simp [slot, Nat.mod_eq_of_lt start.isLt]

theorem slot_inj (below : j < n) (below' : k < n) : slot start j = slot start k ↔ j = k := by
  constructor
  · intro same
    have values : (start.val + j) % n = (start.val + k) % n := congrArg Fin.val same
    have bound := start.isLt
    rcases Nat.lt_or_ge (start.val + j) n with low | high <;>
      rcases Nat.lt_or_ge (start.val + k) n with low' | high'
    · rw [Nat.mod_eq_of_lt low, Nat.mod_eq_of_lt low'] at values
      omega
    · rw [Nat.mod_eq_of_lt low, Nat.mod_eq_sub_mod high', Nat.mod_eq_of_lt (by omega)] at values
      omega
    · rw [Nat.mod_eq_sub_mod high, Nat.mod_eq_of_lt (by omega), Nat.mod_eq_of_lt low'] at values
      omega
    · rw [Nat.mod_eq_sub_mod high, Nat.mod_eq_of_lt (by omega), Nat.mod_eq_sub_mod high',
        Nat.mod_eq_of_lt (by omega)] at values
      omega
  · rintro rfl
    rfl

theorem slot_ne_start (start : Fin n) (above : 0 < k) (below : k < n) : slot start k ≠ start := by
  intro back
  have same : slot start k = slot start 0 := by rw [back, slot_zero]
  rw [slot_inj below (by omega)] at same
  omega

/-- Between the start and a full turn, only the full turn is back at the start. -/
theorem slot_eq_slot_iff (above : 0 < j) (below : j ≤ n) (above' : 0 < k) (below' : k ≤ n) :
    slot start j = slot start k ↔ j = k := by
  rcases j with _ | j
  · omega
  rcases k with _ | k
  · omega
  rw [← slot_next, ← slot_next, slot_inj (by omega) (by omega)]
  omega

theorem slot_surj (start i : Fin n) : ∃ k < n, slot start k = i := by
  have bound := start.isLt
  have bound' := i.isLt
  rcases Nat.le_total start.val i.val with ahead | behind
  · refine ⟨i.val - start.val, by omega, ?_⟩
    apply Fin.ext
    have total : start.val + (i.val - start.val) = i.val := by omega
    simp [slot, total, Nat.mod_eq_of_lt bound']
  · rcases Nat.lt_or_ge i.val start.val with strictly | same
    · refine ⟨n + i.val - start.val, by omega, ?_⟩
      apply Fin.ext
      have total : start.val + (n + i.val - start.val) = i.val + n := by omega
      simp [slot, total, Nat.mod_eq_of_lt bound']
    · refine ⟨0, by omega, ?_⟩
      apply Fin.ext
      simp only [slot_zero]
      omega

end Slots

section Windows

variable {n : Nat} [NeZero n] {α : Type*} {cells : Fin n → α} {start : Fin n} {window : List α}
  {blank : α}

/-- From `start` on the cells show the window, and `blank` behind it. -/
structure Shows (blank : α) (cells : Fin n → α) (start : Fin n) (window : List α) : Prop where
  fits : window.length ≤ n
  shown : ∀ k < n, cells (slot start k) = window[k]?.getD blank

theorem shows_nil (blank : α) (start : Fin n) : Shows blank (fun _ => blank) start [] :=
  ⟨Nat.zero_le n, fun _ _ => rfl⟩

theorem Shows.get (shows : Shows blank cells start window) (inside : k < window.length) :
    cells (slot start k) = window[k] := by
  have fits := shows.fits
  rw [shows.shown k (by omega), List.getElem?_eq_getElem inside]
  rfl

theorem Shows.behind (shows : Shows blank cells start window) (outside : window.length ≤ k)
    (below : k < n) : cells (slot start k) = blank := by
  rw [shows.shown k below, List.getElem?_eq_none outside]
  rfl

theorem Shows.set (shows : Shows blank cells start window) (inside : k < window.length)
    (value : α) : Shows blank (Function.update cells (slot start k) value) start
      (window.set k value) := by
  have fits := shows.fits
  refine ⟨by simpa using fits, ?_⟩
  intro j below
  by_cases hit : j = k
  · subst hit
    simp [inside]
  · have away : slot start j ≠ slot start k := by
      rw [ne_eq, slot_inj below (by omega)]
      exact hit
    rw [Function.update_of_ne away, shows.shown j below, List.getElem?_set_ne (Ne.symm hit)]

/-- A value stored behind the window joins it. -/
theorem Shows.push (shows : Shows blank cells start window) (room : window.length < n)
    (value : α) : Shows blank (Function.update cells (slot start window.length) value) start
      (window ++ [value]) := by
  refine ⟨by simpa using Nat.succ_le_of_lt room, ?_⟩
  intro j below
  by_cases hit : j = window.length
  · subst hit
    simp
  · have away : slot start j ≠ slot start window.length := by
      rw [ne_eq, slot_inj below room]
      exact hit
    rw [Function.update_of_ne away, shows.shown j below]
    rcases Nat.lt_or_ge j window.length with inside | outside
    · rw [List.getElem?_append_left inside]
    · rw [List.getElem?_eq_none outside, List.getElem?_eq_none (by simp; omega)]

/-- Storing over the first value of a full window moves the window on by one. -/
theorem Shows.replace (shows : Shows blank cells start (first :: rest))
    (full : (first :: rest).length = n) (value : α) :
    Shows blank (Function.update cells start value) (start + 1) (rest ++ [value]) := by
  have size : rest.length + 1 = n := by simpa using full
  refine ⟨by simp [size], ?_⟩
  intro j below
  rw [slot_next]
  by_cases last : j = rest.length
  · subst last
    rw [size, slot_full, Function.update_self]
    simp
  · have away : slot start (j + 1) ≠ start := slot_ne_start start (by omega) (by omega)
    have inside : j < rest.length := by omega
    rw [Function.update_of_ne away, shows.shown (j + 1) (by omega),
      List.getElem?_append_left inside, List.getElem?_cons_succ]

/-- A blank at the end of a window may be left out of it. -/
theorem Shows.of_padded (shows : Shows blank cells start (window ++ List.replicate count blank)) :
    Shows blank cells start window := by
  have fits := shows.fits
  rw [List.length_append] at fits
  refine ⟨by omega, ?_⟩
  intro k below
  rw [shows.shown k below]
  rcases Nat.lt_or_ge k window.length with inside | outside
  · rw [List.getElem?_append_left inside]
  · rw [List.getElem?_append_right outside, List.getElem?_eq_none outside]
    cases found : (List.replicate count blank)[k - window.length]? with
    | none => rfl
    | some value =>
      rw [List.eq_of_mem_replicate (List.mem_of_getElem? found)]
      rfl

end Windows

section Stretches

variable {α : Type*} {cells : Nat → α} {n read write : Nat}

/-- What a ring of `n` cells holds from index `read` up to index `write`. Equal
indices hold nothing. -/
def stretch (cells : Nat → α) (n read write : Nat) : List α :=
  (List.range ((write + n - read) % n)).map fun k => cells ((read + k) % n)

theorem length_stretch : (stretch cells n read write).length = (write + n - read) % n := by
  simp [stretch]

theorem ahead_mod (inside : read < n) (inside' : write < n) :
    (write + n - read) % n = if read ≤ write then write - read else write + n - read := by
  split
  · have turn : write + n - read = write - read + n := by omega
    rw [turn, Nat.add_mod_right, Nat.mod_eq_of_lt (by omega)]
  · rw [Nat.mod_eq_of_lt (by omega)]

theorem next_mod (inside : read < n) :
    (read + 1) % n = if read + 1 = n then 0 else read + 1 := by
  split
  · next last => rw [last, Nat.mod_self]
  · rw [Nat.mod_eq_of_lt (by omega)]

theorem length_stretch_lt (inside : read < n) (inside' : write < n) :
    (stretch cells n read write).length < n := by
  rw [length_stretch]
  exact Nat.mod_lt _ (by omega)

@[simp] theorem stretch_self (cells : Nat → α) (n i : Nat) : stretch cells n i i = [] := by
  simp [stretch]

theorem stretch_eq_nil_iff (inside : read < n) (inside' : write < n) :
    stretch cells n read write = [] ↔ read = write := by
  rw [← List.length_eq_zero_iff, length_stretch, ahead_mod inside inside']
  split <;> omega

/-- The first cell of a stretch, and the rest behind it. -/
theorem stretch_cons (inside : read < n) (inside' : write < n) (apart : read ≠ write) :
    stretch cells n read write = cells read :: stretch cells n ((read + 1) % n) write := by
  have size : (write + n - read) % n = (write + n - (read + 1) % n) % n + 1 := by
    rw [ahead_mod (Nat.mod_lt _ (by omega)) inside', next_mod inside, ahead_mod inside inside']
    split <;> split <;> split <;> omega
  rw [stretch, size, List.range_succ_eq_map, List.map_cons, List.map_map, stretch, Nat.add_zero,
    Nat.mod_eq_of_lt inside]
  congr 1
  apply List.map_congr_left
  intro k _
  simp [Nat.add_assoc, Nat.add_comm 1 k]

/-- A value stored at the end of a stretch joins it, unless the ring is full. -/
theorem stretch_push (inside : read < n) (inside' : write < n) (room : (write + 1) % n ≠ read)
    (value : α) : stretch (Function.update cells write value) n read ((write + 1) % n) =
      stretch cells n read write ++ [value] := by
  have size : ((write + 1) % n + n - read) % n = (write + n - read) % n + 1 := by
    rw [next_mod inside'] at room
    rw [ahead_mod inside (Nat.mod_lt _ (by omega)), ahead_mod inside inside', next_mod inside']
    by_cases last : write + 1 = n
    · simp only [last, if_true] at room ⊢
      split <;> split <;> omega
    · simp only [last, if_false] at room ⊢
      split <;> split <;> omega
  have last : (read + (write + n - read) % n) % n = write := by
    rw [ahead_mod inside inside']
    split
    · rw [Nat.add_sub_cancel' ‹_›, Nat.mod_eq_of_lt inside']
    · rw [Nat.add_sub_cancel' (by omega), Nat.add_mod_right, Nat.mod_eq_of_lt inside']
  rw [stretch, size, List.range_succ, List.map_append, List.map_singleton, last,
    Function.update_self, stretch]
  congr 1
  apply List.map_congr_left
  intro k member
  have below : k < (write + n - read) % n := List.mem_range.mp member
  apply Function.update_of_ne
  intro same
  rw [ahead_mod inside inside'] at below
  rcases Nat.lt_or_ge (read + k) n with low | high
  · rw [Nat.mod_eq_of_lt low] at same
    split at below <;> omega
  · rw [Nat.mod_eq_sub_mod high, Nat.mod_eq_of_lt (by split at below <;> omega)] at same
    split at below <;> omega

end Stretches

end QmkSonix.Lib
