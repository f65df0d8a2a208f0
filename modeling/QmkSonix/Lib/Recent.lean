import Mathlib.Data.List.Basic
import Mathlib.Data.List.TakeDrop
import Mathlib.Tactic.Common

/-! The last entries of a list, the newest at its end. -/

namespace QmkSonix.Lib

section Recent

variable {Entry : Type*}

/-- The last `size` entries, or all if there are fewer. -/
def recent (size : ℕ) (entries : List Entry) : List Entry := entries.drop (entries.length - size)

@[simp] theorem recent_nil (size : ℕ) : recent size ([] : List Entry) = [] := by simp [recent]

@[simp] theorem length_recent (size : ℕ) (entries : List Entry) :
    (recent size entries).length = min entries.length size := by
  simp only [recent, List.length_drop]
  omega

theorem recent_of_le {size : ℕ} {entries : List Entry} (few : entries.length ≤ size) :
    recent size entries = entries := by
  rw [recent, Nat.sub_eq_zero_of_le few, List.drop_zero]

theorem recent_cons_of_le {size : ℕ} {entries : List Entry} (many : size ≤ entries.length)
    (entry : Entry) : recent size (entry :: entries) = recent size entries := by
  rw [recent, List.length_cons, Nat.succ_sub many, List.drop_succ_cons, recent]

/-- New entries that still fit behind those that are kept are kept with them. -/
theorem recent_append_of_room {size : ℕ} {entries new : List Entry}
    (room : (recent size entries).length + new.length ≤ size) :
    recent size (entries ++ new) = recent size entries ++ new := by
  rw [length_recent] at room
  cases new with
  | nil => rw [List.append_nil, List.append_nil]
  | cons first rest =>
    rw [List.length_cons] at room
    have few : entries.length ≤ size := by omega
    have fits : (entries ++ first :: rest).length ≤ size := by
      rw [List.length_append, List.length_cons]
      omega
    rw [recent_of_le few, recent_of_le fits]

/-- New entries push out as many of a full list. -/
theorem recent_append_of_full {size : ℕ} {entries new : List Entry} (fits : new.length ≤ size)
    (full : (recent size entries).length = size) :
    recent size (entries ++ new) = (recent size entries).drop new.length ++ new := by
  rw [length_recent] at full
  have start : entries.length + new.length - size = entries.length - size + new.length := by omega
  rw [recent, List.length_append, start, List.drop_append_of_le_length (by omega), recent,
    List.drop_drop]

/-- Where the entries that pass a test are the last ones, the test may be made before or
after the last entries are taken. -/
theorem recent_filter (size : ℕ) (passes : Entry → Bool) {entries : List Entry}
    (last : entries.Pairwise fun earlier later => passes earlier → passes later) :
    recent size (entries.filter passes) = (recent size entries).filter passes := by
  induction entries with
  | nil => simp
  | cons entry rest ih =>
    rw [List.pairwise_cons] at last
    by_cases first : passes entry
    · have all (later : Entry) (member : later ∈ entry :: rest) : passes later := by
        rcases List.mem_cons.mp member with here | behind
        · rw [here]
          exact first
        · exact last.1 later behind first
      have kept : (recent size (entry :: rest)).filter passes = recent size (entry :: rest) :=
        List.filter_eq_self.mpr fun later member => all later (List.mem_of_mem_drop member)
      rw [List.filter_eq_self.mpr all, kept]
    · rw [List.filter_cons_of_neg first, ih last.2]
      by_cases many : size ≤ rest.length
      · rw [recent_cons_of_le many]
      · have few : rest.length ≤ size := by omega
        have fits : (entry :: rest).length ≤ size := by
          rw [List.length_cons]
          omega
        rw [recent_of_le few, recent_of_le fits, List.filter_cons_of_neg first]

theorem recent_map {Other : Type*} (size : ℕ) (change : Entry → Other) (entries : List Entry) :
    recent size (entries.map change) = (recent size entries).map change := by
  simp [recent, List.map_drop]

end Recent

end QmkSonix.Lib
