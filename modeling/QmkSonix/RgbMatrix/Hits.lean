import Mathlib
import QmkSonix.Lib.Recent

/-! The hit tracker of `rgb_matrix.c`: the LEDs that keys have hit, each with its age as a
16-bit tick, oldest first. -/

namespace QmkSonix.RgbMatrix

open QmkSonix.Lib

abbrev Byte := BitVec 8

/-- What the arrays of a `last_hit_t` hold at one index. -/
structure Hit where
  x : Byte
  y : Byte
  index : Byte
  tick : BitVec 16
  deriving DecidableEq, Repr

/-- `last_hit_t` -/
structure LastHit where
  count : ℕ
  entries : ℕ → Hit

/-- The entries that count. -/
def LastHit.hits (buffer : LastHit) : List Hit := (List.range buffer.count).map buffer.entries

/-- The part of `rgb_matrix_init` that clears a tracker, over what its arrays hold -/
def LastHit.clear (entries : ℕ → Hit) : LastHit where
  count := 0
  entries := fun i => { entries i with tick := 65535 }

/-- The part of `process_rgb_matrix` that makes room for the LEDs of a key. -/
def LastHit.makeRoom (size : ℕ) (buffer : LastHit) (ledCount : ℕ) : LastHit :=
  if size < buffer.count + ledCount then
    { count := size - ledCount
      entries := fun i =>
        if i < size - ledCount then buffer.entries (i + ledCount) else buffer.entries i }
  else buffer

/-- The loop of `process_rgb_matrix` that stores one LED. -/
def LastHit.push (buffer : LastHit) (hit : Hit) : LastHit where
  count := buffer.count + 1
  entries := Function.update buffer.entries buffer.count hit

/-- The part of `process_rgb_matrix` that stores the LEDs of a key. -/
def LastHit.record (size : ℕ) (buffer : LastHit) (new : List Hit) : LastHit :=
  new.foldl LastHit.push (buffer.makeRoom size new.length)

/-- The test of `rgb_task_timers` for an entry that gets too old, in the 32 bits of the
elapsed time -/
def expired (deltaTime : BitVec 32) (hit : Hit) : Bool :=
  65535 - deltaTime < hit.tick.setWidth 32

/-- An entry that has aged. -/
def Hit.aged (deltaTime : BitVec 32) (hit : Hit) : Hit :=
  { hit with tick := hit.tick + deltaTime.setWidth 16 }

/-- A round of the loop of `rgb_task_timers` over the entries -/
def LastHit.ageEntry (deltaTime : BitVec 32) (buffer : LastHit) (i : ℕ) : LastHit :=
  if expired deltaTime (buffer.entries i) then { buffer with count := buffer.count - 1 }
  else { buffer with
    entries := Function.update buffer.entries i ((buffer.entries i).aged deltaTime) }

/-- The loop of `rgb_task_timers` over the entries, as many as count before it -/
def LastHit.age (buffer : LastHit) (deltaTime : BitVec 32) : LastHit :=
  (List.range buffer.count).foldl (LastHit.ageEntry deltaTime) buffer

section Record

variable {size : ℕ} {buffer : LastHit}

@[simp] theorem length_hits (buffer : LastHit) : buffer.hits.length = buffer.count := by
  simp [LastHit.hits]

@[simp] theorem count_push (buffer : LastHit) (hit : Hit) :
    (buffer.push hit).count = buffer.count + 1 := rfl

theorem hits_push (buffer : LastHit) (hit : Hit) :
    (buffer.push hit).hits = buffer.hits ++ [hit] := by
  simp only [LastHit.hits, LastHit.push, List.range_succ, List.map_append, List.map_cons,
    List.map_nil, Function.update_self]
  congr 1
  apply List.map_congr_left
  intro i member
  exact Function.update_of_ne (List.mem_range.mp member).ne _ _

theorem hits_foldl_push (buffer : LastHit) (new : List Hit) :
    (new.foldl LastHit.push buffer).hits = buffer.hits ++ new := by
  induction new generalizing buffer with
  | nil => simp
  | cons hit rest ih => rw [List.foldl_cons, ih, hits_push, List.append_assoc, List.singleton_append]

/-- LEDs that fit are stored behind the others. -/
theorem hits_record_of_room {new : List Hit} (room : buffer.count + new.length ≤ size) :
    (buffer.record size new).hits = buffer.hits ++ new := by
  rw [LastHit.record, hits_foldl_push, LastHit.makeRoom, if_neg (by omega)]

/-- A full tracker forgets its oldest LEDs for the new ones. -/
theorem hits_record_of_full {new : List Hit} (fits : new.length ≤ size)
    (full : buffer.count = size) :
    (buffer.record size new).hits = buffer.hits.drop new.length ++ new := by
  by_cases some : new = []
  · rw [some, hits_record_of_room (by simp [full])]
    simp
  · have positive := List.length_pos_iff.mpr some
    rw [LastHit.record, hits_foldl_push, LastHit.makeRoom, if_pos (by omega)]
    congr 1
    apply List.ext_getElem
    · simp [full]
    · intro i left right
      rw [length_hits] at left
      simp only [LastHit.hits, List.getElem_map, List.getElem_range, List.getElem_drop]
      rw [if_pos left, Nat.add_comm]

end Record

section Age

variable {deltaTime : BitVec 32} {buffer : LastHit}

/-- The elapsed time is short enough for the comparison to be the one that is meant. -/
theorem expired_iff (short : deltaTime.toNat ≤ 65535) (hit : Hit) :
    expired deltaTime hit = true ↔ 65535 < hit.tick.toNat + deltaTime.toNat := by
  have tick := hit.tick.isLt
  have whole : (hit.tick.setWidth 32).toNat = hit.tick.toNat :=
    BitVec.toNat_setWidth_of_le (by decide)
  have sub : (65535 - deltaTime).toNat = 65535 - deltaTime.toNat := by
    rw [BitVec.toNat_sub_of_le (by rw [BitVec.le_def]; exact short)]
    rfl
  rw [expired, decide_eq_true_iff, BitVec.lt_def, sub, whole]
  omega

theorem aged_tick (short : deltaTime.toNat ≤ 65535) {hit : Hit}
    (young : hit.tick.toNat + deltaTime.toNat ≤ 65535) :
    (hit.aged deltaTime).tick.toNat = hit.tick.toNat + deltaTime.toNat := by
  simp only [Hit.aged, BitVec.toNat_add, BitVec.toNat_setWidth]
  omega

theorem mem_hits {i : ℕ} (below : i < buffer.count) : buffer.entries i ∈ buffer.hits :=
  List.mem_map.mpr ⟨i, List.mem_range.mpr below, rfl⟩

theorem age_none_loop (none : ∀ hit ∈ buffer.hits, expired deltaTime hit = false) {n : ℕ}
    (within : n ≤ buffer.count) :
    (List.range n).foldl (LastHit.ageEntry deltaTime) buffer =
      { buffer with
        entries := fun i =>
          if i < n then (buffer.entries i).aged deltaTime else buffer.entries i } := by
  induction n with
  | zero => simp
  | succ n ih =>
    have young := none _ (mem_hits (show n < buffer.count by omega))
    rw [List.range_succ, List.foldl_append, ih (by omega)]
    simp only [List.foldl_cons, List.foldl_nil, LastHit.ageEntry, lt_irrefl, if_false, young,
      Bool.false_eq_true]
    congr 1
    funext i
    by_cases here : i = n
    · rw [here, Function.update_self, if_pos (by omega)]
    · rw [Function.update_of_ne here]
      by_cases earlier : i < n
      · rw [if_pos earlier, if_pos (by omega)]
      · rw [if_neg earlier, if_neg (by omega)]

/-- Entries of which none expires all age in place. -/
theorem hits_age_of_none (none : ∀ hit ∈ buffer.hits, expired deltaTime hit = false) :
    (buffer.age deltaTime).hits = buffer.hits.map (Hit.aged deltaTime) := by
  rw [LastHit.age, age_none_loop none le_rfl]
  simp only [LastHit.hits, List.map_map]
  apply List.map_congr_left
  intro i member
  rw [if_pos (List.mem_range.mp member)]
  rfl

theorem age_all_loop (all : ∀ hit ∈ buffer.hits, expired deltaTime hit = true) {n : ℕ}
    (within : n ≤ buffer.count) :
    (List.range n).foldl (LastHit.ageEntry deltaTime) buffer =
      { buffer with count := buffer.count - n } := by
  induction n with
  | zero => simp
  | succ n ih =>
    have old := all _ (mem_hits (show n < buffer.count by omega))
    rw [List.range_succ, List.foldl_append, ih (by omega)]
    simp only [List.foldl_cons, List.foldl_nil, LastHit.ageEntry, old, if_true]
    rw [Nat.sub_sub]

/-- Entries that all expire are all forgotten. -/
theorem hits_age_of_all (all : ∀ hit ∈ buffer.hits, expired deltaTime hit = true) :
    (buffer.age deltaTime).hits = [] := by
  rw [LastHit.age, age_all_loop all le_rfl, Nat.sub_self]
  rfl

end Age

end QmkSonix.RgbMatrix
