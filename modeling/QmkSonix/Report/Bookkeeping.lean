import QmkSonix.Report.Window

/-! The bookkeeping of the ring against the report itself, over whole runs.
`clear_keys_from_report` leaves `cb_head`, `cb_tail` and `cb_count` as they are,
so that it keeps the bookkeeping only where there was nothing to clear. -/

namespace QmkSonix.Report

open QmkSonix.Lib

/-- How many slots lie from `cb_head` up to `cb_tail`. The count tells a full
ring from an empty one. -/
def KeyRing.span (s : KeyRing) : Nat :=
  if s.cbCount = 0 then 0
  else if s.cbTail = s.cbHead then keyboardReportKeys
  else (s.cbTail - s.cbHead).val

structure Agrees (s : KeyRing) : Prop where
  counted : s.cbCount.toNat = (List.finRange 6).countP (fun i => s.keys i ≠ 0)
  inRange : ∀ i, s.keys i ≠ 0 → ∃ k < s.span, slot s.cbHead k = i
  distinct : ∀ i j, s.keys i ≠ 0 → s.keys i = s.keys j → i = j

/-- What an operation promises of the report after it: a released code is gone. -/
def Op.Settles (s : KeyRing) : Op → Prop
  | .delKeyByte code => ∀ i, s.keys i ≠ code.1
  | _ => True

section Windows

variable {s : KeyRing} {window : List Byte}

theorem slots_perm (head : Slot) :
    (List.finRange 6).Perm ((List.range 6).map (slot head)) := by
  revert head
  decide

theorem Holds.keys_count (holds : Holds s window) :
    (List.finRange 6).countP (fun i => s.keys i ≠ 0) =
      window.countP (· ≠ 0) := by
  have fits := holds.shows.fits
  have row : (List.range 6).map (fun k => s.keys (slot s.cbHead k)) =
      window ++ List.replicate (6 - window.length) 0 := by
    apply List.ext_getElem
    · simp
      omega
    · intro k inside inside'
      have below : k < 6 := by simpa using inside
      rw [List.getElem_map, List.getElem_range, holds.shows.shown k below, List.getElem_append]
      split
      · rename_i here
        simp [here]
      · rename_i behind
        simp [List.getElem?_eq_none (Nat.not_lt.mp behind)]
  have counted := (slots_perm s.cbHead).countP_eq (fun i => s.keys i ≠ 0)
  rw [counted, List.countP_map]
  have blanks : (List.replicate (6 - window.length) (0 : Byte)).countP (· ≠ 0) = 0 := by
    simp [List.countP_replicate]
  have shown : ((List.range 6).map fun k => s.keys (slot s.cbHead k)).countP (· ≠ 0) =
      window.countP (· ≠ 0) := by
    rw [row, List.countP_append, blanks, Nat.add_zero]
  rw [List.countP_map] at shown
  exact shown

theorem Holds.span_eq (holds : Holds s window) : s.span = window.length := by
  have fits := holds.shows.fits
  by_cases empty : window = []
  · have idle : s.cbCount = 0 := by
      by_contra counted
      exact holds.count_ne_zero.mp counted empty
    rw [KeyRing.span, if_pos idle, empty, List.length_nil]
  · have positive : 0 < window.length := List.length_pos_iff.mpr empty
    rw [KeyRing.span, if_neg (holds.count_ne_zero.mpr empty)]
    by_cases full : window.length = 6
    · have wrapped : s.cbTail = s.cbHead := by rw [holds.tail, full, slot_full]
      rw [if_pos wrapped, full]
      rfl
    · have apart : s.cbTail ≠ s.cbHead := by
        rw [holds.tail]
        exact slot_ne_start s.cbHead positive (by omega)
      rw [if_neg apart, holds.tail, slot_sub_start, slot]
      simp
      omega

/-- A ring that holds a window keeps its books. -/
theorem Holds.agrees (holds : Holds s window) : Agrees s := by
  have nonblank {k : Nat} (below : k < 6) (used : s.keys (slot s.cbHead k) ≠ 0) :
      k < window.length := by
    by_contra behind
    exact used (holds.shows.behind (Nat.not_lt.mp behind) below)
  refine ⟨holds.count.trans holds.keys_count.symm, ?_, ?_⟩
  · intro i used
    obtain ⟨k, below, rfl⟩ := slot_surj s.cbHead i
    rw [holds.span_eq]
    exact ⟨k, nonblank below used, rfl⟩
  · intro i j used same
    obtain ⟨a, below, rfl⟩ := slot_surj s.cbHead i
    obtain ⟨b, below', rfl⟩ := slot_surj s.cbHead j
    have inside := nonblank below used
    have inside' := nonblank below' (same ▸ used)
    rw [holds.shows.get inside] at used same
    rw [holds.shows.get inside'] at same
    have apart := List.pairwise_iff_getElem.mp (List.pairwise_filter.mp holds.distinct)
    rcases Nat.lt_trichotomy a b with earlier | rfl | later
    · exact absurd same (apart a b inside inside' earlier (by simpa using used)
        (by simpa [← same] using used))
    · rfl
    · exact absurd same.symm (apart b a inside' inside later (by simpa [← same] using used)
        (by simpa using used))

theorem Holds.not_mem_keys (holds : Holds s window) (absent : code ∉ window) (nonzero : code ≠ 0)
    (i : Slot) : s.keys i ≠ code := by
  obtain ⟨k, below, rfl⟩ := slot_surj s.cbHead i
  rw [holds.shows.shown k below]
  cases inside : window[k]? with
  | none => exact nonzero.symm
  | some key =>
    rintro rfl
    exact absent (List.mem_of_getElem? inside)

theorem not_mem_dropKey (window : List Byte) (nonzero : code ≠ 0) :
    code ∉ dropKey window code := by
  intro member
  have mapped := List.IsPrefix.mem member (List.rdropWhile_prefix _ _)
  obtain ⟨key, _, became⟩ := List.mem_map.mp mapped
  split at became
  · exact nonzero became.symm
  · exact absurd became ‹_›

end Windows

section Runs

theorem holds_empty : Holds {} [] :=
  ⟨shows_nil 0 0, rfl, rfl, List.nodup_nil, by simp, fun _ => rfl⟩

/-- A run that clears the report only when no key is in it keeps a window. -/
theorem run_holds (ops : List Op)
    (idle : Along Op.exec (fun s op => op = .clearKeysFromReport → ∀ i, s.keys i = 0) {} ops) :
    ∃ window, Holds (run Op.exec {} ops) window := by
  have keeps : ∀ (s : KeyRing) (op : Op), (∃ window, Holds s window) →
      (op = .clearKeysFromReport → ∀ i, s.keys i = 0) → ∃ window, Holds (op.exec s) window := by
    rintro s op ⟨window, holds⟩ allowed
    cases op with
    | addKeyByte code => exact ⟨_, addKeyByte_holds holds code.2⟩
    | delKeyByte code => exact ⟨_, delKeyByte_holds holds code.2⟩
    | clearKeysFromReport =>
      have blank : s.keys = fun _ => 0 := funext (allowed rfl)
      have same : Op.exec s .clearKeysFromReport = s := by
        rw [Op.exec, clearKeysFromReport, ← blank]
      rw [same]
      exact ⟨window, holds⟩
  exact run_invariant keeps ⟨[], holds_empty⟩ idle

/-- The bookkeeping agrees with the report after every operation of a run exactly
when each bulk clear of the run finds no key to clear. -/
theorem bookkeeping_iff (ops : List Op) :
    (∀ earlier op, earlier ++ [op] <+: ops →
        Agrees (run Op.exec {} (earlier ++ [op])) ∧ op.Settles (run Op.exec {} (earlier ++ [op]))) ↔
      Along Op.exec (fun s op => op = .clearKeysFromReport → ∀ i, s.keys i = 0) {} ops := by
  constructor
  · intro kept
    rw [along_iff_earlier]
    rintro earlier op within rfl
    have cleared := (kept earlier _ within).1.counted
    have before : Agrees (run Op.exec {} earlier) := by
      rcases List.eq_nil_or_concat earlier with rfl | ⟨front, last, rfl⟩
      · exact holds_empty.agrees
      · rw [List.concat_eq_append] at within ⊢
        exact (kept front last ((List.prefix_append _ _).trans within)).1
    have none : (run Op.exec {} earlier).cbCount.toNat = 0 := by
      rw [run_append, run_cons, run_nil] at cleared
      exact cleared.trans (by simp [Op.exec, clearKeysFromReport])
    rw [before.counted, List.countP_eq_zero] at none
    intro i
    simpa using none i (List.mem_finRange i)
  · rintro idle earlier op ⟨later, rfl⟩
    rw [along_append] at idle
    obtain ⟨window, holds⟩ := run_holds (earlier ++ [op]) idle.1
    refine ⟨holds.agrees, ?_⟩
    cases op with
    | delKeyByte code =>
      rw [along_append] at idle
      obtain ⟨window, holds⟩ := run_holds earlier idle.1.1
      have released := delKeyByte_holds holds code.2
      intro i
      rw [run_append, run_cons, run_nil]
      exact released.not_mem_keys (not_mem_dropKey window code.2) code.2 i
    | addKeyByte code => trivial
    | clearKeysFromReport => trivial

/-- A key is held while the keyboard is cleared: the count still says one key. -/
theorem clear_breaks_bookkeeping :
    ¬Agrees (run Op.exec {} [.addKeyByte ⟨4, by decide⟩, .clearKeysFromReport]) := by
  intro agrees
  exact absurd agrees.counted (by decide)

end Runs

end QmkSonix.Report
