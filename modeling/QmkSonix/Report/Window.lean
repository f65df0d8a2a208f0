import QmkSonix.Lib.Ring
import QmkSonix.Report.Model

/-! The report as a window of key codes: what `cb_head`, `cb_tail` and `cb_count`
stand for, and what the operations do to the window. -/

namespace QmkSonix.Report

open QmkSonix.Lib

/-- The window keeps its holes, oldest key first; it has no hole at its end. -/
structure Holds (s : KeyRing) (window : List Byte) : Prop where
  shows : Shows 0 s.keys s.cbHead window
  tail : s.cbTail = slot s.cbHead window.length
  count : s.cbCount.toNat = window.countP (· ≠ 0)
  distinct : (window.filter (· ≠ 0)).Nodup
  trimmed : window.getLast? ≠ some 0
  rewound : window = [] → s.cbHead = 0

/-- A key pressed again keeps its place. A new one goes to the end; when the ring
is full the holes close up first, and without holes the oldest key gives way. -/
def pushKey (window : List Byte) (code : Byte) : List Byte :=
  if code ∈ window then window
  else if window.length < keyboardReportKeys then window ++ [code]
  else if 0 ∈ window then window.filter (· ≠ 0) ++ [code]
  else window.tail ++ [code]

/-- A released key leaves a hole, and holes at the end go. -/
def dropKey (window : List Byte) (code : Byte) : List Byte :=
  (window.map fun key => if key = code then 0 else key).rdropWhile (· = 0)

section Loops

variable {keys : Slot → Byte} {head : Slot} {before after window : List Byte}

/-- The first hole of a window. -/
def firstEmpty (head : Slot) (window : List Byte) : Option Slot :=
  (window.findIdx? (· = 0)).map (slot head)

theorem roInc_slot (head : Slot) (k : Nat) : roInc (slot head k) = slot head (k + 1) :=
  (slot_succ head k).symm

theorem roDec_slot (head : Slot) (k : Nat) : roDec (slot head (k + 1)) = slot head k :=
  slot_succ_sub_one head k

theorem findIdx?_absent (absent : code ∉ window) : window.findIdx? (· = code) = none := by
  rw [List.findIdx?_eq_none_iff]
  intro key member
  simpa using ne_of_mem_of_not_mem member absent

theorem firstEmpty_none (solid : 0 ∉ window) : firstEmpty head window = none := by
  rw [firstEmpty, findIdx?_absent solid]
  rfl

theorem firstEmpty_at (solid : 0 ∉ before) :
    firstEmpty head (before ++ 0 :: after) = some (slot head before.length) := by
  simp [firstEmpty, List.findIdx?_append, findIdx?_absent solid, List.findIdx?_cons]

theorem firstEmpty_append_one (head : Slot) (before : List Byte) (value : Byte) :
    firstEmpty head (before ++ [value]) =
      if firstEmpty head before = none ∧ value = 0 then some (slot head before.length)
      else firstEmpty head before := by
  unfold firstEmpty
  cases found : before.findIdx? (· = 0) with
  | some index => simp [List.findIdx?_append, found]
  | none =>
    by_cases zero : value = 0
    · simp [List.findIdx?_append, found, zero]
    · simp [List.findIdx?_append, found, zero]

/-- The index of a loop meets `cb_tail` behind the last slot of the window. -/
theorem meets_tail (head : Slot) (before rest : List Byte) (value : Byte)
    (fits : (before ++ value :: rest).length ≤ 6) :
    slot head (before.length + 1) = slot head (before ++ value :: rest).length ↔ rest = [] := by
  rw [List.length_append, List.length_cons] at fits ⊢
  rw [slot_eq_slot_iff (by omega) (by omega) (by omega) (by omega)]
  constructor
  · intro same
    exact List.length_eq_zero_iff.mp (by omega)
  · rintro rfl
    rfl

theorem findEmpty_spec (before : List Byte) (shows : Shows 0 keys head (before ++ after))
    (more : after ≠ []) (fuel : Nat) (enough : after.length ≤ fuel) (code : Byte) :
    findEmpty keys (slot head (before ++ after).length) code fuel (slot head before.length)
        (firstEmpty head before) =
      if code ∈ after then none else some (firstEmpty head (before ++ after)) := by
  induction after generalizing before fuel with
  | nil => exact absurd rfl more
  | cons value rest ih =>
    obtain ⟨fuel, rfl⟩ : ∃ less, fuel = less + 1 := ⟨fuel - 1, by simp at enough; omega⟩
    have here : keys (slot head before.length) = value := by
      rw [shows.get (by simp)]
      simp
    have grown := firstEmpty_append_one head before value
    by_cases found : value = code
    · simp [findEmpty, here, found]
    · by_cases last : rest = []
      · have stop := (meets_tail head before rest value shows.fits).mpr last
        subst last
        simp only [findEmpty, here, found, ↓reduceIte, roInc_slot, stop, ← grown]
        simp [Ne.symm found]
      · have go := (meets_tail head before rest value shows.fits).not.mpr last
        have later := ih (before ++ [value]) (by simpa using shows) last fuel
          (by simpa using enough)
        simp only [findEmpty, here, found, ↓reduceIte, roInc_slot, go, ← grown]
        simpa [Ne.symm found] using later

theorem findKey_spec (before : List Byte) (shows : Shows 0 keys head (before ++ after))
    (more : after ≠ []) (absent : code ∉ before) (fuel : Nat) (enough : after.length ≤ fuel) :
    findKey keys (slot head (before ++ after).length) code fuel (slot head before.length) =
      ((before ++ after).findIdx? (· = code)).map (slot head) := by
  induction after generalizing before fuel with
  | nil => exact absurd rfl more
  | cons value rest ih =>
    obtain ⟨fuel, rfl⟩ : ∃ less, fuel = less + 1 := ⟨fuel - 1, by simp at enough; omega⟩
    have here : keys (slot head before.length) = value := by
      rw [shows.get (by simp)]
      simp
    have none := findIdx?_absent absent
    by_cases found : value = code
    · simp [findKey, here, found, List.findIdx?_append, none, List.findIdx?_cons]
    · by_cases last : rest = []
      · have stop := (meets_tail head before rest value shows.fits).mpr last
        subst last
        simp only [findKey, here, found, ↓reduceIte, roInc_slot, stop]
        simp [List.findIdx?_append, none, found]
      · have go := (meets_tail head before rest value shows.fits).not.mpr last
        have later := ih (before ++ [value]) (by simpa using shows) last
          (by simpa [Ne.symm found] using absent) fuel (by simpa using enough)
        simp only [findKey, here, found, ↓reduceIte, roInc_slot, go]
        simpa using later

theorem replicate_append_cons (count : Nat) (value : Byte) (rest : List Byte) :
    List.replicate count value ++ value :: rest = List.replicate (count + 1) value ++ rest := by
  rw [List.replicate_succ', List.append_assoc, List.singleton_append]

/-- One key moved down over the first of the gathered holes. -/
theorem shift_closes (before rest : List Byte) (gap : Nat) (value : Byte) :
    ((before ++ List.replicate (gap + 1) (0 : Byte) ++ value :: rest).set before.length value).set
        (before.length + (gap + 1)) 0 =
      before ++ [value] ++ List.replicate (gap + 1) (0 : Byte) ++ rest := by
  have gathered := replicate_append_cons gap 0 rest
  rw [List.append_assoc (before ++ [value]), ← gathered]
  simp [List.set_append, List.replicate_succ]

/-- Behind the holes that the shift has gathered, it moves every key down over them. -/
theorem leftShift_spec
    (shows : Shows 0 keys head (before ++ List.replicate (gap + 1) (0 : Byte) ++ after))
    (more : after ≠ []) (fuel : Nat) (enough : after.length ≤ fuel) (offset : Slot) :
    Shows 0 (leftShift
        (slot head (before ++ List.replicate (gap + 1) (0 : Byte) ++ after).length) fuel
        (slot head (before.length + (gap + 1))) (slot head before.length) offset keys).1 head
        (before ++ after.filter (· ≠ 0)) ∧
      (leftShift
        (slot head (before ++ List.replicate (gap + 1) (0 : Byte) ++ after).length) fuel
        (slot head (before.length + (gap + 1))) (slot head before.length) offset keys).2 =
        slot offset (after.countP (· = 0)) := by
  induction after generalizing before gap fuel keys offset with
  | nil => exact absurd rfl more
  | cons value rest ih =>
    obtain ⟨fuel, rfl⟩ : ∃ less, fuel = less + 1 := ⟨fuel - 1, by simp at enough; omega⟩
    have position : before.length + (gap + 1) =
        (before ++ List.replicate (gap + 1) (0 : Byte)).length := by simp
    have here : keys (slot head (before.length + (gap + 1))) = value := by
      rw [position, shows.get (by simp)]
      simp
    have meets := meets_tail head (before ++ List.replicate (gap + 1) (0 : Byte)) rest value
      shows.fits
    rw [← position] at meets
    by_cases hole : value = 0
    · subst hole
      have wider : Shows 0 keys head (before ++ List.replicate (gap + 1 + 1) (0 : Byte) ++ rest) := by
        simpa only [List.append_assoc, replicate_append_cons] using shows
      by_cases last : rest = []
      · have stop := meets.mpr last
        subst last
        rw [List.append_nil] at wider
        simp only [leftShift, here, ne_eq, not_true_eq_false, ↓reduceIte, roInc_slot, stop]
        refine ⟨by simpa using wider.of_padded, ?_⟩
        simp [slot_succ]
      · have go := meets.not.mpr last
        obtain ⟨shown, shift⟩ := ih wider last fuel (by simpa using enough) (offset + 1)
        have same : before ++ List.replicate (gap + 1) (0 : Byte) ++ 0 :: rest =
            before ++ List.replicate (gap + 1 + 1) (0 : Byte) ++ rest := by
          simp only [List.append_assoc, replicate_append_cons]
        rw [same] at go ⊢
        simp only [leftShift, here, ne_eq, not_true_eq_false, ↓reduceIte, roInc_slot, go]
        have counted : (0 :: rest).countP (· = 0) = rest.countP (· = 0) + 1 := by simp
        have dropped : (0 :: rest).filter (· ≠ 0) = rest.filter (· ≠ 0) := by simp
        rw [counted, dropped, ← slot_next offset]
        exact ⟨shown, shift⟩
    · have moved : Shows 0 (Function.update (Function.update keys (slot head before.length) value)
          (slot head (before.length + (gap + 1))) 0) head
          (before ++ [value] ++ List.replicate (gap + 1) (0 : Byte) ++ rest) := by
        have inside : before.length <
            (before ++ List.replicate (gap + 1) (0 : Byte) ++ value :: rest).length := by
          rw [List.length_append, List.length_append, List.length_cons]
          omega
        have stored := (shows.set inside value).set (k := before.length + (gap + 1)) (by simp) 0
        rwa [shift_closes] at stored
      by_cases last : rest = []
      · have stop := meets.mpr last
        subst last
        rw [List.append_nil] at moved
        simp only [leftShift, here, hole, ne_eq, not_false_eq_true, ↓reduceIte, roInc_slot, stop]
        refine ⟨by simpa [hole] using moved.of_padded, ?_⟩
        simp [hole]
      · have go := meets.not.mpr last
        obtain ⟨shown, shift⟩ := ih moved last fuel (by simpa using enough) offset
        have size : (before ++ List.replicate (gap + 1) (0 : Byte) ++ value :: rest).length =
            (before ++ [value] ++ List.replicate (gap + 1) (0 : Byte) ++ rest).length := by
          simp
          omega
        have next : before.length + (gap + 1) + 1 = (before ++ [value]).length + (gap + 1) := by
          simp
          omega
        have grown : before.length + 1 = (before ++ [value]).length := by simp
        rw [size] at go ⊢
        simp only [leftShift, here, hole, ne_eq, not_false_eq_true, ↓reduceIte, roInc_slot, go]
        rw [next, grown]
        refine ⟨by simpa [hole] using shown, ?_⟩
        simpa [hole] using shift

/-- `cb_tail` moves down over the holes at the end of the window. -/
theorem trimTail_spec (shows : Shows 0 keys head (window ++ [0])) (fuel : Nat)
    (enough : window.length < fuel) :
    trimTail keys head fuel (slot head (window ++ [0]).length) =
      slot head (window.rdropWhile (· = 0)).length := by
  induction window using List.reverseRecOn generalizing fuel with
  | nil =>
    obtain ⟨fuel, rfl⟩ : ∃ less, fuel = less + 1 := ⟨fuel - 1, by omega⟩
    have size : (([] : List Byte) ++ [0]).length = 0 + 1 := rfl
    rw [size]
    simp only [trimTail, roDec_slot, slot_zero, ↓reduceIte, ite_self]
    simp
  | append_singleton rest value ih =>
    obtain ⟨fuel, rfl⟩ : ∃ less, fuel = less + 1 := ⟨fuel - 1, by omega⟩
    have size : (rest ++ [value] ++ [0]).length = rest.length + 1 + 1 := by simp
    have here : keys (slot head rest.length) = value := by
      rw [shows.get (by simp)]
      simp
    have fits := shows.fits
    rw [size] at fits ⊢
    have away : slot head (rest.length + 1) ≠ head :=
      slot_ne_start head (by omega) (by omega)
    by_cases hole : value = 0
    · subst hole
      have shorter : Shows 0 keys head (rest ++ [0]) := by
        have padded : rest ++ [0] ++ [0] = rest ++ [0] ++ List.replicate 1 (0 : Byte) := rfl
        rw [padded] at shows
        exact shows.of_padded
      have later := ih shorter fuel (by simpa using enough)
      rw [List.length_append, List.length_singleton] at later
      simp only [trimTail, roDec_slot, here, ne_eq, not_true_eq_false, ↓reduceIte, away]
      rw [later]
      simp
    · simp only [trimTail, roDec_slot, here, hole, ne_eq, not_false_eq_true, ↓reduceIte]
      simp [hole]

end Loops

section Operations

variable {s : KeyRing} {window : List Byte} {code : Byte}

theorem Holds.count_ne_zero (holds : Holds s window) : s.cbCount ≠ 0 ↔ window ≠ [] := by
  have count := holds.count
  constructor
  · rintro counted rfl
    exact counted (BitVec.eq_of_toNat_eq count)
  · intro more empty
    have nonzero : window.getLast more ≠ 0 := by
      intro zero
      apply holds.trimmed
      rw [List.getLast?_eq_some_getLast more, zero]
    have present : 0 < window.countP (· ≠ 0) :=
      List.countP_pos_iff.mpr ⟨_, List.getLast_mem more, by simpa using nonzero⟩
    rw [empty] at count
    exact absurd count (Nat.ne_of_lt present)

theorem distinct_push (distinct : (window.filter (· ≠ 0)).Nodup) (fresh : code ∉ window) :
    ((window ++ [code]).filter (· ≠ 0)).Nodup := by
  rw [List.filter_append, List.nodup_append]
  refine ⟨distinct, List.Nodup.filter _ (List.nodup_singleton code), ?_⟩
  rintro key member other last rfl
  have same : key = code := List.mem_singleton.mp (List.mem_of_mem_filter last)
  exact fresh (same ▸ List.mem_of_mem_filter member)

/-- The end of `add_key_byte`, on a ring with room behind the window. -/
theorem addToTail_holds (shows : Shows 0 s.keys s.cbHead window)
    (tail : s.cbTail = slot s.cbHead window.length) (room : window.length < 6)
    (count : s.cbCount.toNat = window.countP (· ≠ 0))
    (distinct : (window.filter (· ≠ 0)).Nodup) (fresh : code ∉ window) (nonzero : code ≠ 0) :
    Holds (addToTail s code) (window ++ [code]) := by
  refine ⟨?_, ?_, ?_, distinct_push distinct fresh, by simpa using nonzero, by simp⟩
  · rw [addToTail, tail]
    exact shows.push room code
  · rw [addToTail, tail, roInc_slot, List.length_append, List.length_singleton]
  · have bound : window.countP (· ≠ 0) ≤ window.length := List.countP_le_length
    have appended : (window ++ [code]).countP (· ≠ 0) = window.countP (· ≠ 0) + 1 := by
      simp [nonzero]
    have one : (1 : BitVec 8).toNat = 1 := rfl
    rw [addToTail, BitVec.toNat_add, count, appended, one]
    omega

theorem holes_add_keys (window : List Byte) :
    window.countP (· = 0) + (window.filter (· ≠ 0)).length = window.length := by
  induction window with
  | nil => rfl
  | cons key rest ih =>
    by_cases hole : key = 0
    · simp [hole] at ih ⊢
      omega
    · simp [hole] at ih ⊢
      omega

/-- `add_key_byte` on a full ring without holes. -/
theorem addKeyByte_evicts (holds : Holds s window) (full : window.length = 6)
    (solid : 0 ∉ window) (fresh : code ∉ window) (nonzero : code ≠ 0) :
    Holds (addToTail { s with cbHead := roInc s.cbHead, cbCount := s.cbCount - 1 } code)
      (window.tail ++ [code]) := by
  cases window with
  | nil => cases full
  | cons oldest rest =>
    have tail : s.cbTail = s.cbHead := by rw [holds.tail, full, slot_full]
    have popped : oldest ≠ 0 := fun zero => solid (by simp [zero])
    have size : rest.length = 5 := by simpa using full
    have kept : (rest.filter (· ≠ 0)).Nodup :=
      (List.Sublist.filter _ (List.sublist_cons_self oldest rest)).nodup holds.distinct
    refine ⟨?_, ?_, ?_, distinct_push kept (fun member => fresh (List.mem_of_mem_tail member)),
      by simpa using nonzero, by simp⟩
    · rw [addToTail, tail]
      exact holds.shows.replace full code
    · have size' : (rest ++ [code]).length = 6 := by simp [size]
      rw [addToTail, List.tail_cons, size', slot_full, tail]
    · have count := holds.count
      have bound : rest.countP (· ≠ 0) ≤ rest.length := List.countP_le_length
      have counted : (oldest :: rest).countP (· ≠ 0) = rest.countP (· ≠ 0) + 1 := by
        simp [popped]
      have appended : (rest ++ [code]).countP (· ≠ 0) = rest.countP (· ≠ 0) + 1 := by
        simp [nonzero]
      have restored : s.cbCount - 1 + 1 = s.cbCount := by bv_omega
      rw [addToTail, List.tail_cons, appended, ← counted, ← count]
      exact congrArg BitVec.toNat restored

/-- `add_key_byte` on a full ring with holes, the first of them behind `before`. -/
theorem addKeyByte_shifts (holds : Holds s (before ++ 0 :: after))
    (full : (before ++ 0 :: after).length = 6) (solid : 0 ∉ before)
    (fresh : code ∉ before ++ 0 :: after) (nonzero : code ≠ 0) :
    Holds (addToTail { s with
        keys := (leftShift s.cbTail keyboardReportKeys (slot s.cbHead (before.length + 1))
          (slot s.cbHead before.length) 1 s.keys).1
        cbTail := s.cbTail - (leftShift s.cbTail keyboardReportKeys
          (slot s.cbHead (before.length + 1)) (slot s.cbHead before.length) 1 s.keys).2 } code)
      ((before ++ 0 :: after).filter (· ≠ 0) ++ [code]) := by
  have more : after ≠ [] := by
    rintro rfl
    exact holds.trimmed (by simp)
  have gathered : before ++ 0 :: after = before ++ List.replicate (0 + 1) (0 : Byte) ++ after := by
    simp
  have filtered : (before ++ 0 :: after).filter (· ≠ 0) = before ++ after.filter (· ≠ 0) := by
    have whole : before.filter (· ≠ 0) = before := by
      rw [List.filter_eq_self]
      intro key member
      simpa using ne_of_mem_of_not_mem member solid
    rw [List.filter_append, whole]
    simp
  have sizes : before.length + (after.length + 1) = 6 := by simpa using full
  have parts := holes_add_keys after
  have shows := holds.shows
  rw [gathered] at shows
  obtain ⟨shown, shift⟩ := leftShift_spec shows more keyboardReportKeys
    (by unfold keyboardReportKeys; omega) 1
  rw [← gathered, ← holds.tail, Nat.zero_add] at shown shift
  have one : slot (1 : Slot) (after.countP (· = 0)) = slot 0 (after.countP (· = 0) + 1) := by
    rw [← slot_next]
    rfl
  have size : (before ++ after.filter (· ≠ 0)).length + (after.countP (· = 0) + 1) = 6 := by
    rw [List.length_append]
    omega
  have keys : (before ++ after.filter (· ≠ 0)).filter (· ≠ 0) =
      before ++ after.filter (· ≠ 0) := by
    rw [← filtered, List.filter_filter]
    simp
  have all : (before ++ after.filter (· ≠ 0)).countP (· ≠ 0) =
      (before ++ 0 :: after).countP (· ≠ 0) := by
    rw [List.countP_eq_length_filter, keys, ← filtered, ← List.countP_eq_length_filter]
  have distinct := holds.distinct
  rw [filtered] at distinct ⊢
  apply addToTail_holds shown
  · have back : s.cbTail = slot s.cbHead
        ((before ++ after.filter (· ≠ 0)).length + (after.countP (· = 0) + 1)) := by
      rw [size, slot_full, holds.tail, full, slot_full]
    rw [shift, one, back, slot_sub]
  · omega
  · rw [all]
    exact holds.count
  · rwa [keys]
  · rw [← filtered]
    exact fun member => fresh (List.mem_of_mem_filter member)
  · exact nonzero

/-- `add_key_byte` -/
theorem addKeyByte_holds (holds : Holds s window) (nonzero : code ≠ 0) :
    Holds (addKeyByte s code) (pushKey window code) := by
  have fits := holds.shows.fits
  by_cases empty : window = []
  · have idle : ¬s.cbCount ≠ 0 := by
      rw [holds.count_ne_zero]
      simpa using empty
    subst empty
    have pushed : pushKey [] code = [] ++ [code] := by simp [pushKey, keyboardReportKeys]
    rw [addKeyByte, if_neg idle, pushed]
    exact addToTail_holds holds.shows holds.tail (by decide) holds.count holds.distinct
      (by simp) nonzero
  · have counted := holds.count_ne_zero.mpr empty
    have search := findEmpty_spec [] holds.shows empty keyboardReportKeys fits code
    rw [List.nil_append, ← holds.tail, List.length_nil, slot_zero] at search
    have start : firstEmpty s.cbHead [] = none := rfl
    rw [start] at search
    by_cases held : code ∈ window
    · have stays : addKeyByte s code = s := by
        rw [if_pos held] at search
        rw [addKeyByte, if_pos counted, search]
      rw [stays, pushKey, if_pos held]
      exact holds
    · rw [if_neg held] at search
      by_cases room : window.length < 6
      · have apart : s.cbTail ≠ s.cbHead := by
          have positive : 0 < window.length := List.length_pos_iff.mpr empty
          rw [holds.tail]
          exact slot_ne_start s.cbHead positive room
        have added : addKeyByte s code = addToTail s code := by
          rw [addKeyByte, if_pos counted, search]
          exact if_neg apart
        have pushed : pushKey window code = window ++ [code] := by
          simp only [pushKey, held, keyboardReportKeys, room, ↓reduceIte]
        rw [added, pushed]
        exact addToTail_holds holds.shows holds.tail room holds.count holds.distinct held nonzero
      · have full : window.length = 6 := by omega
        have wrapped : s.cbTail = s.cbHead := by rw [holds.tail, full, slot_full]
        by_cases hole : 0 ∈ window
        · obtain ⟨before, after, rfl, solid⟩ := List.eq_append_cons_of_mem hole
          have first : firstEmpty s.cbHead (before ++ 0 :: after) =
              some (slot s.cbHead before.length) := firstEmpty_at solid
          have pushed : pushKey (before ++ 0 :: after) code =
              (before ++ 0 :: after).filter (· ≠ 0) ++ [code] := by
            simp only [pushKey, held, keyboardReportKeys, room, hole, ↓reduceIte]
          rw [first] at search
          have shifted := addKeyByte_shifts holds full solid held nonzero
          rw [← roInc_slot] at shifted
          have added := addKeyByte.eq_def s code
          rw [if_pos counted, search] at added
          rw [pushed, added.trans (if_pos wrapped)]
          exact shifted
        · have first : firstEmpty s.cbHead window = none := firstEmpty_none hole
          have pushed : pushKey window code = window.tail ++ [code] := by
            simp only [pushKey, held, keyboardReportKeys, room, hole, ↓reduceIte]
          rw [first] at search
          have added : addKeyByte s code = addToTail { s with
              cbHead := roInc s.cbHead, cbCount := s.cbCount - 1 } code := by
            rw [addKeyByte, if_pos counted, search]
            exact if_pos wrapped
          rw [added, pushed]
          exact addKeyByte_evicts holds full hole held nonzero

/-- What `dropKey` cuts off the end is holes. -/
theorem rdropWhile_padded (window : List Byte) :
    ∃ count, window = window.rdropWhile (· = 0) ++ List.replicate count (0 : Byte) := by
  refine ⟨(window.rtakeWhile (· = 0)).length, ?_⟩
  have holes : window.rtakeWhile (· = 0) =
      List.replicate (window.rtakeWhile (· = 0)).length (0 : Byte) := by
    rw [List.eq_replicate_iff]
    exact ⟨rfl, fun key member => by simpa using List.mem_rtakeWhile_imp member⟩
  rw [← holes, List.rdropWhile_append_rtakeWhile]

theorem distinct_hole (distinct : ((before ++ code :: after).filter (· ≠ 0)).Nodup) :
    ((before ++ 0 :: after).filter (· ≠ 0)).Nodup := by
  have fewer : (before ++ 0 :: after).filter (· ≠ 0) = (before ++ after).filter (· ≠ 0) := by
    simp
  rw [fewer]
  have inside : (before ++ after).Sublist (before ++ code :: after) :=
    List.Sublist.append_left (List.sublist_cons_self code after) before
  exact (inside.filter _).nodup distinct

/-- The code occurs once, so that its hole is all that a release leaves. -/
theorem dropKey_at (holds : Holds s (before ++ code :: after)) (absent : code ∉ before)
    (nonzero : code ≠ 0) :
    dropKey (before ++ code :: after) code = (before ++ 0 :: after).rdropWhile (· = 0) := by
  have once : code ∉ after := by
    intro again
    have distinct := holds.distinct
    rw [List.filter_append, List.filter_cons_of_pos (by simpa using nonzero)] at distinct
    have rest := (List.nodup_append.mp distinct).2.1
    exact (List.nodup_cons.mp rest).1 (List.mem_filter.mpr ⟨again, by simpa using nonzero⟩)
  have kept (keys : List Byte) (away : code ∉ keys) :
      (keys.map fun key => if key = code then 0 else key) = keys := by
    have same : (keys.map fun key => if key = code then 0 else key) = keys.map id :=
      List.map_congr_left (fun key member => if_neg (ne_of_mem_of_not_mem member away))
    rw [same, List.map_id]
  rw [dropKey, List.map_append, List.map_cons, kept before absent, kept after once, if_pos rfl]

theorem shows_hole (holds : Holds s (before ++ code :: after)) :
    Shows 0 (Function.update s.keys (slot s.cbHead before.length) 0) s.cbHead
      (before ++ 0 :: after) := by
  have shows := holds.shows.set (k := before.length) (by simp) 0
  have cut : (before ++ code :: after).set before.length 0 = before ++ 0 :: after := by
    simp [List.set_append]
  rwa [cut] at shows

theorem count_hole (holds : Holds s (before ++ code :: after)) (nonzero : code ≠ 0) :
    (s.cbCount - 1).toNat = (before ++ 0 :: after).countP (· ≠ 0) := by
  have total := holds.count
  have fits := holds.shows.fits
  have bound : (before ++ code :: after).countP (· ≠ 0) ≤ (before ++ code :: after).length :=
    List.countP_le_length
  have one : (before ++ code :: after).countP (· ≠ 0) =
      (before ++ 0 :: after).countP (· ≠ 0) + 1 := by
    simp [List.countP_append, List.countP_cons, nonzero]
    omega
  bv_omega

/-- The key at the found slot is removed and the ring is not empty afterwards. -/
theorem delKeyByte_hole (holds : Holds s (before ++ code :: after)) (nonzero : code ≠ 0)
    (left : s.cbCount - 1 ≠ 0) {cbTail : Slot}
    (tail : cbTail = slot s.cbHead ((before ++ 0 :: after).rdropWhile (· = 0)).length) :
    Holds { s with
        keys := Function.update s.keys (slot s.cbHead before.length) 0
        cbTail, cbCount := s.cbCount - 1 }
      ((before ++ 0 :: after).rdropWhile (· = 0)) := by
  have shows := shows_hole holds
  obtain ⟨count, padded⟩ := rdropWhile_padded (before ++ 0 :: after)
  have counted := count_hole holds nonzero
  have allKeys : (before ++ 0 :: after).filter (· ≠ 0) =
      ((before ++ 0 :: after).rdropWhile (· = 0)).filter (· ≠ 0) := by
    conv_lhs => rw [padded]
    simp [List.filter_append]
  refine ⟨?_, tail, ?_, ?_, ?_, ?_⟩
  · rw [padded] at shows
    exact shows.of_padded
  · rw [counted, List.countP_eq_length_filter, allKeys, ← List.countP_eq_length_filter]
  · rw [← allKeys]
    exact distinct_hole holds.distinct
  · intro last
    have more : (before ++ 0 :: after).rdropWhile (· = 0) ≠ [] := by
      intro empty
      rw [empty] at last
      cases last
    apply List.rdropWhile_last_not _ _ more
    rw [List.getLast?_eq_some_getLast more, Option.some_inj] at last
    simpa using last
  · intro empty
    rw [List.countP_eq_length_filter, allKeys, empty] at counted
    exact absurd (BitVec.eq_of_toNat_eq counted) left

/-- `del_key_byte` -/
theorem delKeyByte_holds (holds : Holds s window) (nonzero : code ≠ 0) :
    Holds (delKeyByte s code) (dropKey window code) := by
  by_cases empty : window = []
  · have idle : ¬s.cbCount ≠ 0 := by
      rw [holds.count_ne_zero]
      simpa using empty
    subst empty
    rw [delKeyByte, if_neg idle]
    exact holds
  have counted := holds.count_ne_zero.mpr empty
  have search := findKey_spec [] holds.shows empty (List.not_mem_nil (a := code))
    keyboardReportKeys holds.shows.fits
  rw [List.nil_append, ← holds.tail, List.length_nil, slot_zero] at search
  by_cases held : code ∈ window
  · obtain ⟨before, after, rfl, absent⟩ := List.eq_append_cons_of_mem held
    have found : (before ++ code :: after).findIdx? (· = code) = some before.length := by
      simp [List.findIdx?_append, findIdx?_absent absent, List.findIdx?_cons]
    rw [found, Option.map_some] at search
    rw [dropKey_at holds absent nonzero, delKeyByte, if_pos counted, search]
    by_cases left : s.cbCount - 1 = 0
    · have counted := count_hole holds nonzero
      rw [left] at counted
      have holes : ∀ key ∈ before ++ 0 :: after, key = 0 := by
        have none := List.countP_eq_zero.mp counted.symm
        exact fun key member => by simpa using none key member
      have gone : (before ++ 0 :: after).rdropWhile (· = 0) = [] := by
        rw [List.rdropWhile_eq_nil_iff]
        exact fun key member => by simpa using holes key member
      have blank : Function.update s.keys (slot s.cbHead before.length) 0 = fun _ => 0 := by
        funext i
        obtain ⟨k, below, rfl⟩ := slot_surj s.cbHead i
        rw [(shows_hole holds).shown k below]
        cases inside : (before ++ 0 :: after)[k]? with
        | none => rfl
        | some key => exact holes key (List.mem_of_getElem? inside)
      have rewound : (if slot s.cbHead before.length = roDec 0
          then trimTail (fun _ => 0) 0 keyboardReportKeys 0 else 0) = 0 := by
        have down : trimTail (fun _ => 0) 0 keyboardReportKeys 0 = 0 := by decide
        rw [down, ite_self]
      simp only [left, blank, gone, rewound, ↓reduceIte]
      exact ⟨shows_nil 0 0, rfl, rfl, List.nodup_nil, by simp, fun _ => rfl⟩
    · simp only [left, ↓reduceIte]
      apply delKeyByte_hole holds nonzero left
      have size : (before ++ code :: after).length = before.length + after.length + 1 := by
        simp
        omega
      have fits := holds.shows.fits
      rw [holds.tail, size, roDec_slot]
      by_cases last : after = []
      · subst last
        rw [List.length_nil, Nat.add_zero, if_pos rfl,
          List.rdropWhile_concat_pos _ _ _ (by simp)]
        have trimmed := trimTail_spec (shows_hole holds) keyboardReportKeys
          (by unfold keyboardReportKeys; omega)
        rwa [List.length_append, List.length_singleton] at trimmed
      · have positive : 0 < after.length := List.length_pos_iff.mpr last
        have apart : slot s.cbHead before.length ≠ slot s.cbHead (before.length + after.length) := by
          rw [ne_eq, slot_inj (by omega) (by omega)]
          omega
        have whole : (before ++ 0 :: after).rdropWhile (· = 0) = before ++ 0 :: after := by
          rw [List.rdropWhile_eq_self_iff]
          intro more hole
          apply holds.trimmed
          have ends : (before ++ code :: after).getLast? = (before ++ 0 :: after).getLast? := by
            rw [List.append_cons before code, List.append_cons before 0,
              List.getLast?_append_of_ne_nil _ last, List.getLast?_append_of_ne_nil _ last]
          rw [ends, List.getLast?_eq_some_getLast more]
          simpa using hole
        rw [if_neg apart, whole, List.length_append, List.length_cons, Nat.add_assoc]
  · have same : dropKey window code = window := by
      have kept : (window.map fun key => if key = code then 0 else key) = window.map id :=
        List.map_congr_left (fun key member => if_neg (ne_of_mem_of_not_mem member held))
      rw [dropKey, kept, List.map_id, List.rdropWhile_eq_self_iff]
      intro more last
      apply holds.trimmed
      rw [List.getLast?_eq_some_getLast more]
      simpa using last
    rw [findIdx?_absent held, Option.map_none] at search
    rw [same, delKeyByte, if_pos counted, search]
    exact holds

end Operations

end QmkSonix.Report
