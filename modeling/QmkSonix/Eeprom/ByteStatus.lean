import QmkSonix.Eeprom.Settles

/-! `EEPROM_WriteDataByte` when programs of the flash may fail: where its byte goes, which
places are safe for it, and what it reports. -/

namespace QmkSonix.Eeprom

open QmkSonix.Lib

section Byte

variable {cfg : Config} {s : Emulation} {address : HalfWord} {dataByte : Byte}

/-- The cells of the log that `EEPROM_WriteDataByte` takes. -/
def byteCells (s : Emulation) (address : HalfWord) (dataByte : Byte) : Nat :=
  if s.dataBuf address.toNat = dataByte ∨ s.flash.cells (address.toNat / 2) = feeEmptyWord then 0
  else if address < feeByteRange then 1
  else wordEntryCells
    (DataBuf.word (Function.update s.dataBuf address.toNat dataByte) (2 * (address.toNat / 2)))

/-- The log has no room for the byte. -/
def CompactsByte (cfg : Config) (s : Emulation) (address : HalfWord) (dataByte : Byte) : Prop :=
  0 < byteCells s address dataByte ∧ cfg.logLast < s.emptySlot + byteCells s address dataByte

/-- Where the byte goes, a restart finds it: a byte that is skipped lies in flash, a byte
of an erased compacted word has no entry in the log, and an entry that is appended is
reached by `EEPROM_Init`. -/
structure SafeByte (cfg : Config) (s : Emulation) (address : HalfWord) (dataByte : Byte) :
    Prop where
  skipped : s.dataBuf address.toNat = dataByte → contents cfg s.flash.cells address.toNat = dataByte
  direct : s.dataBuf address.toNat ≠ dataByte → s.flash.cells (address.toNat / 2) = feeEmptyWord →
    Unshadowed cfg s.flash.cells address.toNat dataByte
  logged : 0 < byteCells s address dataByte →
    s.emptySlot + byteCells s address dataByte ≤ cfg.logLast → Intact cfg s

/-- What `EEPROM_WriteDataByte` leaves behind when programs may fail. -/
structure SettlesByte (cfg : Config) (s : Emulation) (address : HalfWord) (dataByte : Byte)
    (result : Emulation × FlashStatus) : Prop where
  dataBuf : result.1.dataBuf = Function.update s.dataBuf address.toNat dataByte
  faults : result.1.flash.faults ⊆ s.flash.faults
  skips : s.dataBuf address.toNat = dataByte → result = (s, .unset)
  writes : s.dataBuf address.toNat ≠ dataByte →
    result.2 = .complete ∧
        (CompactsByte cfg s address dataByte ∧ Compacted cfg result.1 ∨
          ¬CompactsByte cfg s address dataByte ∧ (SafeByte cfg s address dataByte →
            Changes cfg s result.1 (address.toNat / 2) ∧
              contents cfg result.1.flash.cells address.toNat = dataByte)) ∨
      result.2.fails = true


section Branches

variable {result : Emulation × FlashStatus}

/-- `DataBuf` with the byte in it. -/
def cacheByte (s : Emulation) (address : HalfWord) (dataByte : Byte) : Emulation :=
  { s with dataBuf := Function.update s.dataBuf address.toNat dataByte }

variable (changed : s.dataBuf address.toNat ≠ dataByte)

include changed in
theorem SettlesByte.of_compact (compacts : CompactsByte cfg s address dataByte)
    (settles : (result.1.dataBuf = (cacheByte s address dataByte).dataBuf ∧
        result.1.flash.faults ⊆ s.flash.faults) ∧
      (result.2 = .complete ∧ Compacted cfg result.1 ∨ result.2.fails = true)) :
    SettlesByte cfg s address dataByte result :=
  ⟨settles.1.1, settles.1.2, fun same => absurd same changed,
    fun _ => settles.2.imp_left (fun done => ⟨done.1, .inl ⟨compacts, done.2⟩⟩)⟩

include changed in
theorem SettlesByte.of_append {new : List (Nat × Byte)}
    (inside : address.toNat < cfg.densityBytes) (cells : 0 < byteCells s address dataByte)
    (room : s.emptySlot + byteCells s address dataByte ≤ cfg.logLast)
    (settles : (result.1.dataBuf = (cacheByte s address dataByte).dataBuf ∧
        result.1.flash.faults ⊆ s.flash.faults) ∧
      (result.2 = .complete ∧ (Intact cfg (cacheByte s address dataByte) →
          Appended cfg (cacheByte s address dataByte) result.1 (address.toNat / 2) new) ∨
        result.2.fails = true))
    (overlaid : ∀ base, overlay new base address.toNat = dataByte) :
    SettlesByte cfg s address dataByte result := by
  have fits : ¬CompactsByte cfg s address dataByte := fun compacts =>
    absurd compacts.2 (by omega)
  refine ⟨settles.1.1, settles.1.2, fun same => absurd same changed, fun _ =>
    settles.2.imp_left (fun done => ⟨done.1, .inr ⟨fits, fun safe => ?_⟩⟩)⟩
  have intact := safe.logged cells room
  have appended := done.2 ⟨intact.slot, intact.blank⟩
  exact ⟨appended.changes.uncache, (appended.contents _ inside).trans (overlaid _)⟩

include changed in
theorem SettlesByte.of_direct (fallible : s.flash.Fallible)
    (inside : address.toNat < cfg.densityBytes)
    (erased : s.flash.cells (address.toNat / 2) = feeEmptyWord) :
    SettlesByte cfg s address dataByte
      (eepromWriteDirectEntry (cacheByte s address dataByte) address) := by
  obtain ⟨⟨buffer, still⟩, settles⟩ :=
    eepromWriteDirectEntry_settles (s := cacheByte s address dataByte) fallible inside erased
  have none : byteCells s address dataByte = 0 := by simp [byteCells, erased]
  have fits : ¬CompactsByte cfg s address dataByte := fun compacts =>
    absurd compacts.1 (by omega)
  have stored : (cacheByte s address dataByte).dataBuf address.toNat = dataByte :=
    Function.update_self ..
  refine ⟨buffer, still, fun same => absurd same changed, fun _ =>
    settles.imp_left (fun ⟨status, changes, _, held⟩ => ⟨status, .inr ⟨fits, fun safe => ?_⟩⟩)⟩
  have unshadowed := safe.direct changed erased
  rw [← stored] at unshadowed
  exact ⟨changes.uncache, (held address.toNat rfl unshadowed).trans stored⟩

end Branches

theorem eepromWriteDataByte_changed (inside : address.toNat < cfg.densityBytes)
    (changed : s.dataBuf address.toNat ≠ dataByte) :
    eepromWriteDataByte cfg s address dataByte =
      if (eepromWriteDirectEntry (cacheByte s address dataByte) address).2 = .unset then
        if address < feeByteRange then
          eepromWriteLogByteEntry cfg
            (eepromWriteDirectEntry (cacheByte s address dataByte) address).1 address
        else eepromWriteLogWordEntry cfg
          (eepromWriteDirectEntry (cacheByte s address dataByte) address).1 (address &&& 0xFFFE)
      else eepromWriteDirectEntry (cacheByte s address dataByte) address := by
  have notPast : ¬cfg.densityBytes ≤ address.toNat := by omega
  simp only [eepromWriteDataByte, notPast, changed, ↓reduceIte]
  rfl

/-- Over a programmed compacted word the byte goes to the log. -/
theorem eepromWriteDataByte_logged (inside : address.toNat < cfg.densityBytes)
    (changed : s.dataBuf address.toNat ≠ dataByte)
    (programmed : s.flash.cells (address.toNat / 2) ≠ feeEmptyWord) :
    eepromWriteDataByte cfg s address dataByte =
      if address < feeByteRange then
        eepromWriteLogByteEntry cfg (cacheByte s address dataByte) address
      else eepromWriteLogWordEntry cfg (cacheByte s address dataByte) (address &&& 0xFFFE) := by
  rw [eepromWriteDataByte_changed inside changed,
    eepromWriteDirectEntry_skips (s := cacheByte s address dataByte) programmed, if_pos rfl]

theorem byteCells_small (changed : s.dataBuf address.toNat ≠ dataByte)
    (programmed : s.flash.cells (address.toNat / 2) ≠ feeEmptyWord)
    (small : address < feeByteRange) : byteCells s address dataByte = 1 := by
  simp only [byteCells, changed, programmed, small, or_self, ↓reduceIte]

theorem byteCells_high (changed : s.dataBuf address.toNat ≠ dataByte)
    (programmed : s.flash.cells (address.toNat / 2) ≠ feeEmptyWord)
    (high : ¬address < feeByteRange) : byteCells s address dataByte =
      wordEntryCells ((cacheByte s address dataByte).dataBuf.word (address &&& 0xFFFE).toNat) := by
  simp only [byteCells, changed, programmed, high, or_self, ↓reduceIte, aligned_toNat, cacheByte]

theorem wordEntryCells_pos (value : HalfWord) : 0 < wordEntryCells value := by
  unfold wordEntryCells
  split <;> omega

/-- `EEPROM_WriteDataByte` with an address in range -/
theorem eepromWriteDataByte_settles (fallible : s.flash.Fallible)
    (inside : address.toNat < cfg.densityBytes)
    (erases : CompactsByte cfg s address dataByte → s.flash.Works cfg.pageCount) :
    SettlesByte cfg s address dataByte (eepromWriteDataByte cfg s address dataByte) := by
  by_cases same : s.dataBuf address.toNat = dataByte
  · have notPast : ¬cfg.densityBytes ≤ address.toNat := by omega
    have skips : eepromWriteDataByte cfg s address dataByte = (s, .unset) := by
      simp only [eepromWriteDataByte, notPast, same, ↓reduceIte]
    rw [skips]
    refine ⟨?_, fun _ => id, fun _ => rfl, fun changed => absurd same changed⟩
    rw [← same, Function.update_eq_self]
  by_cases erased : s.flash.cells (address.toNat / 2) = feeEmptyWord
  · have direct := SettlesByte.of_direct same fallible inside erased
    rw [eepromWriteDataByte_changed inside same, if_neg]
    · exact direct
    · intro unset
      rcases direct.writes same with ⟨complete, -⟩ | fails
      · rw [complete] at unset
        cases unset
      · rw [unset] at fails
        cases fails
  rw [eepromWriteDataByte_logged inside same erased]
  by_cases small : address < feeByteRange
  · have cells := byteCells_small same erased small
    rw [if_pos small]
    rcases Nat.lt_or_ge s.emptySlot cfg.logLast with room | full
    · apply SettlesByte.of_append same inside (by omega) (by omega)
      · obtain ⟨⟨buffer, still, -⟩, settles⟩ := eepromWriteLogByteEntry_settles
          (s := cacheByte s address dataByte) fallible (BitVec.lt_def.mp small) room
        exact ⟨⟨buffer, still⟩, settles⟩
      · intro base
        simp [cacheByte]
    · have compacts : CompactsByte cfg s address dataByte := ⟨by omega, by omega⟩
      rw [eepromWriteLogByteEntry_full (s := cacheByte s address dataByte) full]
      exact SettlesByte.of_compact same compacts
        (eepromCompact_settles (s := cacheByte s address dataByte) (erases compacts) fallible)
  · have high : 0x80 ≤ address.toNat := by simpa [BitVec.lt_def, feeByteRange] using small
    have aligned := aligned_toNat address
    have half : 2 * (address.toNat / 2) / 2 = address.toNat / 2 := by omega
    have cells := byteCells_high same erased small
    have some : 0 < byteCells s address dataByte := cells ▸ wordEntryCells_pos _
    rw [if_neg small]
    rcases Nat.lt_or_ge cfg.logLast (s.emptySlot + byteCells s address dataByte) with full | room
    · have compacts : CompactsByte cfg s address dataByte := ⟨some, full⟩
      rw [eepromWriteLogWordEntry_full (s := cacheByte s address dataByte) (by rwa [← cells])]
      exact SettlesByte.of_compact same compacts
        (eepromCompact_settles (s := cacheByte s address dataByte) (erases compacts) fallible)
    · have fits : s.emptySlot + wordEntryCells
          ((cacheByte s address dataByte).dataBuf.word (address &&& 0xFFFE).toNat) ≤ cfg.logLast := by
        rwa [← cells]
      have settles := eepromWriteLogWordEntry_settles (s := cacheByte s address dataByte) fallible
        (by omega) (by omega) (by omega) fits
      rw [aligned, half] at settles
      apply SettlesByte.of_append same inside some room settles
      intro base
      rw [overlay_cached_word, if_pos (by omega)]
      simp [cacheByte]

end Byte

/-! A byte that goes where it is safe is written unless one of its operations fails. -/

section Operations

variable {cfg : Config} {s : Emulation} {address : HalfWord} {dataByte : Byte}

/-- The programs of `eeprom_compact`. -/
def compactOps (cfg : Config) (buf : DataBuf) : Nat :=
  (List.range cfg.logBase).countP (fun cell => buf.word (2 * cell) ≠ 0)

/-- The flash operations of `EEPROM_WriteDataByte`. -/
def byteOps (cfg : Config) (s : Emulation) (address : HalfWord) (dataByte : Byte) : Nat :=
  let buf := (cacheByte s address dataByte).dataBuf
  if s.dataBuf address.toNat = dataByte then 0
  else if s.flash.cells (address.toNat / 2) = feeEmptyWord then
    if buf.word (2 * (address.toNat / 2)) = 0 then 0 else 1
  else if s.emptySlot + byteCells s address dataByte ≤ cfg.logLast then
    byteCells s address dataByte
  else cfg.pageCount + compactOps cfg buf

theorem Flash.Works.first {flash : Flash} (works : flash.Works 1) :
    flash.faults.head?.join = none := by
  simpa using works.next

theorem Flash.Works.tail {flash after : Flash} {count : Nat} (works : flash.Works (count + 1))
    (behind : after.faults = flash.faults.tail) : after.Works count := by
  intro entry member
  rw [behind] at member
  cases faults : flash.faults with
  | nil => simp [faults] at member
  | cons first rest =>
    rw [faults] at member
    apply works entry
    rw [faults, List.take_succ_cons]
    exact List.mem_cons_of_mem _ member

/-- The loop of `eeprom_compact` over erased cells, none of whose programs fails. -/
theorem compactCells_completes {flash : Flash} (buf : DataBuf) (unlocked : flash.locked = false)
    (count : Nat) (erased : ∀ cell < count, flash.cells cell = feeEmptyWord)
    (works : flash.Works ((List.range count).countP (fun cell => buf.word (2 * cell) ≠ 0))) :
    (compactCells buf flash count).2 = .complete ∧
      (compactCells buf flash count).1.locked = false ∧
      (compactCells buf flash count).1.faults =
        flash.faults.drop ((List.range count).countP (fun cell => buf.word (2 * cell) ≠ 0)) ∧
      ∀ cell, count ≤ cell → (compactCells buf flash count).1.cells cell = flash.cells cell := by
  induction count with
  | zero => exact ⟨rfl, unlocked, rfl, fun _ _ => rfl⟩
  | succ count ih =>
    rw [List.range_succ, List.countP_append, List.countP_singleton] at works
    obtain ⟨status, open', behind, untouched⟩ := ih (fun cell below => erased cell (by omega))
      (works.mono (Nat.le_add_right _ _))
    rw [List.range_succ, List.countP_append, List.countP_singleton, compactCells_succ]
    by_cases zero : buf.word (2 * count) = 0
    · have skipped : compactCell buf (compactCells buf flash count) count =
          compactCells buf flash count := by simp [compactCell, zero]
      rw [skipped]
      simp only [zero, ne_eq, not_true_eq_false, decide_false, Bool.false_eq_true, ↓reduceIte,
        Nat.add_zero]
      exact ⟨status, open', behind, fun cell above => untouched cell (by omega)⟩
    · simp only [zero, ne_eq, not_false_eq_true, decide_true, ↓reduceIte] at works ⊢
      have runs : (compactCells buf flash count).1.faults.head?.join = none := by
        rw [behind]
        exact works.next
      have blank : (compactCells buf flash count).1.cells count = feeEmptyWord :=
        (untouched count (Nat.le_refl _)).trans (erased count (by omega))
      simp only [compactCell, zero, programHalfWord_runs open' runs blank, ↓reduceIte]
      refine ⟨status, open', by rw [behind, List.tail_drop], fun cell above => ?_⟩
      rw [Function.update_of_ne (by omega)]
      exact untouched cell (by omega)

theorem eepromCompact_completes (works : s.flash.Works (cfg.pageCount + compactOps cfg s.dataBuf)) :
    (eepromCompact cfg s).2 = .complete := by
  obtain ⟨erased, dropped, -, -, -⟩ := eepromClear_spec cfg s
    (works.mono (Nat.le_add_right _ _))
  have order := logBase_le_logLast cfg
  have runs : (eepromClear cfg s).flash.unlock.Works (compactOps cfg s.dataBuf) := by
    intro entry member
    rw [Flash.unlock_faults, dropped, List.take_drop] at member
    exact works entry (List.mem_of_mem_drop member)
  exact (compactCells_completes s.dataBuf (Flash.unlock_locked _) cfg.logBase
    (fun cell below => erased cell (by omega)) runs).1

theorem eepromWriteDirectEntry_completes
    (erased : s.flash.cells (address.toNat / 2) = feeEmptyWord)
    (works : s.flash.Works (if s.dataBuf.word (2 * (address.toNat / 2)) = 0 then 0 else 1)) :
    (eepromWriteDirectEntry s address).2 = .complete := by
  have cell : 2 * (address.toNat / 2) / 2 = address.toNat / 2 := by omega
  by_cases zero : s.dataBuf.word (2 * (address.toNat / 2)) = 0
  · rw [eepromWriteDirectEntry_zero erased (by rw [zero]; decide)]
  · rw [if_neg zero] at works
    have unlocked : s.flash.unlock.locked = false := rfl
    have programmed := programHalfWord_runs unlocked works.first erased
      (~~~s.dataBuf.word (2 * (address.toNat / 2)))
    simp only [eepromWriteDirectEntry, aligned_toNat, cell, erased, ↓reduceIte]
    split
    · rfl
    · rw [programmed]

theorem eepromWriteLogByteEntry_completes (intact : Intact cfg s)
    (room : s.emptySlot < cfg.logLast) (works : s.flash.Works 1) :
    (eepromWriteLogByteEntry cfg s address).2 = .complete := by
  have notFull : ¬cfg.logLast ≤ s.emptySlot := by omega
  have unlocked : s.flash.unlock.locked = false := rfl
  have programmed := programHalfWord_runs unlocked works.first
    (intact.blank _ (Nat.le_refl _) room)
  simp only [eepromWriteLogByteEntry, notFull, programmed, ↓reduceIte]

theorem eepromWriteLogWordEntry_completes (intact : Intact cfg s)
    (room : s.emptySlot + wordEntryCells (s.dataBuf.word address.toNat) ≤ cfg.logLast)
    (works : s.flash.Works (wordEntryCells (s.dataBuf.word address.toNat))) :
    (eepromWriteLogWordEntry cfg s address).2 = .complete := by
  have unlocked : s.flash.unlock.locked = false := rfl
  by_cases short : s.dataBuf.word address.toNat ≤ 1
  · rw [wordEntryCells, if_pos short] at room works
    have notFull : ¬cfg.logLast < s.emptySlot + 2 / 2 := by omega
    have encoding : feeWordEncoding ||| (s.dataBuf.word address.toNat <<< 13) ≠
        feeWordEncoding ||| feeValueNext := by
      rcases le_one_cases short with zero | one
      · rw [zero]; decide
      · rw [one]; decide
    have programmed := programHalfWord_runs unlocked works.first
      (intact.blank _ (Nat.le_refl _) room)
    simp only [eepromWriteLogWordEntry, short, notFull, encoding, programmed, ↓reduceIte]
  · rw [wordEntryCells, if_neg short] at room works
    have notFull : ¬cfg.logLast < s.emptySlot + 4 / 2 := by omega
    have blank := intact.blank s.emptySlot (Nat.le_refl _) (by omega)
    have behind := intact.blank (s.emptySlot + 1) (by omega) (by omega)
    have headed := programHalfWord_runs unlocked (works.mono (Nat.le_succ 1)).first blank
      (nextHeader address)
    have stays : (s.flash.unlock.programHalfWord s.emptySlot (nextHeader address)).1.locked =
        false := by
      rw [headed]
      rfl
    have idle : (s.flash.unlock.programHalfWord s.emptySlot
        (nextHeader address)).1.faults.head?.join = none :=
      (works.tail (by rw [headed]; rfl)).first
    have empty : (s.flash.unlock.programHalfWord s.emptySlot (nextHeader address)).1.cells
        (s.emptySlot + 1) = feeEmptyWord := by
      rw [headed]
      exact (Function.update_of_ne (by omega) _ _).trans behind
    have next := programHalfWord_runs stays idle empty (~~~s.dataBuf.word address.toNat)
    unfold nextHeader at headed next
    simp only [eepromWriteLogWordEntry, short, notFull, ↓reduceIte, next]
    rw [headed]

/-- `EEPROM_WriteDataByte` reports success when none of its operations fails. -/
theorem eepromWriteDataByte_runs (inside : address.toNat < cfg.densityBytes)
    (changed : s.dataBuf address.toNat ≠ dataByte) (safe : SafeByte cfg s address dataByte)
    (works : s.flash.Works (byteOps cfg s address dataByte)) :
    (eepromWriteDataByte cfg s address dataByte).2 = .complete := by
  by_cases erased : s.flash.cells (address.toNat / 2) = feeEmptyWord
  · have runs : s.flash.Works (if (cacheByte s address dataByte).dataBuf.word
        (2 * (address.toNat / 2)) = 0 then 0 else 1) := by
      simpa only [byteOps, changed, erased, ↓reduceIte] using works
    have direct : (eepromWriteDirectEntry (cacheByte s address dataByte) address).2 = .complete :=
      eepromWriteDirectEntry_completes (s := cacheByte s address dataByte) erased runs
    rw [eepromWriteDataByte_changed inside changed, if_neg (by rw [direct]; decide), direct]
  rw [eepromWriteDataByte_logged inside changed erased]
  rcases Nat.lt_or_ge cfg.logLast (s.emptySlot + byteCells s address dataByte) with full | room
  · have runs : s.flash.Works
        (cfg.pageCount + compactOps cfg (cacheByte s address dataByte).dataBuf) := by
      simpa only [byteOps, changed, erased, Nat.not_le.mpr full, ↓reduceIte] using works
    have compacts : (eepromCompact cfg (cacheByte s address dataByte)).2 = .complete :=
      eepromCompact_completes (s := cacheByte s address dataByte) runs
    by_cases small : address < feeByteRange
    · rw [byteCells_small changed erased small] at full
      rw [if_pos small, eepromWriteLogByteEntry_full (s := cacheByte s address dataByte)
        (Nat.le_of_lt_succ full), compacts]
    · rw [byteCells_high changed erased small] at full
      rw [if_neg small, eepromWriteLogWordEntry_full (s := cacheByte s address dataByte) full,
        compacts]
  · have runs : s.flash.Works (byteCells s address dataByte) := by
      simpa only [byteOps, changed, erased, room, ↓reduceIte] using works
    by_cases small : address < feeByteRange
    · have cells := byteCells_small changed erased small
      have intact := safe.logged (by omega) room
      rw [cells] at room runs
      rw [if_pos small]
      exact eepromWriteLogByteEntry_completes (s := cacheByte s address dataByte)
        ⟨intact.slot, intact.blank⟩ room runs
    · have cells := byteCells_high changed erased small
      have intact := safe.logged (cells ▸ wordEntryCells_pos _) room
      rw [cells] at room runs
      rw [if_neg small]
      exact eepromWriteLogWordEntry_completes (s := cacheByte s address dataByte)
        ⟨intact.slot, intact.blank⟩ room runs

end Operations

section Bytes

variable {cfg : Config} {s after : Emulation} {address : HalfWord} {dataByte : Byte}

theorem next_toNat (inside : address.toNat < cfg.densityBytes) :
    (address + 1).toNat = address.toNat + 1 := by
  have limit := cfg.addressable
  rw [BitVec.toNat_add]
  have one : (1 : HalfWord).toNat = 1 := rfl
  unfold feeAddressMaxSize at limit
  omega

/-- `EEPROM_Init` reads back what the flash stands for. -/
theorem reads_contents (s : Emulation) {other : Nat} (inside : other < cfg.densityBytes) :
    eepromReadDataByte cfg (eepromInit cfg s).1 (BitVec.ofNat 16 other) =
      contents cfg s.flash.cells other := by
  have limit := cfg.addressable
  have small : (BitVec.ofNat 16 other).toNat = other := by
    rw [BitVec.toNat_ofNat]
    unfold feeAddressMaxSize at limit
    omega
  rw [eepromReadDataByte, small, if_pos inside, eepromInit_dataBuf s inside]

/-- A byte write that succeeds is read back from a place that is safe for it. -/
theorem SettlesByte.stored {result : Emulation × FlashStatus}
    (settles : SettlesByte cfg s address dataByte result)
    (inside : address.toNat < cfg.densityBytes) (safe : SafeByte cfg s address dataByte)
    (success : result.2.succeeds = true) :
    contents cfg result.1.flash.cells address.toNat = dataByte ∧
      (Compacted cfg result.1 ∨
        ¬CompactsByte cfg s address dataByte ∧ Changes cfg s result.1 (address.toNat / 2)) := by
  by_cases same : s.dataBuf address.toNat = dataByte
  · have fits : ¬CompactsByte cfg s address dataByte := fun compacts => by
      have some := compacts.1
      simp [byteCells, same] at some
    rw [settles.skips same]
    exact ⟨safe.skipped same, .inr ⟨fits, .refl cfg s _⟩⟩
  · rcases settles.writes same with ⟨-, (⟨-, compacted⟩ | ⟨fits, stored⟩)⟩ | fails
    · refine ⟨?_, .inl compacted⟩
      rw [compacted.cached _ inside, settles.dataBuf, Function.update_self]
    · obtain ⟨changes, held⟩ := stored safe
      exact ⟨held, .inr ⟨fits, changes⟩⟩
    · rw [fails_not_succeeds fails] at success
      cases success

theorem SettlesByte.not_badAddress {result : Emulation × FlashStatus}
    (settles : SettlesByte cfg s address dataByte result) : result.2 ≠ .badAddress := by
  intro bad
  by_cases same : s.dataBuf address.toNat = dataByte
  · rw [settles.skips same] at bad
    cases bad
  · rcases settles.writes same with ⟨complete, -⟩ | fails
    · rw [complete] at bad
      cases bad
    · rw [bad] at fails
      cases fails

theorem unshadowed_of_empty {cells : Cells} {other : Nat} (empty : logWrites cfg cells = []) :
    Unshadowed cfg cells other dataByte := by
  intro logged last
  rw [empty] at last
  cases last

theorem safeByte_of_compacted (compacted : Compacted cfg s)
    (inside : address.toNat < cfg.densityBytes) : SafeByte cfg s address dataByte := by
  exact ⟨fun same => (compacted.cached _ inside).trans same,
    fun _ _ => unshadowed_of_empty compacted.unlogged, fun _ _ => compacted.intact⟩

/-- A writer that keeps away from the word of a byte leaves its place safe. -/
theorem SafeByte.carry {word : Nat} (safe : SafeByte cfg s address dataByte)
    (changes : Changes cfg s after word) (away : address.toNat / 2 ≠ word)
    (inside : address.toNat < cfg.densityBytes)
    (buffer : ∀ other, other / 2 = address.toNat / 2 → after.dataBuf other = s.dataBuf other) :
    SafeByte cfg after address dataByte := by
  have here := buffer address.toNat rfl
  have cell := changes.words _ (half_lt_logBase inside) away
  have cached : DataBuf.word (Function.update after.dataBuf address.toNat dataByte)
        (2 * (address.toNat / 2)) =
      DataBuf.word (Function.update s.dataBuf address.toNat dataByte)
        (2 * (address.toNat / 2)) := by
    unfold DataBuf.word
    simp only [Function.update_apply, buffer (2 * (address.toNat / 2)) (by omega),
      buffer (2 * (address.toNat / 2) + 1) (by omega)]
  have cells : byteCells after address dataByte = byteCells s address dataByte := by
    simp only [byteCells, here, cell, cached]
  have slot := changes.slot
  refine ⟨fun same => ?_, fun changed erased => ?_, fun some room => ?_⟩
  · rw [changes.kept _ inside away]
    exact safe.skipped (here.symm.trans same)
  · rw [Unshadowed, changes.logged _ away]
    exact safe.direct (fun same => changed (here.trans same)) (cell.symm.trans erased)
  · rw [cells] at some room
    exact changes.intact (safe.logged some (by omega))

end Bytes

section Words

/-- `DataBuf` with the word in it. -/
def cacheWord (s : Emulation) (address dataWord : HalfWord) : Emulation :=
  { s with dataBuf := s.dataBuf.setWord address.toNat dataWord }

/-- `EEPROM_WriteDataWord` at an even address in range, for a word that is not cached. -/
theorem eepromWriteDataWord_changed {cfg : Config} {s : Emulation} {address dataWord : HalfWord}
    (even : address.toNat % 2 = 0) (inside : address.toNat < cfg.densityBytes)
    (changed : s.dataBuf.word address.toNat ≠ dataWord) :
    eepromWriteDataWord cfg s address dataWord =
      if (eepromWriteDirectEntry (cacheWord s address dataWord) address).2 = .unset then
        if address < feeByteRange then
          eepromWriteChangedBytes cfg
            (eepromWriteDirectEntry (cacheWord s address dataWord) address).1 address
            (s.dataBuf.word address.toNat) dataWord
        else eepromWriteLogWordEntry cfg
          (eepromWriteDirectEntry (cacheWord s address dataWord) address).1 address
      else eepromWriteDirectEntry (cacheWord s address dataWord) address := by
  have notPast : ¬cfg.densityBytes ≤ address.toNat := by omega
  have notOdd : ¬address.toNat % 2 = 1 := by omega
  simp only [eepromWriteDataWord, notPast, notOdd, changed, ↓reduceIte]
  rfl

end Words

end QmkSonix.Eeprom
