import QmkSonix.Eeprom.ByteStatus

/-! The status that the two writers return when programs of the flash may fail:
whether success means that a restart reads the value back, and a bad address that
nothing has changed. -/

namespace QmkSonix.Eeprom

open QmkSonix.Lib

/-- What the writer of a call returns. -/
def Call.status (cfg : Config) (s : Emulation) : Call → Option FlashStatus
  | .writeDataByte address dataByte => some (eepromWriteDataByte cfg s address dataByte).2
  | .writeDataWord address dataWord => some (eepromWriteDataWord cfg s address dataWord).2
  | .init => none

/-- 0 and `FLASH_COMPLETE` are returned only if a following `EEPROM_Init` reads the
written bytes back, and `FLASH_BAD_ADDRESS` only if nothing has changed. -/
structure Honest (cfg : Config) (s : Emulation) (call : Call) : Prop where
  success : ∀ status, call.status cfg s = some status → status.succeeds = true →
    ∀ write ∈ call.writes, eepromReadDataByte cfg (eepromInit cfg (call.exec cfg s)).1
      (BitVec.ofNat 16 write.1) = write.2
  badAddress : call.status cfg s = some .badAddress →
    (call.exec cfg s).dataBuf = s.dataBuf ∧ (call.exec cfg s).flash.cells = s.flash.cells

section OddWords

variable {cfg : Config} {s : Emulation} {address dataWord : HalfWord}

/-- The low byte of the two byte writes at an odd address. -/
def afterLow (cfg : Config) (s : Emulation) (address dataWord : HalfWord) : Emulation :=
  (eepromWriteDataByte cfg s address (dataWord.setWidth 8)).1

/-- Both bytes go where it is safe, and the status of the low byte is not lost: a high
byte that is skipped returns 0 whatever the low byte returned. -/
structure SafeOdd (cfg : Config) (s : Emulation) (address dataWord : HalfWord) : Prop where
  low : SafeByte cfg s address (dataWord.setWidth 8)
  high : CompactsByte cfg s address (dataWord.setWidth 8) ∨
    SafeByte cfg s (address + 1) ((dataWord >>> 8).setWidth 8)
  merged : s.dataBuf (address.toNat + 1) = (dataWord >>> 8).setWidth 8 →
    s.dataBuf address.toNat = dataWord.setWidth 8 ∨
      s.flash.Works (byteOps cfg s address (dataWord.setWidth 8))

theorem eepromWriteDataWord_bytes (odd : address.toNat % 2 = 1)
    (inside : address.toNat < cfg.densityBytes) :
    eepromWriteDataWord cfg s address dataWord =
      let high := eepromWriteDataByte cfg (afterLow cfg s address dataWord) (address + 1)
        ((dataWord >>> 8).setWidth 8)
      (high.1, if high.2 = .complete then
        (eepromWriteDataByte cfg s address (dataWord.setWidth 8)).2 else high.2) := by
  have notPast : ¬cfg.densityBytes ≤ address.toNat := by omega
  simp only [eepromWriteDataWord, notPast, odd, ↓reduceIte, afterLow]
  rfl

/-- The two byte writes at an odd address that report success together. -/
theorem oddWord_stored (fallible : s.flash.Fallible) (odd : address.toNat % 2 = 1)
    (inside : address.toNat + 1 < cfg.densityBytes) (safe : SafeOdd cfg s address dataWord)
    (lowErases : CompactsByte cfg s address (dataWord.setWidth 8) → s.flash.Works cfg.pageCount)
    (highErases : CompactsByte cfg (afterLow cfg s address dataWord) (address + 1)
      ((dataWord >>> 8).setWidth 8) → (afterLow cfg s address dataWord).flash.Works cfg.pageCount)
    (success : (eepromWriteDataWord cfg s address dataWord).2.succeeds = true) :
    contents cfg (eepromWriteDataWord cfg s address dataWord).1.flash.cells address.toNat =
        dataWord.setWidth 8 ∧
      contents cfg (eepromWriteDataWord cfg s address dataWord).1.flash.cells (address.toNat + 1) =
        (dataWord >>> 8).setWidth 8 := by
  have lowInside : address.toNat < cfg.densityBytes := by omega
  have next := next_toNat lowInside
  have lowSettles := eepromWriteDataByte_settles fallible lowInside lowErases
  have highSettles := eepromWriteDataByte_settles (s := afterLow cfg s address dataWord)
    (fallible.of_subset lowSettles.faults) (next ▸ inside) highErases
  have buffer : (afterLow cfg s address dataWord).dataBuf =
      Function.update s.dataBuf address.toNat (dataWord.setWidth 8) := lowSettles.dataBuf
  rw [eepromWriteDataWord_bytes odd lowInside] at success ⊢
  dsimp only at success
  simp only [← next]
  -- a failure of either byte shows in the merged status, unless the high byte is skipped
  obtain ⟨lowSuccess, highSuccess⟩ :
      (eepromWriteDataByte cfg s address (dataWord.setWidth 8)).2.succeeds = true ∧
        (eepromWriteDataByte cfg (afterLow cfg s address dataWord) (address + 1)
          ((dataWord >>> 8).setWidth 8)).2.succeeds = true := by
    have kept : (afterLow cfg s address dataWord).dataBuf (address + 1).toNat =
        s.dataBuf (address.toNat + 1) := by
      rw [buffer, next, Function.update_of_ne (by omega)]
    by_cases same : s.dataBuf (address.toNat + 1) = (dataWord >>> 8).setWidth 8
    · rw [highSettles.skips (kept.trans same)]
      refine ⟨?_, rfl⟩
      by_cases lowSame : s.dataBuf address.toNat = dataWord.setWidth 8
      · rw [lowSettles.skips lowSame]
        rfl
      · rw [eepromWriteDataByte_runs lowInside lowSame safe.low
          ((safe.merged same).resolve_left lowSame)]
        rfl
    · rcases highSettles.writes (fun held => same (kept.symm.trans held)) with ⟨complete, -⟩ | fails
      · rw [if_pos complete] at success
        exact ⟨success, by rw [complete]; rfl⟩
      · rw [if_neg (fun complete => by rw [complete] at fails; cases fails),
          fails_not_succeeds fails] at success
        cases success
  obtain ⟨lowStored, place⟩ := lowSettles.stored lowInside safe.low lowSuccess
  have apart : (address + 1).toNat / 2 ≠ address.toNat / 2 := by omega
  have highSafe : SafeByte cfg (afterLow cfg s address dataWord) (address + 1)
      ((dataWord >>> 8).setWidth 8) := by
    rcases place with compacted | ⟨fits, changes⟩
    · exact safeByte_of_compacted compacted (next ▸ inside)
    · refine (safe.high.resolve_left fits).carry changes apart (next ▸ inside) (fun other hit => ?_)
      rw [buffer, Function.update_of_ne (by omega)]
  obtain ⟨highStored, later⟩ := highSettles.stored (next ▸ inside) highSafe highSuccess
  refine ⟨?_, highStored⟩
  rcases later with compacted | ⟨-, changes⟩
  · rw [compacted.cached _ lowInside, highSettles.dataBuf, Function.update_of_ne (by omega), buffer,
      Function.update_self]
  · exact (changes.kept _ lowInside apart.symm).trans lowStored

end OddWords

section EvenWords

variable {cfg : Config} {s : Emulation} {address dataWord : HalfWord}

/-- A byte entry that reports success holds its byte and keeps those that the flash held. -/
theorem byteEntry_stored (fallible : s.flash.Fallible) (small : address.toNat < 0x80)
    (erases : cfg.logLast ≤ s.emptySlot → s.flash.Works cfg.pageCount)
    (reached : s.emptySlot < cfg.logLast → Intact cfg s)
    (success : (eepromWriteLogByteEntry cfg s address).2.succeeds = true) :
    Intact cfg (eepromWriteLogByteEntry cfg s address).1 ∧
      ∀ other < cfg.densityBytes, (other = address.toNat ∨ (s.emptySlot < cfg.logLast →
          contents cfg s.flash.cells other = s.dataBuf other)) →
        contents cfg (eepromWriteLogByteEntry cfg s address).1.flash.cells other =
          s.dataBuf other := by
  rcases Nat.lt_or_ge s.emptySlot cfg.logLast with room | full
  · rcases (eepromWriteLogByteEntry_settles fallible small room).2 with ⟨-, appends⟩ | fails
    · have appended := appends (reached room)
      refine ⟨appended.changes.intact (reached room), fun other below held => ?_⟩
      rw [appended.contents other below, overlay_cons, overlay_nil, Function.update_apply]
      split
      next hit => rw [hit]
      next away => exact (held.resolve_left away) room
    · rw [fails_not_succeeds fails] at success
      cases success
  · rw [eepromWriteLogByteEntry_full full] at success ⊢
    obtain ⟨⟨buffer, -⟩, (⟨-, compacted⟩ | fails)⟩ := eepromCompact_settles (erases full) fallible
    · refine ⟨compacted.intact, fun other below _ => ?_⟩
      rw [compacted.cached other below, buffer]
    · rw [fails_not_succeeds fails] at success
      cases success

/-- The cells of the log that `EEPROM_WriteDataWord` takes at an even address. -/
def wordCells (s : Emulation) (address dataWord : HalfWord) : Nat :=
  if s.dataBuf.word address.toNat = dataWord ∨
      s.flash.cells (address.toNat / 2) = feeEmptyWord then 0
  else if address < feeByteRange then
    (if s.dataBuf address.toNat = dataWord.setWidth 8 then 0 else 1) +
      (if s.dataBuf (address.toNat + 1) = (dataWord >>> 8).setWidth 8 then 0 else 1)
  else wordEntryCells dataWord

/-- Where the bytes of an even word go, a restart finds them; below `FEE_BYTE_RANGE` a byte
that is not written because it has not changed lies in flash. -/
structure SafeWord (cfg : Config) (s : Emulation) (address dataWord : HalfWord) : Prop where
  skipped : s.dataBuf.word address.toNat = dataWord →
    contents cfg s.flash.cells address.toNat = dataWord.setWidth 8 ∧
      contents cfg s.flash.cells (address.toNat + 1) = (dataWord >>> 8).setWidth 8
  direct : s.dataBuf.word address.toNat ≠ dataWord →
    s.flash.cells (address.toNat / 2) = feeEmptyWord →
    Unshadowed cfg s.flash.cells address.toNat (dataWord.setWidth 8) ∧
      Unshadowed cfg s.flash.cells (address.toNat + 1) ((dataWord >>> 8).setWidth 8)
  logged : 0 < wordCells s address dataWord →
    s.emptySlot + wordCells s address dataWord ≤ cfg.logLast → Intact cfg s
  unchanged : 0 < wordCells s address dataWord →
    s.emptySlot + wordCells s address dataWord ≤ cfg.logLast → address < feeByteRange →
    (s.dataBuf address.toNat = dataWord.setWidth 8 →
        contents cfg s.flash.cells address.toNat = dataWord.setWidth 8) ∧
      (s.dataBuf (address.toNat + 1) = (dataWord >>> 8).setWidth 8 →
        contents cfg s.flash.cells (address.toNat + 1) = (dataWord >>> 8).setWidth 8)

/-- The entry for the low byte of a word below `FEE_BYTE_RANGE`. -/
def lowEntry (cfg : Config) (s : Emulation) (address dataWord : HalfWord) :
    Emulation × FlashStatus :=
  if s.dataBuf address.toNat ≠ dataWord.setWidth 8 then
    eepromWriteLogByteEntry cfg (cacheWord s address dataWord) address
  else (cacheWord s address dataWord, .complete)

/-- The entry for the high byte behind it. -/
def highEntry (cfg : Config) (s : Emulation) (address dataWord : HalfWord) :
    Emulation × FlashStatus :=
  if s.dataBuf (address.toNat + 1) ≠ (dataWord >>> 8).setWidth 8 then
    eepromWriteLogByteEntry cfg (lowEntry cfg s address dataWord).1 (address + 1)
  else ((lowEntry cfg s address dataWord).1, .complete)

/-- The pages that the entries of a word below `FEE_BYTE_RANGE` compact are erased. -/
structure ErasesEntries (cfg : Config) (s : Emulation) (address dataWord : HalfWord) : Prop where
  low : s.dataBuf address.toNat ≠ dataWord.setWidth 8 → cfg.logLast ≤ s.emptySlot →
    s.flash.Works cfg.pageCount
  high : s.dataBuf (address.toNat + 1) ≠ (dataWord >>> 8).setWidth 8 →
    cfg.logLast ≤ (lowEntry cfg s address dataWord).1.emptySlot →
    (lowEntry cfg s address dataWord).1.flash.Works cfg.pageCount

theorem high_eq_iff (value other : HalfWord) :
    value >>> 8 = other >>> 8 ↔ (value >>> 8).setWidth 8 = (other >>> 8).setWidth 8 := by
  constructor
  · intro same
    rw [same]
  · intro same
    apply BitVec.eq_of_toNat_eq
    have below := value.isLt
    have otherBelow := other.isLt
    have bytes := congrArg BitVec.toNat same
    simp only [BitVec.toNat_setWidth, BitVec.toNat_ushiftRight, Nat.shiftRight_eq_div_pow] at bytes ⊢
    omega

theorem eepromWriteChangedBytes_entries (cfg : Config) (s : Emulation)
    (address dataWord : HalfWord) :
    eepromWriteChangedBytes cfg (cacheWord s address dataWord) address
        (s.dataBuf.word address.toNat) dataWord =
      ((highEntry cfg s address dataWord).1,
        if (highEntry cfg s address dataWord).2 = .complete then
          (lowEntry cfg s address dataWord).2
        else (highEntry cfg s address dataWord).2) := by
  have low := lowByte s.dataBuf address.toNat
  have high := high_eq_iff (s.dataBuf.word address.toNat) dataWord
  rw [highByte] at high
  by_cases same : s.dataBuf (address.toNat + 1) = (dataWord >>> 8).setWidth 8
  · simp only [eepromWriteChangedBytes, highEntry, lowEntry, low, ne_eq, high.mpr same, same,
      not_true_eq_false, ↓reduceIte]
  · have changed : ¬s.dataBuf.word address.toNat >>> 8 = dataWord >>> 8 :=
      fun held => same (high.mp held)
    simp only [eepromWriteChangedBytes, highEntry, lowEntry, low, ne_eq, changed, same,
      not_false_eq_true, ↓reduceIte]

/-- A byte entry reports success or that an operation failed. -/
theorem byteEntry_status (fallible : s.flash.Fallible) (small : address.toNat < 0x80)
    (erases : cfg.logLast ≤ s.emptySlot → s.flash.Works cfg.pageCount) :
    ((eepromWriteLogByteEntry cfg s address).1.dataBuf = s.dataBuf ∧
        (eepromWriteLogByteEntry cfg s address).1.flash.faults ⊆ s.flash.faults) ∧
      ((eepromWriteLogByteEntry cfg s address).2 = .complete ∨
        (eepromWriteLogByteEntry cfg s address).2.fails = true) := by
  rcases Nat.lt_or_ge s.emptySlot cfg.logLast with room | full
  · obtain ⟨⟨buffer, still, -⟩, outcome⟩ := eepromWriteLogByteEntry_settles fallible small room
    exact ⟨⟨buffer, still⟩, outcome.imp_left And.left⟩
  · rw [eepromWriteLogByteEntry_full full]
    obtain ⟨kept, outcome⟩ := eepromCompact_settles (erases full) fallible
    exact ⟨kept, outcome.imp_left And.left⟩

section Entries

variable (fallible : s.flash.Fallible) (even : address.toNat % 2 = 0)
  (small : address.toNat < 0x80) (inside : address.toNat < cfg.densityBytes)
  (erases : ErasesEntries cfg s address dataWord)

include fallible small erases in
theorem lowEntry_status :
    ((lowEntry cfg s address dataWord).1.dataBuf = (cacheWord s address dataWord).dataBuf ∧
        (lowEntry cfg s address dataWord).1.flash.faults ⊆ s.flash.faults) ∧
      ((lowEntry cfg s address dataWord).2 = .complete ∨
        (lowEntry cfg s address dataWord).2.fails = true) := by
  unfold lowEntry
  split
  next changed =>
    exact byteEntry_status (s := cacheWord s address dataWord) fallible small
      (erases.low changed)
  next => exact ⟨⟨rfl, fun _ => id⟩, .inl rfl⟩

include fallible even small inside erases in
theorem highEntry_status :
    ((highEntry cfg s address dataWord).1.dataBuf = (cacheWord s address dataWord).dataBuf ∧
        (highEntry cfg s address dataWord).1.flash.faults ⊆ s.flash.faults) ∧
      ((highEntry cfg s address dataWord).2 = .complete ∨
        (highEntry cfg s address dataWord).2.fails = true) := by
  obtain ⟨⟨buffer, subset⟩, -⟩ := lowEntry_status fallible small erases
  have still := fallible.of_subset subset
  have next := next_toNat inside
  unfold highEntry
  split
  next changed =>
    have nextSmall : (address + 1).toNat < 0x80 := by omega
    obtain ⟨⟨later, fine⟩, outcome⟩ := byteEntry_status still nextSmall (erases.high changed)
    exact ⟨⟨later.trans buffer, List.Subset.trans fine subset⟩, outcome⟩
  next => exact ⟨⟨buffer, subset⟩, .inl rfl⟩

/-- What the low byte's entry leaves for the high byte's: both bytes are found, as far as
they are not written yet, or the high byte's entry compacts. -/
structure Midway (cfg : Config) (s middle : Emulation) (address dataWord : HalfWord) : Prop where
  intact : Intact cfg middle
  low : contents cfg middle.flash.cells address.toNat = dataWord.setWidth 8
  high : s.dataBuf (address.toNat + 1) = (dataWord >>> 8).setWidth 8 →
    contents cfg middle.flash.cells (address.toNat + 1) = (dataWord >>> 8).setWidth 8

theorem cacheWord_low (s : Emulation) (address dataWord : HalfWord) :
    (cacheWord s address dataWord).dataBuf address.toNat = dataWord.setWidth 8 := by
  simp [cacheWord, DataBuf.setWord]

theorem cacheWord_high (s : Emulation) (address dataWord : HalfWord) :
    (cacheWord s address dataWord).dataBuf (address.toNat + 1) = (dataWord >>> 8).setWidth 8 := by
  simp [cacheWord, DataBuf.setWord]

theorem wordCells_small (changed : s.dataBuf.word address.toNat ≠ dataWord)
    (programmed : s.flash.cells (address.toNat / 2) ≠ feeEmptyWord)
    (below : address < feeByteRange) : wordCells s address dataWord =
      (if s.dataBuf address.toNat = dataWord.setWidth 8 then 0 else 1) +
        (if s.dataBuf (address.toNat + 1) = (dataWord >>> 8).setWidth 8 then 0 else 1) := by
  simp only [wordCells, changed, programmed, below, or_self, ↓reduceIte]

include fallible even small inside erases in
theorem lowEntry_midway (changed : s.dataBuf.word address.toNat ≠ dataWord)
    (programmed : s.flash.cells (address.toNat / 2) ≠ feeEmptyWord)
    (safe : SafeWord cfg s address dataWord)
    (success : (lowEntry cfg s address dataWord).2.succeeds = true) :
    Midway cfg s (lowEntry cfg s address dataWord).1 address dataWord ∨
      s.dataBuf (address.toNat + 1) ≠ (dataWord >>> 8).setWidth 8 ∧
        cfg.logLast ≤ (lowEntry cfg s address dataWord).1.emptySlot := by
  have below : address < feeByteRange := BitVec.lt_def.mpr small
  have cells := wordCells_small changed programmed below
  have densityEven := cfg.densityEven
  have lowCached := cacheWord_low s address dataWord
  have highCached := cacheWord_high s address dataWord
  by_cases lowSame : s.dataBuf address.toNat = dataWord.setWidth 8
  · have same : lowEntry cfg s address dataWord = (cacheWord s address dataWord, .complete) := by
      rw [lowEntry, if_neg (not_not.mpr lowSame)]
    rw [same]
    by_cases highSame : s.dataBuf (address.toNat + 1) = (dataWord >>> 8).setWidth 8
    · refine absurd ?_ changed
      rw [DataBuf.word, lowSame, highSame, bytes_append]
    · rw [if_pos lowSame, if_neg highSame] at cells
      rcases Nat.lt_or_ge s.emptySlot cfg.logLast with room | full
      · left
        have intact := safe.logged (by omega) (by omega)
        have held := safe.unchanged (by omega) (by omega) below
        exact ⟨⟨intact.slot, intact.blank⟩, held.1 lowSame, fun same => absurd same highSame⟩
      · exact .inr ⟨highSame, full⟩
  · have entry : lowEntry cfg s address dataWord =
        eepromWriteLogByteEntry cfg (cacheWord s address dataWord) address := by
      rw [lowEntry, if_pos lowSame]
    have next : address.toNat + 1 < cfg.densityBytes := by omega
    rw [if_neg lowSame] at cells
    rw [entry] at success ⊢
    have stored := byteEntry_stored (s := cacheWord s address dataWord) fallible small
      (erases.low lowSame)
    rcases Nat.lt_or_ge s.emptySlot cfg.logLast with room | full
    · by_cases fits : s.emptySlot + wordCells s address dataWord ≤ cfg.logLast
      · left
        have intact := safe.logged (by omega) fits
        obtain ⟨later, held⟩ := stored (fun _ => ⟨intact.slot, intact.blank⟩) success
        refine ⟨later, (held _ inside (.inl rfl)).trans lowCached, fun same => ?_⟩
        refine (held _ next (.inr fun _ => ?_)).trans highCached
        exact ((safe.unchanged (by omega) fits below).2 same).trans highCached.symm
      · right
        have slot := (eepromWriteLogByteEntry_settles (s := cacheWord s address dataWord)
          fallible small room).1.2.2
        have start : (cacheWord s address dataWord).emptySlot = s.emptySlot := rfl
        by_cases highSame : s.dataBuf (address.toNat + 1) = (dataWord >>> 8).setWidth 8
        · rw [if_pos highSame] at cells
          omega
        · rw [if_neg highSame] at cells
          exact ⟨highSame, by omega⟩
    · left
      have notRoom : ¬(cacheWord s address dataWord).emptySlot < cfg.logLast := Nat.not_lt.mpr full
      obtain ⟨later, held⟩ := stored (fun room => absurd room notRoom) success
      exact ⟨later, (held _ inside (.inl rfl)).trans lowCached,
        fun _ => (held _ next (.inr fun room => absurd room notRoom)).trans highCached⟩

include fallible even small inside erases in
/-- The byte entries of an even word that report success together. -/
theorem highEntry_stored (changed : s.dataBuf.word address.toNat ≠ dataWord)
    (programmed : s.flash.cells (address.toNat / 2) ≠ feeEmptyWord)
    (safe : SafeWord cfg s address dataWord)
    (lowSuccess : (lowEntry cfg s address dataWord).2.succeeds = true)
    (highSuccess : (highEntry cfg s address dataWord).2.succeeds = true) :
    contents cfg (highEntry cfg s address dataWord).1.flash.cells address.toNat =
        dataWord.setWidth 8 ∧
      contents cfg (highEntry cfg s address dataWord).1.flash.cells (address.toNat + 1) =
        (dataWord >>> 8).setWidth 8 := by
  have densityEven := cfg.densityEven
  have next := next_toNat inside
  have midway := lowEntry_midway fallible even small inside erases changed programmed safe lowSuccess
  obtain ⟨⟨buffer, subset⟩, -⟩ := lowEntry_status fallible small erases
  have still := fallible.of_subset subset
  by_cases highSame : s.dataBuf (address.toNat + 1) = (dataWord >>> 8).setWidth 8
  · have same : highEntry cfg s address dataWord =
        ((lowEntry cfg s address dataWord).1, .complete) := by
      rw [highEntry, if_neg (not_not.mpr highSame)]
    obtain found := midway.resolve_right (fun late => late.1 highSame)
    rw [same]
    exact ⟨found.low, found.high highSame⟩
  · have entry : highEntry cfg s address dataWord =
        eepromWriteLogByteEntry cfg (lowEntry cfg s address dataWord).1 (address + 1) := by
      rw [highEntry, if_pos highSame]
    rw [entry] at highSuccess ⊢
    have lowCached : (lowEntry cfg s address dataWord).1.dataBuf address.toNat =
        dataWord.setWidth 8 := by
      rw [buffer]
      exact cacheWord_low s address dataWord
    have highCached : (lowEntry cfg s address dataWord).1.dataBuf (address.toNat + 1) =
        (dataWord >>> 8).setWidth 8 := by
      rw [buffer]
      exact cacheWord_high s address dataWord
    have late : (lowEntry cfg s address dataWord).1.emptySlot < cfg.logLast →
        Midway cfg s (lowEntry cfg s address dataWord).1 address dataWord :=
      fun room => midway.resolve_right (fun full => absurd full.2 (Nat.not_le.mpr room))
    obtain ⟨-, held⟩ := byteEntry_stored still (by omega) (erases.high highSame)
      (fun room => (late room).intact) highSuccess
    refine ⟨(held _ inside (.inr fun room => (late room).low.trans lowCached.symm)).trans lowCached,
      (held _ (by omega) (.inl next.symm)).trans highCached⟩

end Entries

/-- The pages that an even word compacts are erased. -/
structure ErasesWord (cfg : Config) (s : Emulation) (address dataWord : HalfWord) : Prop where
  entries : s.dataBuf.word address.toNat ≠ dataWord →
    s.flash.cells (address.toNat / 2) ≠ feeEmptyWord → address < feeByteRange →
    ErasesEntries cfg s address dataWord
  word : s.dataBuf.word address.toNat ≠ dataWord →
    s.flash.cells (address.toNat / 2) ≠ feeEmptyWord → ¬address < feeByteRange →
    cfg.logLast < s.emptySlot + wordEntryCells dataWord → s.flash.Works cfg.pageCount

/-- What the result of a word write in range promises. -/
structure HonestWord (cfg : Config) (address dataWord : HalfWord)
    (result : Emulation × FlashStatus) : Prop where
  inRange : result.2 ≠ .badAddress
  success : result.2.succeeds = true →
    contents cfg result.1.flash.cells address.toNat = dataWord.setWidth 8 ∧
      contents cfg result.1.flash.cells (address.toNat + 1) = (dataWord >>> 8).setWidth 8

theorem fails_ne_badAddress {status : FlashStatus} (fails : status.fails = true) :
    status ≠ .badAddress := by
  rintro rfl
  cases fails

/-- A result that stores the word or reports a failure is honest. -/
theorem HonestWord.of_outcome {result : Emulation × FlashStatus}
    (outcome : result.2 = .complete ∧
        contents cfg result.1.flash.cells address.toNat = dataWord.setWidth 8 ∧
        contents cfg result.1.flash.cells (address.toNat + 1) = (dataWord >>> 8).setWidth 8 ∨
      result.2.fails = true) : HonestWord cfg address dataWord result := by
  rcases outcome with ⟨complete, stored⟩ | fails
  · exact ⟨by rw [complete]; decide, fun _ => stored⟩
  · refine ⟨fails_ne_badAddress fails, fun success => ?_⟩
    rw [fails_not_succeeds fails] at success
    cases success

/-- `EEPROM_WriteDataWord` at an even address in range -/
theorem evenWord_honest (fallible : s.flash.Fallible) (even : address.toNat % 2 = 0)
    (inside : address.toNat < cfg.densityBytes) (safe : SafeWord cfg s address dataWord)
    (erases : ErasesWord cfg s address dataWord) :
    HonestWord cfg address dataWord (eepromWriteDataWord cfg s address dataWord) := by
  have notPast : ¬cfg.densityBytes ≤ address.toNat := by omega
  have notOdd : ¬address.toNat % 2 = 1 := by omega
  have densityEven := cfg.densityEven
  have lowCached := cacheWord_low s address dataWord
  have highCached := cacheWord_high s address dataWord
  by_cases same : s.dataBuf.word address.toNat = dataWord
  · have skips : eepromWriteDataWord cfg s address dataWord = (s, .unset) := by
      simp only [eepromWriteDataWord, notPast, notOdd, same, ↓reduceIte]
    rw [skips]
    exact ⟨by simp, fun _ => safe.skipped same⟩
  have unfolded := eepromWriteDataWord_changed even inside same
  by_cases erased : s.flash.cells (address.toNat / 2) = feeEmptyWord
  · obtain ⟨-, settles⟩ := eepromWriteDirectEntry_settles (s := cacheWord s address dataWord)
      fallible inside erased
    have written : (eepromWriteDirectEntry (cacheWord s address dataWord) address).2 ≠ .unset := by
      rcases settles with ⟨complete, -⟩ | fails
      · rw [complete]
        decide
      · intro unset
        rw [unset] at fails
        cases fails
    rw [unfolded, if_neg written]
    apply HonestWord.of_outcome
    refine settles.imp_left (fun stored => ⟨stored.1, ?_, ?_⟩)
    · exact (stored.2.2.2 _ rfl (lowCached.symm ▸ (safe.direct same erased).1)).trans lowCached
    · exact (stored.2.2.2 _ (by omega) (highCached.symm ▸ (safe.direct same erased).2)).trans
        highCached
  rw [unfolded, eepromWriteDirectEntry_skips (s := cacheWord s address dataWord) erased, if_pos rfl]
  by_cases small : address < feeByteRange
  · have below : address.toNat < 0x80 := BitVec.lt_def.mp small
    have paged := erases.entries same erased small
    have lowStatus := (lowEntry_status fallible below paged).2
    have highStatus := (highEntry_status fallible even below inside paged).2
    rw [if_pos small, eepromWriteChangedBytes_entries]
    apply HonestWord.of_outcome
    rcases highStatus with highComplete | highFails
    · rw [if_pos highComplete]
      refine lowStatus.imp_left (fun lowComplete => ⟨lowComplete, ?_⟩)
      exact highEntry_stored fallible even below inside paged same erased safe
        (by rw [lowComplete]; rfl) (by rw [highComplete]; rfl)
    · right
      rw [if_neg]
      · exact highFails
      · intro complete
        rw [complete] at highFails
        cases highFails
  · have high : 0x80 ≤ address.toNat := by simpa [BitVec.lt_def, feeByteRange] using small
    have value : (cacheWord s address dataWord).dataBuf.word address.toNat = dataWord :=
      setWord_word s.dataBuf address.toNat dataWord
    have cells : wordCells s address dataWord = wordEntryCells dataWord := by
      simp only [wordCells, same, erased, small, or_self, ↓reduceIte]
    rw [if_neg small]
    apply HonestWord.of_outcome
    rcases Nat.lt_or_ge cfg.logLast (s.emptySlot + wordEntryCells dataWord) with full | room
    · rw [eepromWriteLogWordEntry_full (s := cacheWord s address dataWord) (by rwa [value])]
      obtain ⟨⟨buffer, -⟩, outcome⟩ := eepromCompact_settles (s := cacheWord s address dataWord)
        (erases.word same erased small full) fallible
      refine outcome.imp_left (fun compacts => ⟨compacts.1, ?_, ?_⟩)
      · rw [compacts.2.cached _ inside, buffer, lowCached]
      · rw [compacts.2.cached _ (by omega), buffer, highCached]
    · obtain ⟨-, outcome⟩ := eepromWriteLogWordEntry_settles (s := cacheWord s address dataWord)
        fallible even high inside (by rwa [value])
      refine outcome.imp_left (fun appends => ⟨appends.1, ?_⟩)
      have intact := safe.logged (cells ▸ wordEntryCells_pos _) (by rwa [cells])
      have appended := appends.2 ⟨intact.slot, intact.blank⟩
      rw [appended.contents _ inside, appended.contents _ (by omega), overlay_cached_word,
        overlay_cached_word, if_pos (.inl rfl), if_pos (.inr rfl)]
      exact ⟨lowCached, highCached⟩

end EvenWords

section Calls

variable {cfg : Config} {s : Emulation} {address dataWord : HalfWord}

/-- Every page that the call compacts is erased: only programs fail. -/
def Call.Erases (cfg : Config) (s : Emulation) : Call → Prop
  | .writeDataByte address dataByte =>
    CompactsByte cfg s address dataByte → s.flash.Works cfg.pageCount
  | .writeDataWord address dataWord =>
    (address.toNat % 2 = 0 → ErasesWord cfg s address dataWord) ∧
      (address.toNat % 2 = 1 → (CompactsByte cfg s address (dataWord.setWidth 8) →
          s.flash.Works cfg.pageCount) ∧
        (CompactsByte cfg (afterLow cfg s address dataWord) (address + 1)
            ((dataWord >>> 8).setWidth 8) →
          (afterLow cfg s address dataWord).flash.Works cfg.pageCount))
  | .init => True

/-- The bytes of the call go where a restart finds them, and a word at the last address
of the emulation changes nothing. -/
def Call.Safe (cfg : Config) (s : Emulation) : Call → Prop
  | .writeDataByte address dataByte =>
    address.toNat < cfg.densityBytes → SafeByte cfg s address dataByte
  | .writeDataWord address dataWord =>
    address.toNat < cfg.densityBytes →
      (address.toNat % 2 = 0 → SafeWord cfg s address dataWord) ∧
      (address.toNat % 2 = 1 → address.toNat + 1 < cfg.densityBytes →
        SafeOdd cfg s address dataWord) ∧
      (address.toNat + 1 = cfg.densityBytes → s.dataBuf address.toNat = dataWord.setWidth 8)
  | .init => True

/-- A word at the last address: its high byte lies outside. -/
theorem lastWord_badAddress (odd : address.toNat % 2 = 1)
    (last : address.toNat + 1 = cfg.densityBytes)
    (same : s.dataBuf address.toNat = dataWord.setWidth 8) :
    eepromWriteDataWord cfg s address dataWord = (s, .badAddress) := by
  have inside : address.toNat < cfg.densityBytes := by omega
  have notPast : ¬cfg.densityBytes ≤ address.toNat := by omega
  have next := next_toNat inside
  have past : cfg.densityBytes ≤ (address + 1).toNat := by omega
  have low : eepromWriteDataByte cfg s address (dataWord.setWidth 8) = (s, .unset) := by
    simp only [eepromWriteDataByte, notPast, same, ↓reduceIte]
  have high : eepromWriteDataByte cfg s (address + 1) ((dataWord >>> 8).setWidth 8) =
      (s, .badAddress) := by
    simp only [eepromWriteDataByte, past, ↓reduceIte]
  simp only [eepromWriteDataWord_bytes odd inside, afterLow, low, high, reduceCtorEq, ↓reduceIte]

/-- `EEPROM_WriteDataWord` at an odd address whose two bytes lie in range -/
theorem oddWord_honest (fallible : s.flash.Fallible) (odd : address.toNat % 2 = 1)
    (inside : address.toNat + 1 < cfg.densityBytes) (safe : SafeOdd cfg s address dataWord)
    (lowErases : CompactsByte cfg s address (dataWord.setWidth 8) → s.flash.Works cfg.pageCount)
    (highErases : CompactsByte cfg (afterLow cfg s address dataWord) (address + 1)
      ((dataWord >>> 8).setWidth 8) → (afterLow cfg s address dataWord).flash.Works cfg.pageCount) :
    HonestWord cfg address dataWord (eepromWriteDataWord cfg s address dataWord) := by
  have lowInside : address.toNat < cfg.densityBytes := by omega
  have next := next_toNat lowInside
  have low := eepromWriteDataByte_settles fallible lowInside lowErases
  have high := eepromWriteDataByte_settles (s := afterLow cfg s address dataWord)
    (fallible.of_subset low.faults) (next ▸ inside) highErases
  refine ⟨?_, oddWord_stored fallible odd inside safe lowErases highErases⟩
  rw [eepromWriteDataWord_bytes odd lowInside]
  dsimp only
  split
  · exact low.not_badAddress
  · exact high.not_badAddress

theorem HonestWord.honest (inside : address.toNat + 1 < cfg.densityBytes)
    (word : HonestWord cfg address dataWord (eepromWriteDataWord cfg s address dataWord)) :
    Honest cfg s (.writeDataWord address dataWord) := by
  refine ⟨?_, fun bad => absurd (Option.some.inj bad) word.inRange⟩
  rintro status returned success write member
  obtain rfl := Option.some.inj returned
  obtain ⟨low, high⟩ := word.success success
  simp only [Call.writes, wordWrites, List.mem_cons, List.not_mem_nil, or_false] at member
  rcases member with rfl | rfl
  · exact (reads_contents _ (by omega)).trans low
  · exact (reads_contents _ inside).trans high

/-- With every pattern of failing programs, a call whose bytes go where it is safe returns
success only if a restart reads them back, and a bad address only if nothing changed. -/
theorem status_honest (cfg : Config) (s : Emulation) (call : Call)
    (fallible : s.flash.Fallible) (erases : call.Erases cfg s) (safe : call.Safe cfg s) :
    Honest cfg s call := by
  cases call with
  | writeDataByte address dataByte =>
    by_cases inside : address.toNat < cfg.densityBytes
    · have settles := eepromWriteDataByte_settles fallible inside erases
      refine ⟨?_, fun bad => absurd (Option.some.inj bad) settles.not_badAddress⟩
      rintro status returned success write member
      obtain rfl := Option.some.inj returned
      obtain rfl := List.mem_singleton.mp member
      exact (reads_contents _ inside).trans (settles.stored inside (safe inside) success).1
    · have past : eepromWriteDataByte cfg s address dataByte = (s, .badAddress) := by
        rw [eepromWriteDataByte, if_pos (Nat.not_lt.mp inside)]
      refine ⟨?_, fun _ => by simp only [Call.exec, past, and_self]⟩
      rintro status returned success
      rw [Call.status, past] at returned
      obtain rfl := Option.some.inj returned
      cases success
  | writeDataWord address dataWord =>
    by_cases inside : address.toNat < cfg.densityBytes
    · have densityEven := cfg.densityEven
      obtain ⟨evenSafe, oddSafe, lastSafe⟩ := safe inside
      rcases Nat.mod_two_eq_zero_or_one address.toNat with even | odd
      · exact (evenWord_honest fallible even inside (evenSafe even) (erases.1 even)).honest (by omega)
      · by_cases next : address.toNat + 1 < cfg.densityBytes
        · obtain ⟨lowErases, highErases⟩ := erases.2 odd
          exact (oddWord_honest fallible odd next (oddSafe odd next) lowErases highErases).honest next
        · have last : address.toNat + 1 = cfg.densityBytes := by omega
          have result := lastWord_badAddress odd last (lastSafe last)
          refine ⟨?_, fun _ => by simp only [Call.exec, result, and_self]⟩
          rintro status returned success
          rw [Call.status, result] at returned
          obtain rfl := Option.some.inj returned
          cases success
    · have past : eepromWriteDataWord cfg s address dataWord = (s, .badAddress) := by
        rw [eepromWriteDataWord, if_pos (Nat.not_lt.mp inside)]
      refine ⟨?_, fun _ => by simp only [Call.exec, past, and_self]⟩
      rintro status returned success
      rw [Call.status, past] at returned
      obtain rfl := Option.some.inj returned
      cases success
  | init =>
    refine ⟨?_, ?_⟩
    · rintro status returned
      cases returned
    · rintro bad
      cases bad

end Calls

section Examples

/-- Room for the word at address 1. -/
def sixByteConfig : Config :=
  { tinyConfig with
    densityBytes := 6
    densityEven := (by decide : (5 + 1) % 2 = 0)
    fits := by decide
    addressable := by decide }

/-- Power on over erased flash; the next program is going to fail. -/
def programFails (cfg : Config) : Emulation :=
  { powerOn cfg erasedCells with flash := { cells := erasedCells, faults := [some .errorPg] } }

theorem programFails_fallible (cfg : Config) : (programFails cfg).flash.Fallible := by
  intro status member
  obtain rfl : status = .errorPg := by simpa [programFails] using member
  rfl

/-- Both bytes change: the failure of the low byte's program is reported. -/
theorem status_honest_odd :
    Honest sixByteConfig (programFails sixByteConfig) (.writeDataWord 1 0x0605) := by
  have low : SafeByte sixByteConfig (programFails sixByteConfig) 1 5 :=
    ⟨fun same => absurd same (by decide), fun _ _ => unshadowed_of_empty (by decide),
      fun some => absurd some (by decide)⟩
  have high : SafeByte sixByteConfig (programFails sixByteConfig) 2 6 :=
    ⟨fun same => absurd same (by decide), fun _ _ => unshadowed_of_empty (by decide),
      fun some => absurd some (by decide)⟩
  apply status_honest _ _ _ (programFails_fallible _)
  · exact ⟨fun even => absurd even (by decide), fun _ =>
      ⟨fun compacts => absurd compacts.1 (by decide), fun compacts => absurd compacts.1 (by decide)⟩⟩
  · exact fun _ => ⟨fun even => absurd even (by decide),
      fun _ _ => ⟨low, .inr high, fun same => absurd same (by decide)⟩,
      fun last => absurd last (by decide)⟩

/-- The low byte's program fails and the high byte is skipped: the call returns 0. A retry
of the byte whose program failed returns 0 too, and a word at the last address returns
`FLASH_BAD_ADDRESS` after it has changed its low byte. -/
theorem status_lies :
    ¬(∀ (cfg : Config) (s : Emulation) (call : Call), s.flash.Fallible → call.Erases cfg s →
      Honest cfg s call) ∧
    ¬Honest sixByteConfig (programFails sixByteConfig) (.writeDataWord 1 5) ∧
    ¬Honest tinyConfig (eepromWriteDataByte tinyConfig (programFails tinyConfig) 0 5).1
      (.writeDataByte 0 5) ∧
    ¬Honest tinyConfig (powerOn tinyConfig erasedCells) (.writeDataWord 1 5) := by
  have odd : ¬Honest sixByteConfig (programFails sixByteConfig) (.writeDataWord 1 5) := by
    intro honest
    have read := honest.success .unset (by decide) rfl (1, 5) (by decide)
    exact absurd read (by decide)
  refine ⟨fun honest => odd ?_, odd, fun honest => ?_, fun honest => ?_⟩
  · apply honest _ _ _ (programFails_fallible _)
    exact ⟨fun even => absurd even (by decide), fun _ =>
      ⟨fun compacts => absurd compacts.1 (by decide), fun compacts => absurd compacts.1 (by decide)⟩⟩
  · have read := honest.success .unset (by decide) rfl (0, 5) (by decide)
    exact absurd read (by decide)
  · have unchanged := (honest.badAddress (by decide)).1
    exact absurd (congrFun unchanged 1) (by decide)

end Examples

end QmkSonix.Eeprom
