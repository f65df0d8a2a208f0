import QmkSonix.Eeprom.Durability

/-! What the entry writers do when programs of the flash may fail: each of them reports
a failure, or the flash stands for what it was asked to write. -/

namespace QmkSonix.Eeprom

open QmkSonix.Lib

/-- The reports of `FLASH_ProgramHalfWord` when it fails. -/
def FlashStatus.fails : FlashStatus → Bool
  | .busy | .errorPg | .errorWrp | .errorOpt | .timeout => true
  | .unset | .complete | .badAddress => false

/-- 0 or `FLASH_COMPLETE` -/
def FlashStatus.succeeds (status : FlashStatus) : Bool := status = .unset ∨ status = .complete

/-- An operation that does not run reports that it has failed. -/
def Flash.Fallible (flash : Flash) : Prop :=
  ∀ status, some status ∈ flash.faults → status.fails = true

/-- `EEPROM_Init` would read the log up to `empty_slot`, and nothing lies behind it. -/
structure Intact (cfg : Config) (s : Emulation) : Prop where
  slot : s.emptySlot = logEnd cfg s.flash.cells
  blank : ∀ cell, s.emptySlot ≤ cell → cell < cfg.logLast → s.flash.cells cell = feeEmptyWord

/-- The last entry of the log for the address, where there is one, carries the byte. -/
def Unshadowed (cfg : Config) (cells : Cells) (address : Nat) (dataByte : Byte) : Prop :=
  ∀ logged, lastWrite (logWrites cfg cells) address = some logged → logged = dataByte

/-- The flash stands for the whole cache, and the log is empty. -/
structure Compacted (cfg : Config) (s : Emulation) : Prop where
  cached : ∀ address < cfg.densityBytes, contents cfg s.flash.cells address = s.dataBuf address
  unlogged : logWrites cfg s.flash.cells = []
  intact : Intact cfg s

/-- A writer that does not compact: it changes the bytes of one word only, and the log
stays in order. -/
structure Changes (cfg : Config) (s after : Emulation) (word : Nat) : Prop where
  kept : ∀ address < cfg.densityBytes, address / 2 ≠ word →
    contents cfg after.flash.cells address = contents cfg s.flash.cells address
  words : ∀ cell < cfg.logBase, cell ≠ word → after.flash.cells cell = s.flash.cells cell
  logged : ∀ address, address / 2 ≠ word → lastWrite (logWrites cfg after.flash.cells) address =
    lastWrite (logWrites cfg s.flash.cells) address
  slot : s.emptySlot ≤ after.emptySlot
  intact : Intact cfg s → Intact cfg after

section Programs

variable {flash : Flash} {status : FlashStatus}

theorem fails_not_succeeds (fails : status.fails = true) : status.succeeds = false := by
  cases status <;> first | rfl | cases fails

theorem Flash.Fallible.of_subset {less : Flash} (fallible : flash.Fallible)
    (subset : less.faults ⊆ flash.faults) : less.Fallible :=
  fun status member => fallible status (subset member)

/-- A program uses up one report. -/
theorem programHalfWord_flags (unlocked : flash.locked = false) (cell : Nat) (data : HalfWord) :
    (flash.programHalfWord cell data).1.locked = false ∧
      (flash.programHalfWord cell data).1.faults = flash.faults.tail := by
  unfold Flash.programHalfWord
  rw [unlocked, if_neg Bool.false_ne_true]
  split
  next => exact ⟨rfl, rfl⟩
  next => split <;> exact ⟨rfl, rfl⟩

theorem programHalfWord_settles (unlocked : flash.locked = false) (fallible : flash.Fallible)
    (cell : Nat) (data : HalfWord) :
    (flash.programHalfWord cell data).2 = .complete ∧
        (flash.programHalfWord cell data).1.cells = Function.update flash.cells cell data ∨
      (flash.programHalfWord cell data).2.fails = true := by
  unfold Flash.programHalfWord
  rw [unlocked, if_neg Bool.false_ne_true]
  split
  next status scripted =>
    right
    apply fallible status
    cases faults : flash.faults with
    | nil => simp [faults] at scripted
    | cons entry rest =>
      have first : entry = some status := by simpa [faults] using scripted
      rw [first]
      exact List.mem_cons_self ..
  next =>
    split
    next => exact .inl ⟨rfl, rfl⟩
    next => exact .inr rfl

theorem programHalfWord_runs (unlocked : flash.locked = false)
    (runs : flash.faults.head?.join = none) {cell : Nat}
    (erased : flash.cells cell = feeEmptyWord) (data : HalfWord) :
    flash.programHalfWord cell data =
      ({ flash with
          cells := Function.update flash.cells cell data
          faults := flash.faults.tail
          ops := flash.ops ++ [.programHalfWord cell data] }, .complete) := by
  simp [Flash.programHalfWord, unlocked, runs, erased]

end Programs

section Compact

variable {cfg : Config} {buf : DataBuf} {flash : Flash}

/-- The loop of `eeprom_compact` reports success only if every program ran. -/
theorem compactCells_settles (buf : DataBuf) (unlocked : flash.locked = false)
    (fallible : flash.Fallible) (count : Nat) :
    ((compactCells buf flash count).1.locked = false ∧
        (compactCells buf flash count).1.faults ⊆ flash.faults) ∧
      ((compactCells buf flash count).2 = .complete ∧
          (∀ cell, (compactCells buf flash count).1.cells cell =
            if cell < count ∧ buf.word (2 * cell) ≠ 0 then ~~~buf.word (2 * cell)
            else flash.cells cell) ∨
        (compactCells buf flash count).2.fails = true) := by
  induction count with
  | zero => exact ⟨⟨unlocked, fun _ => id⟩, .inl ⟨rfl, by simp [compactCells]⟩⟩
  | succ count ih =>
    obtain ⟨⟨open', subset⟩, earlier⟩ := ih
    have still := fallible.of_subset subset
    rw [compactCells_succ]
    by_cases zero : buf.word (2 * count) = 0
    · have skipped : compactCell buf (compactCells buf flash count) count =
          compactCells buf flash count := by simp [compactCell, zero]
      rw [skipped]
      refine ⟨⟨open', subset⟩, earlier.imp_left ?_⟩
      rintro ⟨status, cells⟩
      refine ⟨status, fun cell => ?_⟩
      rw [cells]
      by_cases here : cell = count
      · subst here
        simp [zero]
      · have same : cell < count + 1 ↔ cell < count := by omega
        simp only [same]
    · simp only [compactCell, zero, ↓reduceIte]
      obtain ⟨stays, behind⟩ := programHalfWord_flags open' count (~~~buf.word (2 * count))
      have tail : (compactCells buf flash count).1.faults.tail ⊆
          (compactCells buf flash count).1.faults := fun _ => List.mem_of_mem_tail
      refine ⟨⟨stays, behind ▸ List.Subset.trans tail subset⟩, ?_⟩
      rcases programHalfWord_settles open' still count (~~~buf.word (2 * count)) with
        ⟨complete, updated⟩ | fails
      · rw [if_pos complete]
        refine earlier.imp_left ?_
        rintro ⟨status, cells⟩
        refine ⟨status, fun cell => ?_⟩
        rw [updated]
        by_cases here : cell = count
        · rw [here, Function.update_self, if_pos ⟨Nat.lt_succ_self count, zero⟩]
        · have same : cell < count + 1 ↔ cell < count := by omega
          rw [Function.update_of_ne here, cells]
          simp only [same]
      · right
        rw [if_neg]
        · exact fails
        · rintro complete
          rw [complete] at fails
          cases fails

/-- `eeprom_compact` keeps the cache, and reports success only if the flash stands
for it. -/
theorem eepromCompact_settles {s : Emulation} (works : s.flash.Works cfg.pageCount)
    (fallible : s.flash.Fallible) :
    ((eepromCompact cfg s).1.dataBuf = s.dataBuf ∧
        (eepromCompact cfg s).1.flash.faults ⊆ s.flash.faults) ∧
      ((eepromCompact cfg s).2 = .complete ∧ Compacted cfg (eepromCompact cfg s).1 ∨
        (eepromCompact cfg s).2.fails = true) := by
  obtain ⟨erased, dropped, -, -, -⟩ := eepromClear_spec cfg s works
  have stillFallible : (eepromClear cfg s).flash.unlock.Fallible :=
    fallible.of_subset (dropped ▸ List.drop_subset _ _)
  have unlocked : (eepromClear cfg s).flash.unlock.locked = false := rfl
  obtain ⟨⟨-, behind⟩, settles⟩ := compactCells_settles s.dataBuf unlocked stillFallible cfg.logBase
  refine ⟨⟨rfl, List.Subset.trans behind (dropped ▸ List.drop_subset _ _)⟩, settles.imp_left ?_⟩
  rintro ⟨status, cells⟩
  refine ⟨status, ?_⟩
  have order := logBase_le_logLast cfg
  have blank : ∀ cell, cfg.logBase ≤ cell → cell < cfg.logLast →
      (eepromCompact cfg s).1.flash.cells cell = feeEmptyWord := by
    intro cell above below
    refine (cells cell).trans ?_
    rw [if_neg (by omega)]
    exact erased cell below
  obtain ⟨empty, stop⟩ := log_of_blank blank
  refine ⟨fun address below => ?_, empty, stop.symm, blank⟩
  have compacted := half_lt_logBase below
  rw [contents_of_blank blank]
  apply compactedByte_of_word
  refine (cells _).trans ?_
  split
  next => rfl
  next skipped =>
    have zero : s.dataBuf.word (2 * (address / 2)) = 0 := by
      by_contra nonzero
      exact skipped ⟨compacted, nonzero⟩
    have same : (eepromCompact cfg s).1.dataBuf = s.dataBuf := rfl
    exact (erased _ (by omega)).trans (by rw [same, zero]; decide)

end Compact

section Entries

variable {cfg : Config} {s : Emulation} {address : HalfWord}

theorem Changes.refl (cfg : Config) (s : Emulation) (word : Nat) : Changes cfg s s word :=
  ⟨fun _ _ _ => rfl, fun _ _ _ => rfl, fun _ _ => rfl, Nat.le_refl _, id⟩

/-- A byte that the compacted area holds is read back unless the log says otherwise. -/
theorem contents_unshadowed {cells : Cells} {other : Nat} {dataByte : Byte}
    (unshadowed : Unshadowed cfg cells other dataByte)
    (held : compactedByte cells other = dataByte) : contents cfg cells other = dataByte := by
  rw [contents, overlay_apply]
  cases last : lastWrite (logWrites cfg cells) other with
  | none => exact held
  | some logged => exact unshadowed logged last

/-- Programming an erased compacted word changes nothing else. -/
theorem changes_direct {after : Emulation} {word : Nat} {value : HalfWord}
    (compacted : word < cfg.logBase)
    (updated : after.flash.cells = Function.update s.flash.cells word value)
    (slot : after.emptySlot = s.emptySlot) : Changes cfg s after word := by
  obtain ⟨writes, stop⟩ := log_direct compacted s.flash.cells value
  refine ⟨fun other below away => ?_, fun cell _ away => ?_, fun other away => ?_,
    Nat.le_of_eq slot.symm, fun intact => ⟨?_, fun cell above below => ?_⟩⟩
  · rw [updated, contents, writes]
    apply overlay_congr
    exact compactedByte_congr (Function.update_of_ne away _ _)
  · rw [updated, Function.update_of_ne away]
  · rw [updated, writes]
  · rw [slot, updated, stop]
    exact intact.slot
  · have order := (logEnd_bounds cfg s.flash.cells).1
    rw [slot] at above
    have away : cell ≠ word := by
      have start := intact.slot
      omega
    rw [updated, Function.update_of_ne away]
    exact intact.blank cell above below

/-- `eeprom_write_direct_entry` over an erased word: a byte of it is read back where no
entry of the log says otherwise. -/
theorem eepromWriteDirectEntry_settles (fallible : s.flash.Fallible)
    (inside : address.toNat < cfg.densityBytes)
    (erased : s.flash.cells (address.toNat / 2) = feeEmptyWord) :
    ((eepromWriteDirectEntry s address).1.dataBuf = s.dataBuf ∧
        (eepromWriteDirectEntry s address).1.flash.faults ⊆ s.flash.faults) ∧
      ((eepromWriteDirectEntry s address).2 = .complete ∧
          Changes cfg s (eepromWriteDirectEntry s address).1 (address.toNat / 2) ∧
          logWrites cfg (eepromWriteDirectEntry s address).1.flash.cells =
            logWrites cfg s.flash.cells ∧
          (∀ other, other / 2 = address.toNat / 2 →
            Unshadowed cfg s.flash.cells other (s.dataBuf other) →
            contents cfg (eepromWriteDirectEntry s address).1.flash.cells other =
              s.dataBuf other) ∨
        (eepromWriteDirectEntry s address).2.fails = true) := by
  have compacted := half_lt_logBase inside
  by_cases empty : ~~~s.dataBuf.word (2 * (address.toNat / 2)) = feeEmptyWord
  · rw [eepromWriteDirectEntry_zero erased empty]
    refine ⟨⟨rfl, fun _ => id⟩, .inl ⟨rfl, .refl cfg s _, rfl, ?_⟩⟩
    intro other hit unshadowed
    apply contents_unshadowed unshadowed
    apply compactedByte_of_word
    rw [hit, erased, empty]
  · have cell : 2 * (address.toNat / 2) / 2 = address.toNat / 2 := by omega
    have unlocked : s.flash.unlock.locked = false := rfl
    have open' : s.flash.unlock.Fallible := fallible
    obtain ⟨-, behind⟩ := programHalfWord_flags unlocked (address.toNat / 2)
      (~~~s.dataBuf.word (2 * (address.toNat / 2)))
    have settles := programHalfWord_settles unlocked open' (address.toNat / 2)
      (~~~s.dataBuf.word (2 * (address.toNat / 2)))
    simp only [eepromWriteDirectEntry, aligned_toNat, cell, erased, empty, ↓reduceIte]
    refine ⟨⟨trivial, behind ▸ fun _ => List.mem_of_mem_tail⟩,
      settles.imp_left ?_⟩
    rintro ⟨status, updated⟩
    have writes := (log_direct compacted s.flash.cells
      (~~~s.dataBuf.word (2 * (address.toNat / 2)))).1
    refine ⟨status, changes_direct compacted updated rfl, by
      rw [Flash.lock_cells, updated, Flash.unlock_cells, writes], fun other hit unshadowed => ?_⟩
    rw [Flash.lock_cells, updated, Flash.unlock_cells]
    apply contents_unshadowed
    · rwa [Unshadowed, writes]
    · apply compactedByte_of_word
      rw [hit, Function.update_self]

/-- An entry behind an intact log comes over what the flash held before. -/
structure Appended (cfg : Config) (s after : Emulation) (word : Nat)
    (new : List (Nat × Byte)) : Prop where
  changes : Changes cfg s after word
  compacted : ∀ cell < cfg.logBase, after.flash.cells cell = s.flash.cells cell
  writes : logWrites cfg after.flash.cells = logWrites cfg s.flash.cells ++ new
  contents : ∀ address < cfg.densityBytes, Eeprom.contents cfg after.flash.cells address =
    overlay new (Eeprom.contents cfg s.flash.cells) address

theorem lastWrite_append_away {old new : List (Nat × Byte)} {other : Nat}
    (away : ∀ write ∈ new, write.1 ≠ other) :
    lastWrite (old ++ new) other = lastWrite old other := by
  have none : new.reverse.lookup other = none := by
    rw [List.lookup_eq_none_iff]
    intro write member
    simpa using (away write (List.mem_reverse.mp member)).symm
  rw [lastWrite, List.reverse_append, List.lookup_append, none, Option.none_or, lastWrite]

theorem appended_of_log {after : Emulation} {image : Cells} {word size : Nat}
    {new : List (Nat × Byte)} (intact : Intact cfg s) (cells : after.flash.cells = image)
    (slot : after.emptySlot = s.emptySlot + size)
    (writes : logWrites cfg image = logWrites cfg s.flash.cells ++ new)
    (stop : logEnd cfg image = s.emptySlot + size)
    (elsewhere : ∀ cell, cell < s.emptySlot ∨ s.emptySlot + size ≤ cell →
      image cell = s.flash.cells cell)
    (within : ∀ write ∈ new, write.1 / 2 = word) : Appended cfg s after word new := by
  subst cells
  have order := (logEnd_bounds cfg s.flash.cells).1
  rw [← intact.slot] at order
  have compacted : ∀ cell < cfg.logBase, after.flash.cells cell = s.flash.cells cell :=
    fun cell below => elsewhere cell (.inl (by omega))
  refine ⟨⟨?_, fun cell below _ => compacted cell below, ?_, by omega, fun _ => ⟨?_, ?_⟩⟩,
    compacted, writes, fun address below => contents_append writes compacted below⟩
  · intro address below away
    rw [contents_append writes compacted below]
    apply overlay_of_unwritten
    rintro write member rfl
    exact away (within write member)
  · intro address away
    rw [writes]
    apply lastWrite_append_away
    rintro write member rfl
    exact away (within write member)
  · rw [slot, stop]
  · intro cell above below
    rw [elsewhere cell (.inr (by omega))]
    exact intact.blank cell (by omega) below

/-- `eeprom_write_log_byte_entry` with room in the log. -/
theorem eepromWriteLogByteEntry_settles (fallible : s.flash.Fallible)
    (small : address.toNat < 0x80) (room : s.emptySlot < cfg.logLast) :
    ((eepromWriteLogByteEntry cfg s address).1.dataBuf = s.dataBuf ∧
        (eepromWriteLogByteEntry cfg s address).1.flash.faults ⊆ s.flash.faults ∧
        (eepromWriteLogByteEntry cfg s address).1.emptySlot = s.emptySlot + 1) ∧
      ((eepromWriteLogByteEntry cfg s address).2 = .complete ∧
          (Intact cfg s → Appended cfg s (eepromWriteLogByteEntry cfg s address).1
            (address.toNat / 2) [(address.toNat, s.dataBuf address.toNat)]) ∨
        (eepromWriteLogByteEntry cfg s address).2.fails = true) := by
  have notFull : ¬cfg.logLast ≤ s.emptySlot := by omega
  have unlocked : s.flash.unlock.locked = false := rfl
  have open' : s.flash.unlock.Fallible := fallible
  obtain ⟨-, behind⟩ := programHalfWord_flags unlocked s.emptySlot
    (byteHeader address (s.dataBuf address.toNat))
  have settles := programHalfWord_settles unlocked open' s.emptySlot
    (byteHeader address (s.dataBuf address.toNat))
  unfold byteHeader at behind settles
  simp only [eepromWriteLogByteEntry, notFull, ↓reduceIte]
  refine ⟨⟨trivial, behind ▸ fun _ => List.mem_of_mem_tail, trivial⟩,
    settles.imp_left ?_⟩
  rintro ⟨status, updated⟩
  refine ⟨status, fun intact => ?_⟩
  have start := intact.slot
  obtain ⟨writes, stop⟩ := log_append_single (start ▸ intact.blank) (start ▸ room)
    (byteHeader_used small (s.dataBuf address.toNat))
    (byteHeader_single small (s.dataBuf address.toNat))
  rw [byteHeader_writes cfg small, ← start] at writes
  rw [← start] at stop
  exact appended_of_log intact updated rfl writes stop
    (fun cell away => Function.update_of_ne (by omega) _ _) (by simp)

/-- The cells of the log that a word above the byte range takes. -/
def wordEntryCells (value : HalfWord) : Nat := if value ≤ 1 then 1 else 2

theorem wordWrites_within (even : address.toNat % 2 = 0) (value : HalfWord) :
    ∀ write ∈ wordWrites address.toNat value, write.1 / 2 = address.toNat / 2 := by
  intro write member
  simp only [wordWrites, List.mem_cons, List.not_mem_nil, or_false] at member
  rcases member with rfl | rfl
  · rfl
  · simp only
    omega

/-- `eeprom_write_log_word_entry` with room in the log for a value of 0 or 1. -/
theorem eepromWriteLogWordEntry_settles_short (fallible : s.flash.Fallible)
    (even : address.toNat % 2 = 0) (inside : address.toNat < cfg.densityBytes)
    (short : s.dataBuf.word address.toNat ≤ 1) (room : s.emptySlot + 1 ≤ cfg.logLast) :
    ((eepromWriteLogWordEntry cfg s address).1.dataBuf = s.dataBuf ∧
        (eepromWriteLogWordEntry cfg s address).1.flash.faults ⊆ s.flash.faults) ∧
      ((eepromWriteLogWordEntry cfg s address).2 = .complete ∧
          (Intact cfg s → Appended cfg s (eepromWriteLogWordEntry cfg s address).1
            (address.toNat / 2) (wordWrites address.toNat (s.dataBuf.word address.toNat))) ∨
        (eepromWriteLogWordEntry cfg s address).2.fails = true) := by
  have bound : address.toNat < feeAddressMaxSize := Nat.lt_of_lt_of_le inside cfg.addressable
  have notFull : ¬cfg.logLast < s.emptySlot + 2 / 2 := by omega
  have encoding : feeWordEncoding ||| (s.dataBuf.word address.toNat <<< 13) ≠
      feeWordEncoding ||| feeValueNext := by
    rcases le_one_cases short with zero | one
    · rw [zero]; decide
    · rw [one]; decide
  have unlocked : s.flash.unlock.locked = false := rfl
  have open' : s.flash.unlock.Fallible := fallible
  obtain ⟨-, behind⟩ := programHalfWord_flags unlocked s.emptySlot
    (shortHeader address (s.dataBuf.word address.toNat))
  have settles := programHalfWord_settles unlocked open' s.emptySlot
    (shortHeader address (s.dataBuf.word address.toNat))
  unfold shortHeader at behind settles
  simp only [eepromWriteLogWordEntry, short, notFull, encoding, ↓reduceIte]
  refine ⟨⟨trivial, behind ▸ fun _ => List.mem_of_mem_tail⟩,
    settles.imp_left ?_⟩
  rintro ⟨status, updated⟩
  refine ⟨status, fun intact => ?_⟩
  have start := intact.slot
  obtain ⟨writes, stop⟩ := log_append_single (start ▸ intact.blank) (start ▸ room)
    (shortHeader_used bound short) (shortHeader_single bound short)
  rw [shortHeader_writes bound short even inside, ← start] at writes
  rw [← start] at stop
  exact appended_of_log intact updated rfl writes stop
    (fun cell away => Function.update_of_ne (by omega) _ _) (wordWrites_within even _)

/-- `eeprom_write_log_word_entry` with room in the log for any other value. -/
theorem eepromWriteLogWordEntry_settles_long (fallible : s.flash.Fallible)
    (even : address.toNat % 2 = 0) (high : 0x80 ≤ address.toNat)
    (inside : address.toNat < cfg.densityBytes)
    (long : ¬s.dataBuf.word address.toNat ≤ 1) (room : s.emptySlot + 2 ≤ cfg.logLast) :
    ((eepromWriteLogWordEntry cfg s address).1.dataBuf = s.dataBuf ∧
        (eepromWriteLogWordEntry cfg s address).1.flash.faults ⊆ s.flash.faults) ∧
      ((eepromWriteLogWordEntry cfg s address).2 = .complete ∧
          (Intact cfg s → Appended cfg s (eepromWriteLogWordEntry cfg s address).1
            (address.toNat / 2) (wordWrites address.toNat (s.dataBuf.word address.toNat))) ∨
        (eepromWriteLogWordEntry cfg s address).2.fails = true) := by
  have bound : address.toNat < feeAddressMaxSize := Nat.lt_of_lt_of_le inside cfg.addressable
  have notFull : ¬cfg.logLast < s.emptySlot + 4 / 2 := by omega
  have unlocked : s.flash.unlock.locked = false := rfl
  have open' : s.flash.unlock.Fallible := fallible
  have header := programHalfWord_settles unlocked open' s.emptySlot (nextHeader address)
  obtain ⟨stays, behind⟩ := programHalfWord_flags unlocked s.emptySlot (nextHeader address)
  unfold nextHeader at header stays behind
  simp only [eepromWriteLogWordEntry, long, notFull, ↓reduceIte]
  generalize s.flash.unlock.programHalfWord s.emptySlot
    (((address - feeByteRange) >>> 1) ||| (feeWordEncoding ||| feeValueNext)) = headed at *
  have subset : headed.1.faults ⊆ s.flash.faults := behind ▸ fun _ => List.mem_of_mem_tail
  have still : headed.1.Fallible := fallible.of_subset subset
  obtain ⟨-, used⟩ := programHalfWord_flags stays (s.emptySlot + 1)
    (~~~s.dataBuf.word address.toNat)
  have next := programHalfWord_settles stays still (s.emptySlot + 1)
    (~~~s.dataBuf.word address.toNat)
  have tail : headed.1.faults.tail ⊆ headed.1.faults := fun _ => List.mem_of_mem_tail
  refine ⟨⟨trivial, used ▸ List.Subset.trans tail subset⟩, ?_⟩
  rcases next with ⟨complete, valued⟩ | fails
  · rw [if_pos complete]
    refine header.imp_left ?_
    rintro ⟨status, updated⟩
    refine ⟨status, fun intact => ?_⟩
    have start := intact.slot
    rw [updated, Flash.unlock_cells] at valued
    obtain ⟨writes, stop⟩ := longEntry_appends even high inside (start ▸ intact.blank)
      (by rw [← start]; omega) long
    rw [← start] at writes stop
    exact appended_of_log intact valued rfl writes stop
      (fun cell away => (Function.update_of_ne (by omega) _ _).trans
        (Function.update_of_ne (by omega) _ _)) (wordWrites_within even _)
  · right
    rw [if_neg]
    · exact fails
    · rintro complete
      rw [complete] at fails
      cases fails

/-- `eeprom_write_log_word_entry` with room in the log. -/
theorem eepromWriteLogWordEntry_settles (fallible : s.flash.Fallible)
    (even : address.toNat % 2 = 0) (high : 0x80 ≤ address.toNat)
    (inside : address.toNat < cfg.densityBytes)
    (room : s.emptySlot + wordEntryCells (s.dataBuf.word address.toNat) ≤ cfg.logLast) :
    ((eepromWriteLogWordEntry cfg s address).1.dataBuf = s.dataBuf ∧
        (eepromWriteLogWordEntry cfg s address).1.flash.faults ⊆ s.flash.faults) ∧
      ((eepromWriteLogWordEntry cfg s address).2 = .complete ∧
          (Intact cfg s → Appended cfg s (eepromWriteLogWordEntry cfg s address).1
            (address.toNat / 2) (wordWrites address.toNat (s.dataBuf.word address.toNat))) ∨
        (eepromWriteLogWordEntry cfg s address).2.fails = true) := by
  by_cases short : s.dataBuf.word address.toNat ≤ 1
  · rw [wordEntryCells, if_pos short] at room
    exact eepromWriteLogWordEntry_settles_short fallible even inside short room
  · rw [wordEntryCells, if_neg short] at room
    exact eepromWriteLogWordEntry_settles_long fallible even high inside short room

theorem eepromWriteLogWordEntry_full
    (full : cfg.logLast < s.emptySlot + wordEntryCells (s.dataBuf.word address.toNat)) :
    eepromWriteLogWordEntry cfg s address = eepromCompact cfg s := by
  by_cases short : s.dataBuf.word address.toNat ≤ 1
  · have past : cfg.logLast < s.emptySlot + 2 / 2 := by
      rwa [wordEntryCells, if_pos short] at full
    simp only [eepromWriteLogWordEntry, short, past, ↓reduceIte]
  · have past : cfg.logLast < s.emptySlot + 4 / 2 := by
      rwa [wordEntryCells, if_neg short] at full
    simp only [eepromWriteLogWordEntry, short, past, ↓reduceIte]

/-- The cache is no part of what a writer that does not compact changes. -/
theorem Changes.uncache {buf : DataBuf} {after : Emulation} {word : Nat}
    (changes : Changes cfg { s with dataBuf := buf } after word) : Changes cfg s after word :=
  ⟨changes.kept, changes.words, changes.logged, changes.slot,
    fun intact => changes.intact ⟨intact.slot, intact.blank⟩⟩

end Entries

end QmkSonix.Eeprom
