import QmkSonix.Eeprom.Progress

/-! The entry writers of the emulation, one specification each: compaction, the
direct write into the compacted area, and the two kinds of log entries. -/

namespace QmkSonix.Eeprom

open QmkSonix.Lib

/-- The emulation knows where its sound log ends and the controller works. -/
structure Ready (cfg : Config) (s : Emulation) : Prop where
  sound : Sound cfg s.flash.cells
  slot : s.emptySlot = logEnd cfg s.flash.cells
  working : s.flash.faults = []

/-- What a writer achieves: the written addresses now hold their cached bytes in
flash, and no address that agreed with the cache stops doing so. -/
structure Stores (cfg : Config) (s after : Emulation) (written : Nat → Prop) : Prop where
  ready : Ready cfg after
  advances : Advances cfg s.flash after.flash
  dataBuf : after.dataBuf = s.dataBuf
  stored : ∀ address < cfg.densityBytes,
    written address ∨ contents cfg s.flash.cells address = s.dataBuf address →
    contents cfg after.flash.cells address = s.dataBuf address

theorem Stores.mono {cfg : Config} {s after : Emulation} {written less : Nat → Prop}
    (stores : Stores cfg s after written) (subset : ∀ address, less address → written address) :
    Stores cfg s after less :=
  ⟨stores.ready, stores.advances, stores.dataBuf, fun address below held =>
    stores.stored address below (held.imp (subset address) id)⟩

theorem Stores.trans {cfg : Config} {s middle after : Emulation} {first second : Nat → Prop}
    (earlier : Stores cfg s middle first) (later : Stores cfg middle after second) :
    Stores cfg s after (fun address => first address ∨ second address) := by
  refine ⟨later.ready, earlier.advances.trans later.advances,
    later.dataBuf.trans earlier.dataBuf, ?_⟩
  intro address below held
  rw [← earlier.dataBuf]
  apply later.stored address below
  rcases held with (now | next) | before
  · right
    rw [earlier.dataBuf]
    exact earlier.stored address below (.inl now)
  · exact .inl next
  · right
    rw [earlier.dataBuf]
    exact earlier.stored address below (.inr before)

section Bytes

theorem append_low (high low : Byte) : (high ++ low : HalfWord).setWidth 8 = low := by
  apply BitVec.eq_of_toNat_eq
  have bound := low.isLt
  rw [BitVec.toNat_setWidth, BitVec.toNat_append, ← Nat.shiftLeft_add_eq_or_of_lt bound,
    Nat.shiftLeft_eq]
  omega

theorem append_high (high low : Byte) : ((high ++ low : HalfWord) >>> 8).setWidth 8 = high := by
  apply BitVec.eq_of_toNat_eq
  have bound := low.isLt
  have bound' := high.isLt
  rw [BitVec.toNat_setWidth, BitVec.toNat_ushiftRight, BitVec.toNat_append,
    ← Nat.shiftLeft_add_eq_or_of_lt bound, Nat.shiftLeft_eq, Nat.shiftRight_eq_div_pow]
  omega

theorem append_zero_high (low : Byte) : ((0 : Byte) ++ low : HalfWord) >>> 8 = 0 >>> 8 := by
  revert low
  decide

theorem bytes_append (value : HalfWord) :
    ((value >>> 8).setWidth 8 ++ value.setWidth 8 : HalfWord) = value := by
  apply BitVec.eq_of_toNat_eq
  have bound := value.isLt
  have low : (value.setWidth 8).toNat < 2 ^ 8 := (value.setWidth 8).isLt
  rw [BitVec.toNat_append, ← Nat.shiftLeft_add_eq_or_of_lt low, Nat.shiftLeft_eq,
    BitVec.toNat_setWidth, BitVec.toNat_setWidth, BitVec.toNat_ushiftRight,
    Nat.shiftRight_eq_div_pow]
  omega

theorem setWord_word (buf : DataBuf) (address : Nat) (value : HalfWord) :
    (buf.setWord address value).word address = value := by
  have low : address ≠ address + 1 := by omega
  rw [DataBuf.word, DataBuf.setWord, Function.update_self, Function.update_of_ne low,
    Function.update_self, bytes_append]

/-- Storing the cached word at an address writes the cached bytes back. -/
theorem overlay_cached_word (buf base : DataBuf) (address other : Nat) :
    overlay (wordWrites address (buf.word address)) base other =
      if other = address ∨ other = address + 1 then buf other else base other := by
  simp only [wordWrites, overlay_cons, overlay_nil, DataBuf.word, append_low, append_high]
  by_cases high : other = address + 1
  · subst high; simp
  · by_cases low : other = address
    · subst low
      simp [Function.update_of_ne high]
    · simp [Function.update_of_ne high, Function.update_of_ne low, low, high]

/-- A compacted cell that holds the complement of the cached word decodes to
the cached bytes. -/
theorem compactedByte_of_word (buf : DataBuf) (cells : Cells) (address : Nat)
    (holds : cells (address / 2) = ~~~buf.word (2 * (address / 2))) :
    compactedByte cells address = buf address := by
  unfold compactedByte
  rw [holds, BitVec.not_not]
  split
  · rename_i even
    have whole : 2 * (address / 2) = address := by omega
    rw [whole, DataBuf.word, append_low]
  · rename_i odd
    have whole : 2 * (address / 2) + 1 = address := by omega
    rw [DataBuf.word, append_high, whole]

theorem word_eq_zero_iff (buf : DataBuf) (address : Nat) :
    buf.word address = 0 ↔ buf address = 0 ∧ buf (address + 1) = 0 := by
  constructor
  · intro zero
    have low := append_low (buf (address + 1)) (buf address)
    have high := append_high (buf (address + 1)) (buf address)
    rw [← DataBuf.word, zero] at low high
    exact ⟨low.symm, high.symm⟩
  · rintro ⟨low, high⟩
    rw [DataBuf.word, low, high]
    decide

end Bytes

section Compact

variable {cfg : Config}

/-- The loop of `eeprom_compact` after `count` cells. -/
def compactCells (buf : DataBuf) (flash : Flash) (count : Nat) : Flash × FlashStatus :=
  (List.range count).foldl (compactCell buf) (flash, .complete)

theorem compactCells_succ (buf : DataBuf) (flash : Flash) (count : Nat) :
    compactCells buf flash (count + 1) = compactCell buf (compactCells buf flash count) count := by
  simp [compactCells, List.range_succ]

/-- Cell by cell, the loop stores the complement of the cache over erased cells. -/
theorem compactCells_spec (cfg : Config) (buf : DataBuf) (flash : Flash) (unlocked : flash.locked = false)
    (working : flash.faults = []) (erased : ∀ cell < cfg.logLast, flash.cells cell = feeEmptyWord)
    (count : Nat) (within : count ≤ cfg.logBase) :
    (∀ cell < cfg.logLast, (compactCells buf flash count).1.cells cell =
        if cell < count then ~~~buf.word (2 * cell) else feeEmptyWord) ∧
      (compactCells buf flash count).1.locked = false ∧
      (compactCells buf flash count).1.faults = [] ∧
      (compactCells buf flash count).2 = .complete ∧
      Advances cfg flash (compactCells buf flash count).1 := by
  induction count with
  | zero => exact ⟨by simpa [compactCells] using erased, unlocked, working, rfl, .refl cfg flash⟩
  | succ count ih =>
    obtain ⟨cells, open', idle, status, advances⟩ := ih (by omega)
    have order := logBase_le_logLast cfg
    rw [compactCells_succ]
    by_cases zero : buf.word (2 * count) = 0
    · have skipped : compactCell buf (compactCells buf flash count) count =
          compactCells buf flash count := by simp [compactCell, zero]
      rw [skipped]
      refine ⟨?_, open', idle, status, advances⟩
      intro cell below
      have empty : ~~~(0 : HalfWord) = feeEmptyWord := by decide
      rw [cells cell below]
      by_cases here : cell = count
      · subst here
        rw [if_neg (Nat.lt_irrefl cell), if_pos (Nat.lt_succ_self cell), zero, empty]
      · have same : cell < count + 1 ↔ cell < count := by omega
        simp [same]
    · have blank : (compactCells buf flash count).1.cells count = feeEmptyWord := by
        simpa using cells count (by omega)
      simp only [compactCell, zero, programHalfWord_erased open' idle blank, ↓reduceIte]
      have image : ∀ cell < cfg.logLast,
          Function.update (compactCells buf flash count).1.cells count
            (~~~buf.word (2 * count)) cell =
          if cell < count + 1 then ~~~buf.word (2 * cell) else feeEmptyWord := by
        intro cell below
        by_cases here : cell = count
        · subst here; simp
        · have same : cell < count + 1 ↔ cell < count := by omega
          rw [Function.update_of_ne here, cells cell below]
          simp [same]
      refine ⟨image, open', idle, status, advances.trans ?_⟩
      refine Advances.of_op (.programHalfWord count (~~~buf.word (2 * count))) rfl rfl (.inr ?_)
      apply sound_of_blank
      intro cell above below
      refine (image cell below).trans (if_neg ?_)
      omega

/-- `eeprom_compact` leaves the cache in the compacted area and an empty log. -/
theorem eepromCompact_cells (cfg : Config) (s : Emulation) (working : s.flash.faults = []) :
    (∀ cell < cfg.logLast, (eepromCompact cfg s).1.flash.cells cell =
        if cell < cfg.logBase then ~~~s.dataBuf.word (2 * cell) else feeEmptyWord) ∧
      (eepromCompact cfg s).1.flash.faults = [] ∧ (eepromCompact cfg s).2 = .complete ∧
      (eepromCompact cfg s).1.emptySlot = cfg.logBase ∧
      Advances cfg s.flash (eepromCompact cfg s).1.flash := by
  obtain ⟨erased, dropped, _, slot, clears⟩ := eepromClear_spec cfg s (works_of_idle working _)
  have idle : (eepromClear cfg s).flash.faults = [] := by rw [dropped, working, List.drop_nil]
  obtain ⟨cells, _, stillIdle, status, advances⟩ := compactCells_spec cfg s.dataBuf
    (eepromClear cfg s).flash.unlock rfl idle erased cfg.logBase (Nat.le_refl _)
  refine ⟨cells, stillIdle, status, slot, clears.trans ?_⟩
  have opened : Advances cfg (eepromClear cfg s).flash (eepromClear cfg s).flash.unlock :=
    Advances.of_same rfl rfl
  exact (opened.trans advances).trans (Advances.of_same rfl rfl)

theorem eepromCompact_stores (s : Emulation) (working : s.flash.faults = []) :
    Stores cfg s (eepromCompact cfg s).1 (fun _ => True) := by
  obtain ⟨cells, idle, _, slot, advances⟩ := eepromCompact_cells cfg s working
  have order := logBase_le_logLast cfg
  have blank : ∀ cell, cfg.logBase ≤ cell → cell < cfg.logLast →
      (eepromCompact cfg s).1.flash.cells cell = feeEmptyWord := by
    intro cell above below
    rw [cells cell below, if_neg (by omega)]
  refine ⟨⟨sound_of_blank blank, ?_, idle⟩, advances, rfl, ?_⟩
  · rw [slot, (log_of_blank blank).2]
  · intro address below _
    have compacted := half_lt_logBase below
    rw [contents_of_blank blank]
    apply compactedByte_of_word
    rw [cells _ (by omega), if_pos compacted]

end Compact

section Entries

variable {cfg : Config} {s : Emulation} {address : HalfWord}

theorem aligned_toNat (address : HalfWord) :
    (address &&& (0xFFFE : HalfWord)).toNat = 2 * (address.toNat / 2) := by
  have mask : (0xFFFE : HalfWord) = BitVec.allOnes 16 <<< 1 := by decide
  have inside := address.isLt
  rw [mask, ← BitVec.shiftLeft_ushiftRight]
  simp [Nat.shiftRight_eq_div_pow, Nat.shiftLeft_eq]
  omega

/-- `eeprom_write_direct_entry` over a programmed word leaves everything to the log. -/
theorem eepromWriteDirectEntry_skips
    (programmed : s.flash.cells (address.toNat / 2) ≠ feeEmptyWord) :
    eepromWriteDirectEntry s address = (s, .unset) := by
  have cell : 2 * (address.toNat / 2) / 2 = address.toNat / 2 := by omega
  simp only [eepromWriteDirectEntry, aligned_toNat, cell, programmed, ↓reduceIte]

/-- A cached word of 0 is what the erased word already stands for. -/
theorem eepromWriteDirectEntry_zero
    (erased : s.flash.cells (address.toNat / 2) = feeEmptyWord)
    (empty : ~~~s.dataBuf.word (2 * (address.toNat / 2)) = feeEmptyWord) :
    eepromWriteDirectEntry s address = (s, .complete) := by
  have cell : 2 * (address.toNat / 2) / 2 = address.toNat / 2 := by omega
  simp only [eepromWriteDirectEntry, aligned_toNat, cell, erased, empty, ↓reduceIte]

theorem eepromWriteDirectEntry_programs (ready : Ready cfg s)
    (erased : s.flash.cells (address.toNat / 2) = feeEmptyWord)
    (empty : ~~~s.dataBuf.word (2 * (address.toNat / 2)) ≠ feeEmptyWord) :
    eepromWriteDirectEntry s address =
      ({ s with flash := { s.flash with
          cells := Function.update s.flash.cells (address.toNat / 2)
            (~~~s.dataBuf.word (2 * (address.toNat / 2)))
          locked := true
          ops := s.flash.ops ++ [.programHalfWord (address.toNat / 2)
            (~~~s.dataBuf.word (2 * (address.toNat / 2)))] } }, .complete) := by
  have cell : 2 * (address.toNat / 2) / 2 = address.toNat / 2 := by omega
  have unlocked : s.flash.unlock.locked = false := rfl
  have programmed := programHalfWord_erased unlocked ready.working erased
    (~~~s.dataBuf.word (2 * (address.toNat / 2)))
  simp only [eepromWriteDirectEntry, aligned_toNat, cell, erased, empty, programmed, ↓reduceIte]
  rfl

/-- What the direct write of the cached word makes of the contents. -/
theorem contents_direct_cached (ready : Ready cfg s) (inside : address.toNat < cfg.densityBytes)
    (erased : s.flash.cells (address.toNat / 2) = feeEmptyWord) (other : Nat) :
    contents cfg (Function.update s.flash.cells (address.toNat / 2)
        (~~~s.dataBuf.word (2 * (address.toNat / 2)))) other =
      if other / 2 = address.toNat / 2 then s.dataBuf other
      else contents cfg s.flash.cells other := by
  rw [contents_direct ready.sound (half_lt_logBase inside) erased]
  split
  · rename_i hit
    apply compactedByte_of_word
    rw [hit, Function.update_self]
  · rfl

/-- `eeprom_write_direct_entry` over an erased word stores the cached word. -/
theorem eepromWriteDirectEntry_stores (ready : Ready cfg s)
    (inside : address.toNat < cfg.densityBytes)
    (erased : s.flash.cells (address.toNat / 2) = feeEmptyWord) :
    (eepromWriteDirectEntry s address).2 = .complete ∧
      Stores cfg s (eepromWriteDirectEntry s address).1
        (fun other => other / 2 = address.toNat / 2) := by
  have compacted := half_lt_logBase inside
  have zero : ~~~feeEmptyWord = 0 := by decide
  by_cases empty : ~~~s.dataBuf.word (2 * (address.toNat / 2)) = feeEmptyWord
  · rw [eepromWriteDirectEntry_zero erased empty]
    refine ⟨rfl, ready, .refl cfg s.flash, rfl, ?_⟩
    rintro other below (hit | held)
    · rw [contents_erased ready.sound erased hit]
      have word : s.dataBuf.word (2 * (address.toNat / 2)) = 0 := by
        rw [← BitVec.not_not (b := s.dataBuf.word (2 * (address.toNat / 2))), empty, zero]
      obtain ⟨low, high⟩ := (word_eq_zero_iff s.dataBuf _).mp word
      rcases (by omega : other = 2 * (address.toNat / 2) ∨ other = 2 * (address.toNat / 2) + 1)
        with rfl | rfl
      · exact low.symm
      · exact high.symm
    · exact held
  · rw [eepromWriteDirectEntry_programs ready erased empty]
    have sound := sound_direct ready.sound compacted empty
    refine ⟨rfl, ⟨sound, ?_, ready.working⟩, ?_, rfl, ?_⟩
    · exact ready.slot.trans (log_direct compacted _ _).2.symm
    · exact Advances.of_op (.programHalfWord _ _) rfl rfl (.inr sound)
    · intro other below held
      refine (contents_direct_cached ready inside erased other).trans ?_
      split
      · rfl
      · rename_i away
        exact held.resolve_left away

/-- With room in the log, `eeprom_write_log_byte_entry` programs one header. -/
theorem eepromWriteLogByteEntry_room (ready : Ready cfg s) (room : s.emptySlot < cfg.logLast) :
    eepromWriteLogByteEntry cfg s address =
      ({ s with
          flash := { s.flash with
            cells := Function.update s.flash.cells (logEnd cfg s.flash.cells)
              (byteHeader address (s.dataBuf address.toNat))
            locked := true
            ops := s.flash.ops ++ [.programHalfWord (logEnd cfg s.flash.cells)
              (byteHeader address (s.dataBuf address.toNat))] }
          emptySlot := logEnd cfg s.flash.cells + 1 }, .complete) := by
  have unlocked : s.flash.unlock.locked = false := rfl
  have erased : s.flash.unlock.cells s.emptySlot = feeEmptyWord := by
    rw [Flash.unlock_cells, ready.slot]
    exact logEnd_stop (by rw [← ready.slot]; exact room)
  have programmed := programHalfWord_erased unlocked ready.working erased
    (byteHeader address (s.dataBuf address.toNat))
  have notFull : ¬cfg.logLast ≤ s.emptySlot := by omega
  rw [byteHeader] at *
  simp only [eepromWriteLogByteEntry, notFull, programmed, ↓reduceIte]
  rw [ready.slot]
  rfl

theorem eepromWriteLogByteEntry_full (full : cfg.logLast ≤ s.emptySlot) :
    eepromWriteLogByteEntry cfg s address = eepromCompact cfg s := by
  simp only [eepromWriteLogByteEntry, full, ↓reduceIte]

/-- What an entry in the last free cells of the log makes of a sound image. -/
structure Extends (cfg : Config) (cells other : Cells) (new : List (Nat × Byte)) : Prop where
  sound : Sound cfg other
  writes : logWrites cfg other = logWrites cfg cells ++ new
  compacted : ∀ cell < cfg.logBase, other cell = cells cell

theorem Extends.contents {cells other : Cells} (appended : Extends cfg cells other new)
    {byte : Nat} (below : byte < cfg.densityBytes) :
    contents cfg other byte = overlay new (contents cfg cells) byte :=
  contents_append appended.writes appended.compacted below

/-- A one-cell entry whose writes lie over programmed compacted words. -/
theorem extends_single (sound : Sound cfg s.flash.cells)
    (room : logEnd cfg s.flash.cells < cfg.logLast) (used : header ≠ feeEmptyWord)
    (single : entryWide header = false)
    (backed : ∀ write ∈ entryWrites cfg header feeEmptyWord,
      write.1 < cfg.densityBytes ∧ s.flash.cells (write.1 / 2) ≠ feeEmptyWord) :
    Extends cfg s.flash.cells
        (Function.update s.flash.cells (logEnd cfg s.flash.cells) header)
        (entryWrites cfg header feeEmptyWord) ∧
      logEnd cfg (Function.update s.flash.cells (logEnd cfg s.flash.cells) header) =
        logEnd cfg s.flash.cells + 1 := by
  have bounds := logEnd_bounds cfg s.flash.cells
  obtain ⟨writes, stop⟩ := log_append_single sound.blank room used single
  have compacted : ∀ cell < cfg.logBase,
      Function.update s.flash.cells (logEnd cfg s.flash.cells) header cell = s.flash.cells cell :=
    fun cell below => Function.update_of_ne (by omega) _ _
  refine ⟨⟨sound_append sound writes compacted backed ?_, writes, compacted⟩, stop⟩
  intro cell above below
  rw [Function.update_of_ne (by omega)]
  exact sound.blank cell (by omega) below

/-- The header that `eeprom_write_log_byte_entry` programs. -/
theorem byteEntry_extends (sound : Sound cfg s.flash.cells)
    (room : logEnd cfg s.flash.cells < cfg.logLast) (small : address.toNat < 0x80)
    (inside : address.toNat < cfg.densityBytes)
    (backed : s.flash.cells (address.toNat / 2) ≠ feeEmptyWord) (value : Byte) :
    Extends cfg s.flash.cells (Function.update s.flash.cells (logEnd cfg s.flash.cells)
        (byteHeader address value)) [(address.toNat, value)] ∧
      logEnd cfg (Function.update s.flash.cells (logEnd cfg s.flash.cells)
        (byteHeader address value)) = logEnd cfg s.flash.cells + 1 := by
  have appended := extends_single sound room (byteHeader_used small value)
    (byteHeader_single small value)
  rw [byteHeader_writes cfg small] at appended
  exact appended (by simpa using ⟨inside, backed⟩)

/-- `eeprom_write_log_byte_entry` stores one byte; only an entry that is
appended needs a programmed compacted word below it. -/
theorem eepromWriteLogByteEntry_stores (ready : Ready cfg s) (small : address.toNat < 0x80)
    (inside : address.toNat < cfg.densityBytes)
    (backed : s.emptySlot < cfg.logLast → s.flash.cells (address.toNat / 2) ≠ feeEmptyWord) :
    Stores cfg s (eepromWriteLogByteEntry cfg s address).1 (fun other => other = address.toNat) := by
  rcases Nat.lt_or_ge s.emptySlot cfg.logLast with room | full
  · have space : logEnd cfg s.flash.cells < cfg.logLast := by rw [← ready.slot]; exact room
    obtain ⟨appended, stop⟩ := byteEntry_extends ready.sound space small inside (backed room)
      (s.dataBuf address.toNat)
    rw [eepromWriteLogByteEntry_room ready room]
    refine ⟨⟨appended.sound, stop.symm, ready.working⟩, ?_, rfl, ?_⟩
    · exact Advances.of_op (.programHalfWord _ _) rfl rfl (.inr appended.sound)
    · intro other below held
      refine (appended.contents below).trans ?_
      by_cases hit : other = address.toNat
      · simp [hit]
      · simpa [Function.update_of_ne hit] using held.resolve_left hit
  · rw [eepromWriteLogByteEntry_full full]
    exact (eepromCompact_stores s ready.working).mono (fun _ _ => trivial)

/-- A value of 0 or 1 takes one cell. -/
theorem eepromWriteLogWordEntry_short (ready : Ready cfg s)
    (short : s.dataBuf.word address.toNat ≤ 1) (room : s.emptySlot < cfg.logLast) :
    eepromWriteLogWordEntry cfg s address =
      ({ s with
          flash := { s.flash with
            cells := Function.update s.flash.cells (logEnd cfg s.flash.cells)
              (shortHeader address (s.dataBuf.word address.toNat))
            locked := true
            ops := s.flash.ops ++ [.programHalfWord (logEnd cfg s.flash.cells)
              (shortHeader address (s.dataBuf.word address.toNat))] }
          emptySlot := logEnd cfg s.flash.cells + 1 }, .complete) := by
  have unlocked : s.flash.unlock.locked = false := rfl
  have erased : s.flash.unlock.cells s.emptySlot = feeEmptyWord := by
    rw [Flash.unlock_cells, ready.slot]
    exact logEnd_stop (by rw [← ready.slot]; exact room)
  have programmed := programHalfWord_erased unlocked ready.working erased
    (shortHeader address (s.dataBuf.word address.toNat))
  have notFull : ¬cfg.logLast < s.emptySlot + 2 / 2 := by omega
  have encoding : feeWordEncoding ||| (s.dataBuf.word address.toNat <<< 13) ≠
      feeWordEncoding ||| feeValueNext := by
    rcases le_one_cases short with zero | one
    · rw [zero]; decide
    · rw [one]; decide
  rw [shortHeader] at *
  simp only [eepromWriteLogWordEntry, short, notFull, programmed, encoding, ↓reduceIte]
  rw [ready.slot]
  rfl

/-- Any other value takes a header and a second cell. -/
theorem eepromWriteLogWordEntry_long (ready : Ready cfg s)
    (long : ¬s.dataBuf.word address.toNat ≤ 1) (room : s.emptySlot + 1 < cfg.logLast) :
    eepromWriteLogWordEntry cfg s address =
      ({ s with
          flash := { s.flash with
            cells := Function.update
              (Function.update s.flash.cells (logEnd cfg s.flash.cells) (nextHeader address))
              (logEnd cfg s.flash.cells + 1) (~~~s.dataBuf.word address.toNat)
            locked := true
            ops := s.flash.ops ++
              [.programHalfWord (logEnd cfg s.flash.cells) (nextHeader address)] ++
              [.programHalfWord (logEnd cfg s.flash.cells + 1)
                (~~~s.dataBuf.word address.toNat)] }
          emptySlot := logEnd cfg s.flash.cells + 2 }, .complete) := by
  have unlocked : s.flash.unlock.locked = false := rfl
  have slot := ready.slot
  have erased : s.flash.unlock.cells s.emptySlot = feeEmptyWord :=
    ready.sound.blank _ (by omega) (by omega)
  have header := programHalfWord_erased unlocked ready.working erased (nextHeader address)
  have behind : Function.update s.flash.unlock.cells s.emptySlot (nextHeader address)
      (s.emptySlot + 1) = feeEmptyWord := by
    rw [Function.update_of_ne (by omega)]
    exact ready.sound.blank _ (by omega) (by omega)
  let headed : Flash := { s.flash.unlock with
    cells := Function.update s.flash.unlock.cells s.emptySlot (nextHeader address)
    ops := s.flash.unlock.ops ++ [.programHalfWord s.emptySlot (nextHeader address)] }
  have headedUnlocked : headed.locked = false := rfl
  have next := programHalfWord_erased headedUnlocked ready.working behind
    (~~~s.dataBuf.word address.toNat)
  have notFull : ¬cfg.logLast < s.emptySlot + 4 / 2 := by omega
  simp only [headed, nextHeader] at next
  rw [nextHeader] at *
  simp only [eepromWriteLogWordEntry, long, notFull, header, next, ↓reduceIte]
  rw [ready.slot]
  rfl

section Words

variable (sound : Sound cfg s.flash.cells) (even : address.toNat % 2 = 0)
  (low : 0x80 ≤ address.toNat) (inside : address.toNat < cfg.densityBytes)

include even inside in
theorem word_backed (backed : s.flash.cells (address.toNat / 2) ≠ feeEmptyWord)
    (value : HalfWord) : ∀ write ∈ wordWrites address.toNat value,
      write.1 < cfg.densityBytes ∧ s.flash.cells (write.1 / 2) ≠ feeEmptyWord := by
  have densityEven := cfg.densityEven
  have half : (address.toNat + 1) / 2 = address.toNat / 2 := by omega
  simp only [wordWrites, List.mem_cons, List.not_mem_nil, or_false, forall_eq_or_imp, forall_eq,
    half]
  exact ⟨⟨inside, backed⟩, by omega, backed⟩

include sound even inside in
/-- The header that `eeprom_write_log_word_entry` programs for a value of 0 or 1. -/
theorem shortEntry_extends (room : logEnd cfg s.flash.cells < cfg.logLast) (short : value ≤ 1)
    (backed : s.flash.cells (address.toNat / 2) ≠ feeEmptyWord) :
    Extends cfg s.flash.cells (Function.update s.flash.cells (logEnd cfg s.flash.cells)
        (shortHeader address value)) (wordWrites address.toNat value) ∧
      logEnd cfg (Function.update s.flash.cells (logEnd cfg s.flash.cells)
        (shortHeader address value)) = logEnd cfg s.flash.cells + 1 := by
  have bound : address.toNat < feeAddressMaxSize := Nat.lt_of_lt_of_le inside cfg.addressable
  have appended := extends_single sound room (shortHeader_used bound short)
    (shortHeader_single bound short)
  rw [shortHeader_writes bound short even inside] at appended
  exact appended (word_backed even inside backed value)

include sound low inside in
/-- Power may be lost between the header and the value: the entry then writes nothing. -/
theorem header_extends (room : logEnd cfg s.flash.cells + 1 < cfg.logLast) :
    Extends cfg s.flash.cells (Function.update s.flash.cells (logEnd cfg s.flash.cells)
        (nextHeader address)) [] ∧
      logEnd cfg (Function.update s.flash.cells (logEnd cfg s.flash.cells)
        (nextHeader address)) = logEnd cfg s.flash.cells + 2 := by
  have bounds := logEnd_bounds cfg s.flash.cells
  have bound : address.toNat < feeAddressMaxSize := Nat.lt_of_lt_of_le inside cfg.addressable
  have headerAt : Function.update s.flash.cells (logEnd cfg s.flash.cells) (nextHeader address)
      (logEnd cfg s.flash.cells) = nextHeader address := Function.update_self ..
  obtain ⟨writes, stop⟩ := log_append_wide sound.blank room (nextHeader_used bound low)
    (nextHeader_wide bound low) headerAt (fun cell away _ => Function.update_of_ne away _ _)
  rw [Function.update_of_ne (by omega), sound.blank _ (by omega) room,
    nextHeader_incomplete bound low] at writes
  have compacted : ∀ cell < cfg.logBase, Function.update s.flash.cells (logEnd cfg s.flash.cells)
      (nextHeader address) cell = s.flash.cells cell :=
    fun cell below => Function.update_of_ne (by omega) _ _
  refine ⟨⟨sound_append sound writes compacted (by simp) ?_, writes, compacted⟩, stop⟩
  intro cell above below
  rw [Function.update_of_ne (by omega)]
  exact sound.blank cell (by omega) below

include even low inside in
/-- The log after the two cells that `eeprom_write_log_word_entry` programs for any
other value. -/
theorem longEntry_appends {cells : Cells}
    (blank : ∀ cell, logEnd cfg cells ≤ cell → cell < cfg.logLast → cells cell = feeEmptyWord)
    (room : logEnd cfg cells + 1 < cfg.logLast) (long : ¬value ≤ 1) :
    logWrites cfg (Function.update (Function.update cells (logEnd cfg cells) (nextHeader address))
        (logEnd cfg cells + 1) (~~~value)) =
        logWrites cfg cells ++ wordWrites address.toNat value ∧
      logEnd cfg (Function.update (Function.update cells (logEnd cfg cells) (nextHeader address))
        (logEnd cfg cells + 1) (~~~value)) = logEnd cfg cells + 2 := by
  have bound : address.toNat < feeAddressMaxSize := Nat.lt_of_lt_of_le inside cfg.addressable
  have headerAt : Function.update
      (Function.update cells (logEnd cfg cells) (nextHeader address))
      (logEnd cfg cells + 1) (~~~value) (logEnd cfg cells) = nextHeader address := by
    rw [Function.update_of_ne (by omega), Function.update_self]
  obtain ⟨writes, stop⟩ := log_append_wide blank room (nextHeader_used bound low)
    (nextHeader_wide bound low) headerAt (fun cell away behind => by
      rw [Function.update_of_ne behind, Function.update_of_ne away])
  rw [Function.update_self, nextHeader_writes bound low even inside long] at writes
  exact ⟨writes, stop⟩

include sound even low inside in
/-- The two cells that `eeprom_write_log_word_entry` programs for any other value. -/
theorem longEntry_extends (room : logEnd cfg s.flash.cells + 1 < cfg.logLast)
    (long : ¬value ≤ 1) (backed : s.flash.cells (address.toNat / 2) ≠ feeEmptyWord) :
    Extends cfg s.flash.cells (Function.update
        (Function.update s.flash.cells (logEnd cfg s.flash.cells) (nextHeader address))
        (logEnd cfg s.flash.cells + 1) (~~~value)) (wordWrites address.toNat value) ∧
      logEnd cfg (Function.update
        (Function.update s.flash.cells (logEnd cfg s.flash.cells) (nextHeader address))
        (logEnd cfg s.flash.cells + 1) (~~~value)) = logEnd cfg s.flash.cells + 2 := by
  have bounds := logEnd_bounds cfg s.flash.cells
  obtain ⟨writes, stop⟩ := longEntry_appends even low inside sound.blank room long
  have compacted : ∀ cell < cfg.logBase, Function.update
      (Function.update s.flash.cells (logEnd cfg s.flash.cells) (nextHeader address))
      (logEnd cfg s.flash.cells + 1) (~~~value) cell = s.flash.cells cell := by
    intro cell below
    rw [Function.update_of_ne (by omega), Function.update_of_ne (by omega)]
  refine ⟨⟨sound_append sound writes compacted (word_backed even inside backed value) ?_,
    writes, compacted⟩, stop⟩
  intro cell above below
  rw [Function.update_of_ne (by omega), Function.update_of_ne (by omega)]
  exact sound.blank cell (by omega) below

end Words

/-- `eeprom_write_log_word_entry` stores one aligned word above the byte range. -/
theorem eepromWriteLogWordEntry_stores (ready : Ready cfg s) (even : address.toNat % 2 = 0)
    (low : 0x80 ≤ address.toNat) (inside : address.toNat < cfg.densityBytes)
    (backed : s.flash.cells (address.toNat / 2) ≠ feeEmptyWord) :
    Stores cfg s (eepromWriteLogWordEntry cfg s address).1
      (fun other => other = address.toNat ∨ other = address.toNat + 1) := by
  have slot := ready.slot
  have stored {cells : Cells} (appended : Extends cfg s.flash.cells cells
        (wordWrites address.toNat (s.dataBuf.word address.toNat))) :
      ∀ other < cfg.densityBytes, (other = address.toNat ∨ other = address.toNat + 1) ∨
        contents cfg s.flash.cells other = s.dataBuf other →
        contents cfg cells other = s.dataBuf other := by
    intro other below held
    rw [appended.contents below, overlay_cached_word]
    split
    · rfl
    · rename_i away
      exact held.resolve_left away
  by_cases short : s.dataBuf.word address.toNat ≤ 1
  · by_cases room : s.emptySlot < cfg.logLast
    · obtain ⟨appended, stop⟩ := shortEntry_extends ready.sound even inside (by omega) short backed
      rw [eepromWriteLogWordEntry_short ready short room]
      refine ⟨⟨appended.sound, stop.symm, ready.working⟩, ?_, rfl, stored appended⟩
      exact Advances.of_op (.programHalfWord _ _) rfl rfl (.inr appended.sound)
    · have full : cfg.logLast < s.emptySlot + 2 / 2 := by omega
      have compacts : eepromWriteLogWordEntry cfg s address = eepromCompact cfg s := by
        simp only [eepromWriteLogWordEntry, short, full, ↓reduceIte]
      rw [compacts]
      exact (eepromCompact_stores s ready.working).mono (fun _ _ => trivial)
  · by_cases room : s.emptySlot + 1 < cfg.logLast
    · have space : logEnd cfg s.flash.cells + 1 < cfg.logLast := by omega
      obtain ⟨appended, stop⟩ := longEntry_extends ready.sound even low inside space short backed
      have headed := (header_extends ready.sound low inside space).1
      rw [eepromWriteLogWordEntry_long ready short room]
      refine ⟨⟨appended.sound, stop.symm, ready.working⟩, ?_, rfl, stored appended⟩
      let header : Flash := { s.flash with
        cells := Function.update s.flash.cells (logEnd cfg s.flash.cells) (nextHeader address)
        ops := s.flash.ops ++ [.programHalfWord (logEnd cfg s.flash.cells) (nextHeader address)] }
      have first : Advances cfg s.flash header :=
        Advances.of_op (.programHalfWord _ _) rfl rfl (.inr headed.sound)
      exact first.trans (Advances.of_op (.programHalfWord _ _) rfl rfl (.inr appended.sound))
    · have full : cfg.logLast < s.emptySlot + 4 / 2 := by omega
      have compacts : eepromWriteLogWordEntry cfg s address = eepromCompact cfg s := by
        simp only [eepromWriteLogWordEntry, short, full, ↓reduceIte]
      rw [compacts]
      exact (eepromCompact_stores s ready.working).mono (fun _ _ => trivial)

end Entries

end QmkSonix.Eeprom
