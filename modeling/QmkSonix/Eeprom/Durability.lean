import QmkSonix.Eeprom.Writers

/-! Durability: as long as no step splits the write of a zero word over a
compaction, the flash stands for the cache after every call, and a restart reads
back the last byte written to each address. -/

namespace QmkSonix.Eeprom

open QmkSonix.Lib

/-- The byte writes that a call asks for. -/
def Call.writes : Call → List (Nat × Byte)
  | .writeDataByte address dataByte => [(address.toNat, dataByte)]
  | .writeDataWord address dataWord => wordWrites address.toNat dataWord
  | .init => []

/-- The byte that the last write of a run gave to an address. -/
def lastWritten (calls : List Call) (address : Nat) : Option Byte :=
  lastWrite (calls.flatMap Call.writes) address

/-- The call writes a zero word below `FEE_BYTE_RANGE` when both bytes change and
the log is full. The entry for the low byte then compacts, which leaves the zero
word unprogrammed, and the entry for the high byte goes to the log above it. -/
def splitsZeroWord (cfg : Config) (s : Emulation) : Call → Bool
  | .writeDataWord address dataWord =>
    address.toNat < cfg.densityBytes ∧ address.toNat % 2 = 0 ∧ address < feeByteRange ∧
      dataWord = 0 ∧ s.dataBuf address.toNat ≠ 0 ∧ s.dataBuf (address.toNat + 1) ≠ 0 ∧
      cfg.logLast ≤ s.emptySlot ∧ cfg.logBase < cfg.logLast
  | _ => false

/-- The emulation is ready and its flash stands for its cache. -/
structure Coherent (cfg : Config) (s : Emulation) : Prop extends Ready cfg s where
  cached : ∀ address < cfg.densityBytes, contents cfg s.flash.cells address = s.dataBuf address

/-- A call ends coherent, through sound cuts, with the given cache. -/
structure Completes (cfg : Config) (s after : Emulation) (buf : DataBuf) : Prop where
  coherent : Coherent cfg after
  advances : Advances cfg s.flash after.flash
  dataBuf : ∀ address < cfg.densityBytes, after.dataBuf address = buf address

section Calls

variable {cfg : Config} {s : Emulation} {address : HalfWord}

theorem Completes.unchanged (coherent : Coherent cfg s)
    (same : ∀ address < cfg.densityBytes, s.dataBuf address = buf address) :
    Completes cfg s s buf :=
  ⟨coherent, .refl cfg s.flash, same⟩

/-- A writer that stores every byte the cache has changed completes. -/
theorem Completes.of_stores (coherent : Coherent cfg s) {buf : DataBuf}
    (stores : Stores cfg { s with dataBuf := buf } after written)
    (untouched : ∀ address < cfg.densityBytes, ¬written address →
      buf address = s.dataBuf address) :
    Completes cfg s after buf := by
  refine ⟨⟨stores.ready, ?_⟩, stores.advances, fun address _ => by rw [stores.dataBuf]⟩
  intro address below
  rw [stores.dataBuf]
  apply stores.stored address below
  by_cases now : written address
  · exact .inl now
  · right
    exact (coherent.cached address below).trans (untouched address below now).symm

theorem Ready.cache (ready : Ready cfg s) (buf : DataBuf) : Ready cfg { s with dataBuf := buf } :=
  ⟨ready.sound, ready.slot, ready.working⟩

/-- What `EEPROM_WriteDataByte` does with an address in range. -/
theorem eepromWriteDataByte_cases (ready : Ready cfg s) (inside : address.toNat < cfg.densityBytes)
    (dataByte : Byte) :
    let cached := { s with dataBuf := Function.update s.dataBuf address.toNat dataByte }
    let after := (eepromWriteDataByte cfg s address dataByte).1
    s.dataBuf address.toNat = dataByte ∧ after = s ∨
      s.flash.cells (address.toNat / 2) = feeEmptyWord ∧
        after = (eepromWriteDirectEntry cached address).1 ∨
      s.flash.cells (address.toNat / 2) ≠ feeEmptyWord ∧ address.toNat < 0x80 ∧
        after = (eepromWriteLogByteEntry cfg cached address).1 ∨
      s.flash.cells (address.toNat / 2) ≠ feeEmptyWord ∧ 0x80 ≤ address.toNat ∧
        after = (eepromWriteLogWordEntry cfg cached (address &&& 0xFFFE)).1 := by
  intro cached after
  have notPast : ¬cfg.densityBytes ≤ address.toNat := by omega
  by_cases same : s.dataBuf address.toNat = dataByte
  · left
    refine ⟨same, ?_⟩
    simp only [after, eepromWriteDataByte, notPast, same, ↓reduceIte]
  by_cases erased : s.flash.cells (address.toNat / 2) = feeEmptyWord
  · right; left
    have status := (eepromWriteDirectEntry_stores (ready.cache cached.dataBuf) inside erased).1
    refine ⟨erased, ?_⟩
    simp only [after, cached, eepromWriteDataByte, notPast, same, status, reduceCtorEq, ↓reduceIte]
  · have skips := eepromWriteDirectEntry_skips (s := cached) erased
    by_cases small : address < feeByteRange
    · right; right; left
      refine ⟨erased, BitVec.lt_def.mp small, ?_⟩
      simp only [after, cached, eepromWriteDataByte, notPast, same, skips, small, ↓reduceIte]
    · right; right; right
      refine ⟨erased, by simpa [BitVec.lt_def, feeByteRange] using small, ?_⟩
      simp only [after, cached, eepromWriteDataByte, notPast, same, skips, small, ↓reduceIte]

/-- `EEPROM_WriteDataByte` -/
theorem eepromWriteDataByte_completes (coherent : Coherent cfg s)
    (inside : address.toNat < cfg.densityBytes) (dataByte : Byte) :
    Completes cfg s (eepromWriteDataByte cfg s address dataByte).1
      (Function.update s.dataBuf address.toNat dataByte) := by
  have ready := coherent.toReady.cache (Function.update s.dataBuf address.toNat dataByte)
  have untouched {written : Nat → Prop} (covers : written address.toNat) :
      ∀ other < cfg.densityBytes, ¬written other →
        Function.update s.dataBuf address.toNat dataByte other = s.dataBuf other := by
    intro other _ away
    apply Function.update_of_ne
    rintro rfl
    exact away covers
  rcases eepromWriteDataByte_cases coherent.toReady inside dataByte with
    ⟨same, result⟩ | ⟨erased, result⟩ | ⟨programmed, small, result⟩ | ⟨programmed, high, result⟩
  · rw [result, ← same, Function.update_eq_self]
    exact .unchanged coherent (fun _ _ => rfl)
  · rw [result]
    exact .of_stores coherent (eepromWriteDirectEntry_stores ready inside erased).2 (untouched rfl)
  · rw [result]
    exact .of_stores coherent
      (eepromWriteLogByteEntry_stores ready small inside (fun _ => programmed)) (untouched rfl)
  · have aligned := aligned_toNat address
    have half : 2 * (address.toNat / 2) / 2 = address.toNat / 2 := by omega
    rw [result]
    exact .of_stores coherent
      (eepromWriteLogWordEntry_stores ready (by omega) (by omega) (by omega)
        (by rw [aligned, half]; exact programmed)) (untouched (by omega))

/-- Programmed compacted words survive `eeprom_write_log_byte_entry` when it appends,
and when it compacts a cache that is not zero there. -/
theorem eepromWriteLogByteEntry_programmed (ready : Ready cfg s)
    (programmed : s.flash.cells cell ≠ feeEmptyWord) (compacted : cell < cfg.logBase)
    (nonzero : cfg.logLast ≤ s.emptySlot → s.dataBuf.word (2 * cell) ≠ 0) :
    (eepromWriteLogByteEntry cfg s address).1.flash.cells cell ≠ feeEmptyWord := by
  have order := logBase_le_logLast cfg
  have bounds := logEnd_bounds cfg s.flash.cells
  rcases Nat.lt_or_ge s.emptySlot cfg.logLast with room | full
  · rw [eepromWriteLogByteEntry_room ready room]
    exact (Function.update_of_ne (by omega) _ _).trans_ne programmed
  · obtain ⟨cells, _⟩ := eepromCompact_cells cfg s ready.working
    rw [eepromWriteLogByteEntry_full full, cells cell (by omega), if_pos compacted]
    intro empty
    apply nonzero full
    rw [← BitVec.not_not (b := s.dataBuf.word (2 * cell)), empty]
    decide

theorem Stores.refl (ready : Ready cfg s) : Stores cfg s s (fun _ => False) :=
  ⟨ready, .refl cfg s.flash, rfl, fun _ _ held => held.resolve_left id⟩

/-- One byte entry for each byte that changed. -/
theorem eepromWriteChangedBytes_stores (ready : Ready cfg s) (even : address.toNat % 2 = 0)
    (small : address.toNat < 0x80) (inside : address.toNat < cfg.densityBytes)
    (programmed : s.flash.cells (address.toNat / 2) ≠ feeEmptyWord) (oldValue dataWord : HalfWord)
    (unsplit : oldValue.setWidth 8 ≠ dataWord.setWidth 8 → oldValue >>> 8 ≠ dataWord >>> 8 →
      cfg.logLast ≤ s.emptySlot → cfg.logBase < cfg.logLast →
      s.dataBuf.word address.toNat ≠ 0) :
    Stores cfg s (eepromWriteChangedBytes cfg s address oldValue dataWord).1 (fun other =>
      other = address.toNat ∧ oldValue.setWidth 8 ≠ dataWord.setWidth 8 ∨
        other = address.toNat + 1 ∧ oldValue >>> 8 ≠ dataWord >>> 8) := by
  have densityEven := cfg.densityEven
  have compacted := half_lt_logBase inside
  have whole : 2 * (address.toNat / 2) = address.toNat := by omega
  have next : (address + 1).toNat = address.toNat + 1 := by
    rw [BitVec.toNat_add]
    have one : (1 : HalfWord).toNat = 1 := rfl
    omega
  have nextHalf : (address + 1).toNat / 2 = address.toNat / 2 := by omega
  have lowStores : Stores cfg s (eepromWriteLogByteEntry cfg s address).1
      (fun other => other = address.toNat) :=
    eepromWriteLogByteEntry_stores ready small inside (fun _ => programmed)
  by_cases low : oldValue.setWidth 8 = dataWord.setWidth 8 <;>
    by_cases high : oldValue >>> 8 = dataWord >>> 8 <;>
    simp only [eepromWriteChangedBytes, low, high, ne_eq, not_true_eq_false, not_false_eq_true,
      ↓reduceIte]
  · exact (Stores.refl ready).mono (by simp)
  · refine (eepromWriteLogByteEntry_stores ready (by omega) (by omega) (fun _ => ?_)).mono ?_
    · rwa [nextHalf]
    · intro other held
      rw [next]
      simpa [high] using held
  · exact lowStores.mono (by simp)
  · -- the high byte goes above whatever the low byte's entry left
    have kept : (eepromWriteLogByteEntry cfg s address).1.emptySlot < cfg.logLast →
        (eepromWriteLogByteEntry cfg s address).1.flash.cells ((address + 1).toNat / 2) ≠
          feeEmptyWord := by
      intro room
      rw [nextHalf]
      apply eepromWriteLogByteEntry_programmed ready programmed compacted
      intro full
      rw [whole]
      apply unsplit low high full
      rw [eepromWriteLogByteEntry_full full] at room
      obtain ⟨_, _, _, slot, _⟩ := eepromCompact_cells cfg s ready.working
      omega
    refine (lowStores.trans
      (eepromWriteLogByteEntry_stores lowStores.ready (by omega) (by omega) kept)).mono ?_
    intro other held
    rw [next]
    simpa [low, high] using held

/-- What `EEPROM_WriteDataWord` does with an even address in range. -/
theorem eepromWriteDataWord_cases (ready : Ready cfg s) (even : address.toNat % 2 = 0)
    (inside : address.toNat < cfg.densityBytes) (dataWord : HalfWord) :
    let cached := { s with dataBuf := s.dataBuf.setWord address.toNat dataWord }
    let after := (eepromWriteDataWord cfg s address dataWord).1
    s.dataBuf.word address.toNat = dataWord ∧ after = s ∨
      s.flash.cells (address.toNat / 2) = feeEmptyWord ∧
        after = (eepromWriteDirectEntry cached address).1 ∨
      s.flash.cells (address.toNat / 2) ≠ feeEmptyWord ∧ address < feeByteRange ∧
        after = (eepromWriteChangedBytes cfg cached address (s.dataBuf.word address.toNat)
          dataWord).1 ∨
      s.flash.cells (address.toNat / 2) ≠ feeEmptyWord ∧ 0x80 ≤ address.toNat ∧
        after = (eepromWriteLogWordEntry cfg cached address).1 := by
  intro cached after
  have notPast : ¬cfg.densityBytes ≤ address.toNat := by omega
  have notOdd : ¬address.toNat % 2 = 1 := by omega
  by_cases same : s.dataBuf.word address.toNat = dataWord
  · left
    refine ⟨same, ?_⟩
    simp only [after, eepromWriteDataWord, notPast, notOdd, same, ↓reduceIte]
  by_cases erased : s.flash.cells (address.toNat / 2) = feeEmptyWord
  · right; left
    have status := (eepromWriteDirectEntry_stores (ready.cache cached.dataBuf) inside erased).1
    refine ⟨erased, ?_⟩
    simp only [after, cached, eepromWriteDataWord, notPast, notOdd, same, status, reduceCtorEq,
      ↓reduceIte]
  · have skips := eepromWriteDirectEntry_skips (s := cached) erased
    by_cases small : address < feeByteRange
    · right; right; left
      refine ⟨erased, small, ?_⟩
      simp only [after, cached, eepromWriteDataWord, notPast, notOdd, same, skips, small,
        ↓reduceIte]
    · right; right; right
      refine ⟨erased, by simpa [BitVec.lt_def, feeByteRange] using small, ?_⟩
      simp only [after, cached, eepromWriteDataWord, notPast, notOdd, same, skips, small,
        ↓reduceIte]

theorem lowByte (buf : DataBuf) (address : Nat) : (buf.word address).setWidth 8 = buf address :=
  append_low _ _

theorem highByte (buf : DataBuf) (address : Nat) :
    (buf.word address >>> 8).setWidth 8 = buf (address + 1) :=
  append_high _ _

theorem setWord_away (buf : DataBuf) (dataWord : HalfWord) {address other : Nat}
    (low : other ≠ address) (high : other ≠ address + 1) :
    buf.setWord address dataWord other = buf other := by
  rw [DataBuf.setWord, Function.update_of_ne high, Function.update_of_ne low]

/-- A byte of the new word that is the same in the old one has not changed. -/
theorem setWord_same (buf : DataBuf) (dataWord : HalfWord) (address other : Nat)
    (low : other = address → (buf.word address).setWidth 8 = dataWord.setWidth 8)
    (high : other = address + 1 → buf.word address >>> 8 = dataWord >>> 8) :
    buf.setWord address dataWord other = buf other := by
  by_cases isHigh : other = address + 1
  · rw [isHigh, DataBuf.setWord, Function.update_self, ← high isHigh, highByte]
  by_cases isLow : other = address
  · rw [DataBuf.setWord, Function.update_of_ne isHigh, isLow, Function.update_self, ← low isLow,
      lowByte]
  · exact setWord_away buf dataWord isLow isHigh

/-- `EEPROM_WriteDataWord` at an even address -/
theorem eepromWriteDataWord_even (coherent : Coherent cfg s) (even : address.toNat % 2 = 0)
    (inside : address.toNat < cfg.densityBytes) (dataWord : HalfWord)
    (unsplit : splitsZeroWord cfg s (.writeDataWord address dataWord) = false) :
    Completes cfg s (eepromWriteDataWord cfg s address dataWord).1
      (s.dataBuf.setWord address.toNat dataWord) := by
  have ready := coherent.toReady.cache (s.dataBuf.setWord address.toNat dataWord)
  rcases eepromWriteDataWord_cases coherent.toReady even inside dataWord with
    ⟨same, result⟩ | ⟨erased, result⟩ | ⟨programmed, small, result⟩ | ⟨programmed, high, result⟩
  · rw [result]
    refine .unchanged coherent fun other _ => ?_
    exact (setWord_same s.dataBuf dataWord address.toNat other (fun _ => by rw [same])
      (fun _ => by rw [same])).symm
  · rw [result]
    exact .of_stores coherent (eepromWriteDirectEntry_stores ready inside erased).2
      (fun other _ outside => setWord_away _ _ (by omega) (by omega))
  · have bound : address.toNat < 0x80 := BitVec.lt_def.mp small
    rw [result]
    refine .of_stores coherent (eepromWriteChangedBytes_stores ready even bound inside programmed
      (s.dataBuf.word address.toNat) dataWord ?_) ?_
    · intro lowChanged highChanged full room
      rw [setWord_word]
      rintro rfl
      rw [lowByte] at lowChanged
      have highNonzero : s.dataBuf (address.toNat + 1) ≠ 0 := by
        intro zero
        apply highChanged
        rw [DataBuf.word, zero]
        exact append_zero_high _
      have split : splitsZeroWord cfg s (.writeDataWord address 0) = true := by
        simpa [splitsZeroWord, inside, even, small, full, room] using
          And.intro lowChanged highNonzero
      rw [split] at unsplit
      cases unsplit
    · intro other _ outside
      refine setWord_same s.dataBuf dataWord address.toNat other ?_ ?_
      · intro isLow
        by_contra changed
        exact outside (.inl ⟨isLow, changed⟩)
      · intro isHigh
        by_contra changed
        exact outside (.inr ⟨isHigh, changed⟩)
  · rw [result]
    exact .of_stores coherent (eepromWriteLogWordEntry_stores ready even high inside programmed)
      (fun other _ outside => setWord_away _ _ (by omega) (by omega))

/-- `EEPROM_WriteDataWord` at an odd address, as two byte writes -/
theorem eepromWriteDataWord_odd (coherent : Coherent cfg s) (odd : address.toNat % 2 = 1)
    (inside : address.toNat < cfg.densityBytes) (dataWord : HalfWord) :
    Completes cfg s (eepromWriteDataWord cfg s address dataWord).1
      (s.dataBuf.setWord address.toNat dataWord) := by
  have notPast : ¬cfg.densityBytes ≤ address.toNat := by omega
  have limit := cfg.addressable
  have next : (address + 1).toNat = address.toNat + 1 := by
    rw [BitVec.toNat_add]
    have one : (1 : HalfWord).toNat = 1 := rfl
    unfold feeAddressMaxSize at limit
    omega
  have low := eepromWriteDataByte_completes coherent inside (dataWord.setWidth 8)
  have result : (eepromWriteDataWord cfg s address dataWord).1 =
      (eepromWriteDataByte cfg (eepromWriteDataByte cfg s address (dataWord.setWidth 8)).1
        (address + 1) ((dataWord >>> 8).setWidth 8)).1 := by
    simp only [eepromWriteDataWord, notPast, odd, ↓reduceIte]
  rw [result]
  by_cases past : cfg.densityBytes ≤ (address + 1).toNat
  · have skips : eepromWriteDataByte cfg (eepromWriteDataByte cfg s address (dataWord.setWidth 8)).1
        (address + 1) ((dataWord >>> 8).setWidth 8) =
        ((eepromWriteDataByte cfg s address (dataWord.setWidth 8)).1, .badAddress) := by
      rw [eepromWriteDataByte, if_pos past]
    rw [skips]
    refine ⟨low.coherent, low.advances, ?_⟩
    intro other below
    rw [DataBuf.setWord, Function.update_of_ne (by omega)]
    exact low.dataBuf other below
  · have high := eepromWriteDataByte_completes low.coherent (Nat.not_le.mp past)
      ((dataWord >>> 8).setWidth 8)
    refine ⟨high.coherent, low.advances.trans high.advances, ?_⟩
    intro other below
    rw [high.dataBuf other below, next, DataBuf.setWord]
    by_cases hit : other = address.toNat + 1
    · rw [hit, Function.update_self, Function.update_self]
    · rw [Function.update_of_ne hit, Function.update_of_ne hit]
      exact low.dataBuf other below

theorem eepromInit_completes (coherent : Coherent cfg s) :
    Completes cfg s (eepromInit cfg s).1 s.dataBuf := by
  refine ⟨⟨⟨coherent.sound, eepromInit_emptySlot s, coherent.working⟩, ?_⟩,
    .refl cfg s.flash, ?_⟩
  · intro other below
    exact (eepromInit_dataBuf s below).symm
  · intro other below
    exact (eepromInit_dataBuf s below).trans (coherent.cached other below)

/-- A step that does not split a zero word ends coherent, with the writes of the
call over the cache. -/
theorem Call.exec_completes (coherent : Coherent cfg s) (call : Call)
    (unsplit : splitsZeroWord cfg s call = false) :
    Completes cfg s (call.exec cfg s) (overlay call.writes s.dataBuf) := by
  cases call with
  | writeDataByte address dataByte =>
    by_cases inside : address.toNat < cfg.densityBytes
    · exact eepromWriteDataByte_completes coherent inside dataByte
    · have past : cfg.densityBytes ≤ address.toNat := by omega
      have skips : Call.exec cfg s (.writeDataByte address dataByte) = s := by
        rw [Call.exec, eepromWriteDataByte, if_pos past]
      rw [skips]
      refine .unchanged coherent fun other below => ?_
      rw [Call.writes, overlay_cons, overlay_nil, Function.update_of_ne (by omega)]
  | writeDataWord address dataWord =>
    by_cases inside : address.toNat < cfg.densityBytes
    · rcases Nat.mod_two_eq_zero_or_one address.toNat with even | odd
      · exact eepromWriteDataWord_even coherent even inside dataWord unsplit
      · exact eepromWriteDataWord_odd coherent odd inside dataWord
    · have past : cfg.densityBytes ≤ address.toNat := by omega
      have skips : Call.exec cfg s (.writeDataWord address dataWord) = s := by
        rw [Call.exec, eepromWriteDataWord, if_pos past]
      rw [skips]
      refine .unchanged coherent fun other below => ?_
      rw [Call.writes, wordWrites, overlay_cons, overlay_cons, overlay_nil,
        Function.update_of_ne (by omega), Function.update_of_ne (by omega)]
  | init => exact eepromInit_completes coherent

end Calls

section Runs

variable {cfg : Config} {start : Emulation} {calls : List Call}

/-- The run keeps the flash coherent, and its writes lie over the first cache. -/
theorem run_completes (coherent : Coherent cfg start)
    (unsplit : Along (Call.exec cfg) (fun s call => splitsZeroWord cfg s call = false) start
      calls) :
    Completes cfg start (run (Call.exec cfg) start calls)
      (overlay (calls.flatMap Call.writes) start.dataBuf) := by
  induction calls generalizing start with
  | nil => exact .unchanged coherent (fun _ _ => rfl)
  | cons call rest ih =>
    have first := Call.exec_completes coherent call unsplit.1
    have later := ih first.coherent unsplit.2
    refine ⟨later.coherent, first.advances.trans later.advances, ?_⟩
    intro address below
    rw [run_cons, later.dataBuf address below, List.flatMap_cons, overlay_append]
    exact overlay_congr (first.dataBuf address below) _

/-- Powering on over a sound image is coherent. -/
theorem powerOn_coherent (sound : Sound cfg cells) : Coherent cfg (powerOn cfg cells) :=
  ⟨⟨sound, eepromInit_emptySlot { flash := { cells } }, rfl⟩,
    fun _ below => (eepromInit_dataBuf { flash := { cells } } below).symm⟩

theorem erasedCells_sound (cfg : Config) : Sound cfg erasedCells :=
  sound_of_blank (fun _ _ _ => rfl)

theorem powerOn_erased (below : address < cfg.densityBytes) :
    (powerOn cfg erasedCells).dataBuf address = 0 := by
  have zero : compactedByte erasedCells address = 0 := by
    have empty : ~~~feeEmptyWord = 0 := by decide
    simp [compactedByte, erasedCells, empty]
  have blank : contents cfg erasedCells = compactedByte erasedCells :=
    contents_of_blank (fun _ _ _ => rfl)
  exact (eepromInit_dataBuf _ below).trans (by rw [blank, zero])

/-- Starting from erased flash, as long as no step splits a zero word, a restart
rebuilds the cache and reads back the last byte written to every address. -/
theorem restart_rebuilds (cfg : Config) (calls : List Call)
    (unsplit : Along (Call.exec cfg) (fun s call => splitsZeroWord cfg s call = false)
      (powerOn cfg erasedCells) calls)
    (restarted : Emulation)
    (sameFlash : restarted.flash = (run (Call.exec cfg) (powerOn cfg erasedCells) calls).flash)
    (address : HalfWord) (inside : address.toNat < cfg.densityBytes) :
    (eepromInit cfg restarted).1.dataBuf address.toNat =
        (run (Call.exec cfg) (powerOn cfg erasedCells) calls).dataBuf address.toNat ∧
      eepromReadDataByte cfg (eepromInit cfg restarted).1 address =
        (lastWritten calls address.toNat).getD 0 := by
  have completes := run_completes (powerOn_coherent (erasedCells_sound cfg)) unsplit
  have rebuilt : (eepromInit cfg restarted).1.dataBuf address.toNat =
      (run (Call.exec cfg) (powerOn cfg erasedCells) calls).dataBuf address.toNat := by
    rw [eepromInit_dataBuf restarted inside, sameFlash]
    exact completes.coherent.cached _ inside
  refine ⟨rebuilt, ?_⟩
  rw [eepromReadDataByte, if_pos inside, rebuilt, completes.dataBuf _ inside, overlay_apply,
    powerOn_erased inside]
  rfl

/-- Two bytes and one log cell: enough to split a zero word. -/
def tinyConfig : Config where
  pageSize := 0x400
  pageCount := 1
  densityBytes := 2
  writeLogBytes := 2

theorem restart_rebuilds_tiny :
    Along (Call.exec tinyConfig) (fun s call => splitsZeroWord tinyConfig s call = false)
        (powerOn tinyConfig erasedCells)
        [.writeDataWord 0 0x0101, .writeDataByte 0 2, .init, .writeDataByte 1 3] ∧
      eepromReadDataByte tinyConfig (eepromInit tinyConfig (run (Call.exec tinyConfig)
        (powerOn tinyConfig erasedCells)
        [.writeDataWord 0 0x0101, .writeDataByte 0 2, .init, .writeDataByte 1 3])).1 1 = 3 :=
  have unsplit : Along (Call.exec tinyConfig)
      (fun s call => splitsZeroWord tinyConfig s call = false) (powerOn tinyConfig erasedCells)
      [.writeDataWord 0 0x0101, .writeDataByte 0 2, .init, .writeDataByte 1 3] := by decide
  ⟨unsplit, (restart_rebuilds tinyConfig _ unsplit _ rfl 1 (by decide)).2⟩

/-- The second write splits the zero word; the word written last is then read
back with the stale high byte of the log. -/
theorem restart_loses_word :
    let calls : List Call := [.writeDataWord 0 0x0101, .writeDataByte 0 2, .writeDataWord 0 0,
      .writeDataWord 0 0x0505]
    let ram := run (Call.exec tinyConfig) (powerOn tinyConfig erasedCells) calls
    ram.dataBuf 1 = 5 ∧ lastWritten calls 1 = some 5 ∧ (eepromInit tinyConfig ram).1.dataBuf 1 = 0 := by
  decide

end Runs

end QmkSonix.Eeprom
