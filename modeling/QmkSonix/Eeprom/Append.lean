import QmkSonix.Eeprom.Durability

/-! Power loss inside a write that only appends. After any of its flash operations
the image is sound, every byte reads as before or as after the write, and a header
whose value is missing takes up its two cells and writes nothing. -/

namespace QmkSonix.Eeprom

open QmkSonix.Lib

def FlashOp.erases : FlashOp → Bool
  | .erasePage _ => true
  | .programHalfWord .. => false

/-- Every byte reads as in one of two contents. -/
def Between (cfg : Config) (old new buf : DataBuf) : Prop :=
  ∀ address < cfg.densityBytes, buf address = old address ∨ buf address = new address

/-- An operation of a write from the contents `old` to the contents `new`. A
two-cell header goes to the end of the log, in front of a free cell for its value. -/
structure Tidy (cfg : Config) (old new : DataBuf) (cells : Cells) (op : FlashOp) : Prop where
  sound : Sound cfg (op.apply cfg.pageSize cells)
  between : Between cfg old new (contents cfg (op.apply cfg.pageSize cells))
  header : ∀ header, op = .programHalfWord (logEnd cfg cells) header → entryWide header = true →
    header ≠ feeEmptyWord ∧ logEnd cfg cells + 1 < cfg.logLast

/-- The stretch between two controller states has a page erase in it. -/
def Erases (before after : Flash) : Prop :=
  ∃ new, after.ops = before.ops ++ new ∧ new.any FlashOp.erases = true

/-- A stretch that does not erase is tidy. -/
def Appends (cfg : Config) (old new : DataBuf) (before after : Flash) : Prop :=
  Erases before after ∨ Performs cfg (Tidy cfg old new) before after

section Contents

variable {cfg : Config} {old new buf : DataBuf}

theorem Between.overlay {writes : List (Nat × Byte)} (between : Between cfg old new buf)
    (newer : ∀ write ∈ writes, write.2 = new write.1) :
    Between cfg old new (overlay writes buf) := by
  induction writes generalizing buf with
  | nil => exact between
  | cons write rest ih =>
    rw [overlay_cons]
    refine ih ?_ (fun later member => newer later (List.mem_cons_of_mem write member))
    intro address below
    by_cases hit : address = write.1
    · right
      rw [hit, Function.update_self]
      exact newer write List.mem_cons_self
    · rw [Function.update_of_ne hit]
      exact between address below

theorem Between.mono {older newer : DataBuf} (between : Between cfg old new buf)
    (oldWithin : Between cfg older newer old) (newWithin : Between cfg older newer new) :
    Between cfg older newer buf := by
  intro address below
  rcases between address below with same | same
  · rw [same]
    exact oldWithin address below
  · rw [same]
    exact newWithin address below

theorem Appends.mono {older newer : DataBuf} {before after : Flash}
    (appends : Appends cfg old new before after) (oldWithin : Between cfg older newer old)
    (newWithin : Between cfg older newer new) : Appends cfg older newer before after := by
  refine appends.imp_right (Performs.mono fun cells op tidy => ?_)
  exact ⟨tidy.sound, tidy.between.mono oldWithin newWithin, tidy.header⟩

theorem Appends.refl (cfg : Config) (old new : DataBuf) (flash : Flash) :
    Appends cfg old new flash flash :=
  Or.inr (Performs.refl flash)

theorem Erases.grows {before middle after : Flash} {later : List FlashOp}
    (erases : Erases before middle) (ops : after.ops = middle.ops ++ later) :
    Erases before after := by
  obtain ⟨erasing, earlierOps, erases⟩ := erases
  exact ⟨erasing ++ later, by rw [ops, earlierOps, List.append_assoc], by simp [erases]⟩

theorem Appends.trans {before middle after : Flash} (first : Appends cfg old new before middle)
    (second : Appends cfg old new middle after) : Appends cfg old new before after := by
  rcases first with erases | performs
  · left
    rcases second with ⟨later, ops, _⟩ | ⟨later, ops, _⟩
    · exact erases.grows ops
    · exact erases.grows ops
  · rcases second with ⟨erasing, ops, erases⟩ | performsLater
    · obtain ⟨earlier, earlierOps, _⟩ := performs
      exact Or.inl ⟨earlier ++ erasing, by rw [ops, earlierOps, List.append_assoc],
        by simp [erases]⟩
    · exact Or.inr (performs.trans performsLater)

/-- The writes of an entry with the bytes of the new contents. -/
theorem between_extends {cells other : Cells} {writes : List (Nat × Byte)}
    (appended : Extends cfg cells other writes) (between : Between cfg old new (contents cfg cells))
    (newer : ∀ write ∈ writes, write.2 = new write.1) :
    Between cfg old new (contents cfg other) := by
  intro address below
  rw [appended.contents below]
  exact between.overlay newer address below

end Contents

section Entries

variable {cfg : Config} {s : Emulation} {address : HalfWord} {old new : DataBuf}

/-- `eeprom_compact` erases, since the emulation has pages. -/
theorem eepromCompact_erases (working : s.flash.faults = []) (pages : 0 < cfg.pageCount) :
    Erases s.flash (eepromCompact cfg s).1.flash := by
  obtain ⟨erased, dropped, _⟩ := eepromClear_spec cfg s (works_of_idle working _)
  have idle : (eepromClear cfg s).flash.faults = [] := by rw [dropped, working, List.drop_nil]
  obtain ⟨_, _, _, _, programs, ops, _⟩ := compactCells_spec cfg s.dataBuf
    (eepromClear cfg s).flash.unlock rfl idle erased cfg.logBase (Nat.le_refl _)
  have cleared : (eepromClear cfg s).flash.ops =
      s.flash.ops ++ (List.range cfg.pageCount).map FlashOp.erasePage := by
    have unlocked : s.flash.unlock.locked = false := rfl
    have works : s.flash.unlock.Works cfg.pageCount := works_of_idle working _
    exact erasePages_ops cfg unlocked works
  refine ⟨(List.range cfg.pageCount).map FlashOp.erasePage ++ programs, ?_, ?_⟩
  · rw [← List.append_assoc, ← cleared]
    exact ops
  · obtain ⟨count, succ⟩ : ∃ count, cfg.pageCount = count + 1 := ⟨cfg.pageCount - 1, by omega⟩
    simp [succ, List.range_succ, FlashOp.erases]

theorem pages_of_inside (inside : address.toNat < cfg.densityBytes) : 0 < cfg.pageCount := by
  have fits := cfg.fits
  rcases Nat.eq_zero_or_pos cfg.pageCount with none | some
  · rw [none, Nat.zero_mul] at fits
    omega
  · exact some

theorem single_unwide (single : entryWide header = false) (cells : Cells) (cell : Nat) :
    ∀ wide, FlashOp.programHalfWord cell header = .programHalfWord (logEnd cfg cells) wide →
      entryWide wide = true → wide ≠ feeEmptyWord ∧ logEnd cfg cells + 1 < cfg.logLast := by
  rintro wide same isWide
  injection same with _ header
  rw [← header, single] at isWide
  cases isWide

theorem eepromWriteDirectEntry_appends (ready : Ready cfg s)
    (inside : address.toNat < cfg.densityBytes)
    (erased : s.flash.cells (address.toNat / 2) = feeEmptyWord)
    (between : Between cfg old s.dataBuf (contents cfg s.flash.cells)) :
    Appends cfg old s.dataBuf s.flash (eepromWriteDirectEntry s address).1.flash := by
  have compacted := half_lt_logBase inside
  have bounds := logEnd_bounds cfg s.flash.cells
  right
  by_cases empty : ~~~s.dataBuf.word (2 * (address.toNat / 2)) = feeEmptyWord
  · rw [eepromWriteDirectEntry_zero erased empty]
    exact .refl s.flash
  · rw [eepromWriteDirectEntry_programs ready erased empty]
    refine Performs.of_op (.programHalfWord _ _) rfl rfl
      ⟨sound_direct ready.sound compacted empty, ?_, ?_⟩
    · intro other below
      have stored := contents_direct_cached ready inside erased other
      split at stored
      · exact Or.inr stored
      · rw [FlashOp.apply, stored]
        exact between other below
    · intro header same
      injection same with here _
      omega

theorem eepromWriteLogByteEntry_appends (ready : Ready cfg s) (small : address.toNat < 0x80)
    (inside : address.toNat < cfg.densityBytes)
    (backed : s.flash.cells (address.toNat / 2) ≠ feeEmptyWord)
    (between : Between cfg old s.dataBuf (contents cfg s.flash.cells)) :
    Appends cfg old s.dataBuf s.flash (eepromWriteLogByteEntry cfg s address).1.flash := by
  rcases Nat.lt_or_ge s.emptySlot cfg.logLast with room | full
  · right
    have space : logEnd cfg s.flash.cells < cfg.logLast := by rw [← ready.slot]; exact room
    have appended := (byteEntry_extends ready.sound space small inside backed
      (s.dataBuf address.toNat)).1
    have newer : ∀ write ∈ [(address.toNat, s.dataBuf address.toNat)],
        write.2 = s.dataBuf write.1 := by simp
    rw [eepromWriteLogByteEntry_room ready room]
    exact Performs.of_op (.programHalfWord _ _) rfl rfl ⟨appended.sound,
      between_extends appended between newer, single_unwide (byteHeader_single small _) _ _⟩
  · left
    rw [eepromWriteLogByteEntry_full full]
    exact eepromCompact_erases ready.working (pages_of_inside inside)

theorem wordWrites_cached (buf : DataBuf) (address : Nat) :
    ∀ write ∈ wordWrites address (buf.word address), write.2 = buf write.1 := by
  simp [wordWrites, lowByte, highByte]

theorem eepromWriteLogWordEntry_appends (ready : Ready cfg s) (even : address.toNat % 2 = 0)
    (low : 0x80 ≤ address.toNat) (inside : address.toNat < cfg.densityBytes)
    (backed : s.flash.cells (address.toNat / 2) ≠ feeEmptyWord)
    (between : Between cfg old s.dataBuf (contents cfg s.flash.cells)) :
    Appends cfg old s.dataBuf s.flash (eepromWriteLogWordEntry cfg s address).1.flash := by
  have slot := ready.slot
  have bound : address.toNat < feeAddressMaxSize := Nat.lt_of_lt_of_le inside cfg.addressable
  have pages := pages_of_inside inside
  have newer := wordWrites_cached s.dataBuf address.toNat
  by_cases short : s.dataBuf.word address.toNat ≤ 1
  · by_cases room : s.emptySlot < cfg.logLast
    · right
      have appended := (shortEntry_extends ready.sound even inside (by omega) short backed).1
      rw [eepromWriteLogWordEntry_short ready short room]
      exact Performs.of_op (.programHalfWord _ _) rfl rfl ⟨appended.sound,
        between_extends appended between newer, single_unwide (shortHeader_single bound short) _ _⟩
    · left
      have full : cfg.logLast < s.emptySlot + 2 / 2 := by omega
      have compacts : eepromWriteLogWordEntry cfg s address = eepromCompact cfg s := by
        simp only [eepromWriteLogWordEntry, short, full, ↓reduceIte]
      rw [compacts]
      exact eepromCompact_erases ready.working pages
  · by_cases room : s.emptySlot + 1 < cfg.logLast
    · right
      have space : logEnd cfg s.flash.cells + 1 < cfg.logLast := by omega
      have appended := (longEntry_extends ready.sound even low inside space short backed).1
      obtain ⟨headed, stop⟩ := header_extends ready.sound low inside space
      rw [eepromWriteLogWordEntry_long ready short room]
      let header : Flash := { s.flash with
        cells := Function.update s.flash.cells (logEnd cfg s.flash.cells) (nextHeader address)
        ops := s.flash.ops ++ [.programHalfWord (logEnd cfg s.flash.cells) (nextHeader address)] }
      have first : Performs cfg (Tidy cfg old s.dataBuf) s.flash header := by
        refine Performs.of_op (.programHalfWord _ _) rfl rfl
          ⟨headed.sound, between_extends headed between (by simp), ?_⟩
        intro wide same _
        injection same with _ same
        rw [← same]
        exact ⟨nextHeader_used bound low, space⟩
      refine first.trans (Performs.of_op (.programHalfWord _ _) rfl rfl
        ⟨appended.sound, between_extends appended between newer, ?_⟩)
      -- the value goes between the header and the end of the log
      intro wide same
      injection same with here _
      rw [stop] at here
      omega
    · left
      have full : cfg.logLast < s.emptySlot + 4 / 2 := by omega
      have compacts : eepromWriteLogWordEntry cfg s address = eepromCompact cfg s := by
        simp only [eepromWriteLogWordEntry, short, full, ↓reduceIte]
      rw [compacts]
      exact eepromCompact_erases ready.working pages

end Entries

section Calls

variable {cfg : Config} {s : Emulation} {address : HalfWord} {old : DataBuf}

theorem eepromWriteLogByteEntry_grows (working : s.flash.faults = []) (pages : 0 < cfg.pageCount) :
    ∃ later, (eepromWriteLogByteEntry cfg s address).1.flash.ops = s.flash.ops ++ later := by
  rcases Nat.lt_or_ge s.emptySlot cfg.logLast with room | full
  · have notFull : ¬cfg.logLast ≤ s.emptySlot := by omega
    simp only [eepromWriteLogByteEntry, notFull, ↓reduceIte, Flash.lock_ops,
      Flash.programHalfWord, Flash.unlock_locked, Bool.false_eq_true, Flash.unlock_faults, working,
      List.head?_nil, Option.join_none]
    split
    · exact ⟨_, rfl⟩
    · exact ⟨[], (List.append_nil _).symm⟩
  · rw [eepromWriteLogByteEntry_full full]
    obtain ⟨later, ops, _⟩ := eepromCompact_erases working pages
    exact ⟨later, ops⟩

theorem eepromWriteChangedBytes_appends (ready : Ready cfg s) (even : address.toNat % 2 = 0)
    (small : address.toNat < 0x80) (inside : address.toNat < cfg.densityBytes)
    (programmed : s.flash.cells (address.toNat / 2) ≠ feeEmptyWord)
    (between : Between cfg old s.dataBuf (contents cfg s.flash.cells))
    (oldValue dataWord : HalfWord) :
    Appends cfg old s.dataBuf s.flash
      (eepromWriteChangedBytes cfg s address oldValue dataWord).1.flash := by
  have densityEven := cfg.densityEven
  have next : (address + 1).toNat = address.toNat + 1 := by
    rw [BitVec.toNat_add]
    have one : (1 : HalfWord).toNat = 1 := rfl
    omega
  have nextHalf : (address + 1).toNat / 2 = address.toNat / 2 := by omega
  have nextProgrammed : s.flash.cells ((address + 1).toNat / 2) ≠ feeEmptyWord := by
    rwa [nextHalf]
  have lowAppends := eepromWriteLogByteEntry_appends ready small inside programmed between
  by_cases low : oldValue.setWidth 8 = dataWord.setWidth 8 <;>
    by_cases high : oldValue >>> 8 = dataWord >>> 8 <;>
    simp only [eepromWriteChangedBytes, low, high, ne_eq, not_true_eq_false, not_false_eq_true,
      ↓reduceIte]
  · exact Appends.refl cfg _ _ s.flash
  · exact eepromWriteLogByteEntry_appends ready (by omega) (by omega) nextProgrammed between
  · exact lowAppends
  · rcases Nat.lt_or_ge s.emptySlot cfg.logLast with room | full
    · have space : logEnd cfg s.flash.cells < cfg.logLast := by rw [← ready.slot]; exact room
      obtain ⟨appended, stop⟩ := byteEntry_extends ready.sound space small inside programmed
        (s.dataBuf address.toNat)
      have newer : ∀ write ∈ [(address.toNat, s.dataBuf address.toNat)],
          write.2 = s.dataBuf write.1 := by simp
      rw [eepromWriteLogByteEntry_room ready room] at lowAppends ⊢
      refine lowAppends.trans (eepromWriteLogByteEntry_appends
        ⟨appended.sound, stop.symm, ready.working⟩ (by omega) (by omega) ?_
        (between_extends appended between newer))
      have inRange : (address + 1).toNat < cfg.densityBytes := by omega
      exact (appended.compacted _ (half_lt_logBase inRange)).trans_ne nextProgrammed
    · -- the low byte's entry compacts
      left
      rw [eepromWriteLogByteEntry_full full]
      obtain ⟨_, working, _⟩ := eepromCompact_cells cfg s ready.working
      obtain ⟨later, ops⟩ := eepromWriteLogByteEntry_grows working (pages_of_inside inside)
      exact (eepromCompact_erases ready.working (pages_of_inside inside)).grows ops

/-- The contents before a write lie between the old and the new ones. -/
theorem Coherent.between (coherent : Coherent cfg s) (buf : DataBuf) :
    Between cfg s.dataBuf buf (contents cfg s.flash.cells) :=
  fun other below => Or.inl (coherent.cached other below)

/-- `EEPROM_WriteDataByte` -/
theorem eepromWriteDataByte_appends (coherent : Coherent cfg s)
    (inside : address.toNat < cfg.densityBytes) (dataByte : Byte) :
    Appends cfg s.dataBuf (Function.update s.dataBuf address.toNat dataByte) s.flash
      (eepromWriteDataByte cfg s address dataByte).1.flash := by
  have ready := coherent.toReady.cache (Function.update s.dataBuf address.toNat dataByte)
  have between := coherent.between (Function.update s.dataBuf address.toNat dataByte)
  rcases eepromWriteDataByte_cases coherent.toReady inside dataByte with
    ⟨same, result⟩ | ⟨erased, result⟩ | ⟨programmed, small, result⟩ | ⟨programmed, high, result⟩
  · rw [result]
    exact Appends.refl cfg _ _ s.flash
  · rw [result]
    exact eepromWriteDirectEntry_appends ready inside erased between
  · rw [result]
    exact eepromWriteLogByteEntry_appends ready small inside programmed between
  · have aligned := aligned_toNat address
    have half : 2 * (address.toNat / 2) / 2 = address.toNat / 2 := by omega
    have even : (address &&& (0xFFFE : HalfWord)).toNat % 2 = 0 := by omega
    have appends := eepromWriteLogWordEntry_appends ready even (by omega) (by omega)
      (by rw [aligned, half]; exact programmed) between
    rw [result]
    exact appends

/-- `EEPROM_WriteDataWord` at an even address -/
theorem eepromWriteDataWord_even_appends (coherent : Coherent cfg s)
    (even : address.toNat % 2 = 0) (inside : address.toNat < cfg.densityBytes)
    (dataWord : HalfWord) :
    Appends cfg s.dataBuf (s.dataBuf.setWord address.toNat dataWord) s.flash
      (eepromWriteDataWord cfg s address dataWord).1.flash := by
  have ready := coherent.toReady.cache (s.dataBuf.setWord address.toNat dataWord)
  have between := coherent.between (s.dataBuf.setWord address.toNat dataWord)
  rcases eepromWriteDataWord_cases coherent.toReady even inside dataWord with
    ⟨same, result⟩ | ⟨erased, result⟩ | ⟨programmed, small, result⟩ | ⟨programmed, high, result⟩
  · rw [result]
    exact Appends.refl cfg _ _ s.flash
  · rw [result]
    exact eepromWriteDirectEntry_appends ready inside erased between
  · rw [result]
    exact eepromWriteChangedBytes_appends ready even (BitVec.lt_def.mp small) inside programmed
      between _ _
  · have appends := eepromWriteLogWordEntry_appends ready even high inside programmed between
    rw [result]
    exact appends

/-- A buffer with only the low byte written lies between the old and the new one. -/
theorem between_setWord (buf : DataBuf) (address : Nat) (dataWord : HalfWord) :
    Between cfg buf (buf.setWord address dataWord)
      (Function.update buf address (dataWord.setWidth 8)) := by
  intro other _
  by_cases hit : other = address
  · right
    have low : other ≠ address + 1 := by omega
    rw [DataBuf.setWord, Function.update_of_ne low, hit]
  · left
    rw [Function.update_of_ne hit]

/-- `EEPROM_WriteDataWord` at an odd address -/
theorem eepromWriteDataWord_odd_appends (coherent : Coherent cfg s)
    (odd : address.toNat % 2 = 1) (inside : address.toNat < cfg.densityBytes)
    (dataWord : HalfWord) :
    Appends cfg s.dataBuf (s.dataBuf.setWord address.toNat dataWord) s.flash
      (eepromWriteDataWord cfg s address dataWord).1.flash := by
  have notPast : ¬cfg.densityBytes ≤ address.toNat := by omega
  have low := eepromWriteDataByte_completes coherent inside (dataWord.setWidth 8)
  have middle : Between cfg s.dataBuf (s.dataBuf.setWord address.toNat dataWord)
      (Function.update s.dataBuf address.toNat (dataWord.setWidth 8)) := between_setWord _ _ _
  have lowAppends := (eepromWriteDataByte_appends coherent inside (dataWord.setWidth 8)).mono
    (fun _ _ => Or.inl rfl) middle
  have result : (eepromWriteDataWord cfg s address dataWord).1 =
      (eepromWriteDataByte cfg (eepromWriteDataByte cfg s address (dataWord.setWidth 8)).1
        (address + 1) ((dataWord >>> 8).setWidth 8)).1 := by
    simp only [eepromWriteDataWord, notPast, odd, ↓reduceIte]
  rw [result]
  by_cases past : cfg.densityBytes ≤ (address + 1).toNat
  · rw [eepromWriteDataByte, if_pos past]
    exact lowAppends
  · have limit := cfg.addressable
    have next : (address + 1).toNat = address.toNat + 1 := by
      rw [BitVec.toNat_add]
      have one : (1 : HalfWord).toNat = 1 := rfl
      unfold feeAddressMaxSize at limit
      omega
    have lowBuf : Between cfg s.dataBuf (s.dataBuf.setWord address.toNat dataWord)
        (eepromWriteDataByte cfg s address (dataWord.setWidth 8)).1.dataBuf := by
      intro other below
      rw [low.dataBuf other below]
      exact middle other below
    refine lowAppends.trans ((eepromWriteDataByte_appends low.coherent (Nat.not_le.mp past)
      ((dataWord >>> 8).setWidth 8)).mono lowBuf ?_)
    intro other below
    by_cases hit : other = address.toNat + 1
    · right
      rw [next, hit, DataBuf.setWord, Function.update_self, Function.update_self]
    · rw [next, Function.update_of_ne hit]
      exact lowBuf other below

/-- A call that does not erase goes from the old contents to the new ones tidily. -/
theorem Call.exec_appends (coherent : Coherent cfg s) (call : Call) :
    Appends cfg s.dataBuf (overlay call.writes s.dataBuf) s.flash (call.exec cfg s).flash := by
  cases call with
  | writeDataByte address dataByte =>
    by_cases inside : address.toNat < cfg.densityBytes
    · exact eepromWriteDataByte_appends coherent inside dataByte
    · rw [Call.exec, eepromWriteDataByte, if_pos (Nat.not_lt.mp inside)]
      exact Appends.refl cfg _ _ s.flash
  | writeDataWord address dataWord =>
    by_cases inside : address.toNat < cfg.densityBytes
    · rcases Nat.mod_two_eq_zero_or_one address.toNat with even | odd
      · exact eepromWriteDataWord_even_appends coherent even inside dataWord
      · exact eepromWriteDataWord_odd_appends coherent odd inside dataWord
    · rw [Call.exec, eepromWriteDataWord, if_pos (Nat.not_lt.mp inside)]
      exact Appends.refl cfg _ _ s.flash
  | init => exact Appends.refl cfg _ _ s.flash

end Calls

/-- The flash operations of one call. -/
def callOps (cfg : Config) (s : Emulation) (call : Call) : List FlashOp :=
  (call.exec cfg s).flash.ops.drop s.flash.ops.length

/-- The call compacts the log: it erases pages. -/
def compacts (cfg : Config) (s : Emulation) (call : Call) : Bool :=
  (callOps cfg s call).any FlashOp.erases

/-- What the flash holds when power is lost after `cut` operations of a call. -/
def callImage (cfg : Config) (s : Emulation) (call : Call) (cut : Nat) : Cells :=
  run (FlashOp.apply cfg.pageSize) s.flash.cells ((callOps cfg s call).take cut)

/-- A call that ends, or one during which power is lost, with the restart after it. -/
inductive LifeEvent where
  | completed (call : Call)
  | powerLoss (call : Call) (cut : Nat)
  deriving DecidableEq, Repr

def LifeEvent.exec (cfg : Config) (s : Emulation) : LifeEvent → Emulation
  | .completed call => call.exec cfg s
  | .powerLoss call cut => powerOn cfg (callImage cfg s call cut)

/-- The call does not split a zero word, and power is not lost between two page
erases of one `eeprom_clear`, unless what is left is sound. -/
def LifeEvent.keepsLog (cfg : Config) (s : Emulation) : LifeEvent → Prop
  | .completed call => splitsZeroWord cfg s call = false
  | .powerLoss call cut => splitsZeroWord cfg s call = false ∧
      (((callOps cfg s call).take cut).getLast?.any (FlashOp.tearsClear cfg) = true →
        Sound cfg (callImage cfg s call cut))

section Lives

variable {cfg : Config} {s : Emulation} {call : Call}

theorem callOps_of_grows (ops : (call.exec cfg s).flash.ops = s.flash.ops ++ new) :
    callOps cfg s call = new := by
  rw [callOps, ops, List.drop_left]

theorem LifeEvent.exec_coherent (coherent : Coherent cfg s) {event : LifeEvent}
    (keeps : event.keepsLog cfg s) : Coherent cfg (event.exec cfg s) := by
  cases event with
  | completed call => exact (Call.exec_completes coherent call keeps).coherent
  | powerLoss call cut =>
    obtain ⟨unsplit, torn⟩ := keeps
    apply powerOn_coherent
    obtain ⟨new, ops, _, cuts⟩ := (Call.exec_completes coherent call unsplit).advances
    rw [callImage, callOps_of_grows ops] at torn ⊢
    rcases run_take_cases cuts cut with untouched | ⟨before, op, last, tears | safe, image⟩
    · rw [untouched]
      exact coherent.sound
    · exact torn (by rw [last, Option.any_some, tears])
    · rw [image]
      exact safe

/-- Every state of a life along which the log is kept is coherent. -/
theorem life_coherent (cfg : Config) {events : List LifeEvent}
    (kept : Along (LifeEvent.exec cfg) (fun s event => event.keepsLog cfg s)
      (powerOn cfg erasedCells) events) :
    Coherent cfg (run (LifeEvent.exec cfg) (powerOn cfg erasedCells) events) := by
  have keeps (s : Emulation) (event : LifeEvent) (coherent : Coherent cfg s)
      (kept : event.keepsLog cfg s) : Coherent cfg (event.exec cfg s) :=
    LifeEvent.exec_coherent coherent kept
  exact run_invariant keeps (powerOn_coherent (erasedCells_sound cfg)) kept

end Lives

/-- What a restart finds when power is lost after `cut` operations of a call. -/
structure SurvivesCut (cfg : Config) (s : Emulation) (call : Call) (cut : Nat) : Prop where
  /-- `empty_slot` is at an unprogrammed word of the log, with nothing behind it, or at its end. -/
  slot : (powerOn cfg (callImage cfg s call cut)).emptySlot ≤ cfg.logLast ∧
    ∀ cell, (powerOn cfg (callImage cfg s call cut)).emptySlot ≤ cell → cell < cfg.logLast →
      callImage cfg s call cut cell = feeEmptyWord
  unwritten : ∀ address < cfg.densityBytes, (∀ write ∈ call.writes, write.1 ≠ address) →
    (powerOn cfg (callImage cfg s call cut)).dataBuf address = s.dataBuf address
  written : ∀ write ∈ call.writes, write.1 < cfg.densityBytes →
    (powerOn cfg (callImage cfg s call cut)).dataBuf write.1 = s.dataBuf write.1 ∨
      (powerOn cfg (callImage cfg s call cut)).dataBuf write.1 = write.2
  /-- A header that was programmed last, without its value, takes two cells and writes nothing. -/
  unfinished : ∀ earlier header,
    let before := run (FlashOp.apply cfg.pageSize) s.flash.cells earlier
    (callOps cfg s call).take cut =
      earlier ++ [.programHalfWord (powerOn cfg before).emptySlot header] →
    entryWide header = true →
    (powerOn cfg (callImage cfg s call cut)).emptySlot = (powerOn cfg before).emptySlot + 2 ∧
      ∀ address < cfg.densityBytes,
        (powerOn cfg (callImage cfg s call cut)).dataBuf address =
          (powerOn cfg before).dataBuf address
  /-- Entries appended later are decoded from `empty_slot` on, over what is there. -/
  later : ∀ (image : Cells) (buf : DataBuf),
    (∀ cell, cfg.logBase ≤ cell → cell < (powerOn cfg (callImage cfg s call cut)).emptySlot →
      image cell = callImage cfg s call cut cell) →
    replayLog cfg image (cfg.logLast - cfg.logBase) cfg.logBase buf =
      replayLog cfg image (cfg.logLast - (powerOn cfg (callImage cfg s call cut)).emptySlot)
        (powerOn cfg (callImage cfg s call cut)).emptySlot
        (replayLog cfg (callImage cfg s call cut) (cfg.logLast - cfg.logBase) cfg.logBase buf).1

section PowerLoss

variable {cfg : Config} {s : Emulation} {call : Call}

theorem powerOn_emptySlot (cells : Cells) : (powerOn cfg cells).emptySlot = logEnd cfg cells :=
  eepromInit_emptySlot { flash := { cells } }

theorem powerOn_dataBuf (cells : Cells) (below : address < cfg.densityBytes) :
    (powerOn cfg cells).dataBuf address = contents cfg cells address :=
  eepromInit_dataBuf { flash := { cells } } below

/-- A replay goes on from where the replay of an earlier image stopped. -/
theorem replayLog_extend {image cells : Cells}
    (agree : ∀ cell, cfg.logBase ≤ cell → cell < logEnd cfg cells → image cell = cells cell)
    (buf : DataBuf) :
    replayLog cfg image (cfg.logLast - cfg.logBase) cfg.logBase buf =
      replayLog cfg image (cfg.logLast - logEnd cfg cells) (logEnd cfg cells)
        (replayLog cfg cells (cfg.logLast - cfg.logBase) cfg.logBase buf).1 := by
  obtain ⟨writes, stop⟩ := log_extend cfg cells image agree
  rw [replayLog_eq_scan, replayLog_eq_scan, replayLog_eq_scan]
  exact Prod.ext (by rw [← overlay_append]; exact congrArg (overlay · buf) writes) stop

/-- The operations of a call that does not compact are tidy. -/
theorem callOps_tidy (coherent : Coherent cfg s) (appends : compacts cfg s call = false) :
    Along (FlashOp.apply cfg.pageSize) (Tidy cfg s.dataBuf (overlay call.writes s.dataBuf))
      s.flash.cells (callOps cfg s call) := by
  rcases Call.exec_appends coherent call with ⟨new, ops, erases⟩ | ⟨new, ops, _, tidy⟩
  · rw [compacts, callOps_of_grows ops, erases] at appends
    cases appends
  · rw [callOps_of_grows ops]
    exact tidy

/-- A header at the end of the log that has no value yet. -/
theorem logEnd_of_header {cells : Cells} (sound : Sound cfg cells) (used : header ≠ feeEmptyWord)
    (room : logEnd cfg cells + 1 < cfg.logLast) (wide : entryWide header = true) :
    logWrites cfg (Function.update cells (logEnd cfg cells) header) = logWrites cfg cells ∧
      logEnd cfg (Function.update cells (logEnd cfg cells) header) = logEnd cfg cells + 2 := by
  obtain ⟨writes, stop⟩ := log_append_wide sound.blank room used wide (Function.update_self ..)
    (fun cell away _ => Function.update_of_ne away _ _)
  have nothing : entryWrites cfg header feeEmptyWord = [] := by
    obtain ⟨word, next⟩ : header &&& feeWordEncoding ≠ 0 ∧
        header &&& feeValueNext = feeValueNext := by simpa [entryWide] using wide
    have blank : ~~~feeEmptyWord = 0 := by decide
    simp only [entryWrites, word, next, blank, ↓reduceIte]
  rw [Function.update_of_ne (by omega), sound.blank _ (by omega) room, nothing] at writes
  exact ⟨by simpa using writes, stop⟩

theorem survivesCut (coherent : Coherent cfg s) (appends : compacts cfg s call = false)
    (cut : Nat) : SurvivesCut cfg s call cut := by
  have along := callOps_tidy coherent appends
  obtain ⟨sound, between⟩ : Sound cfg (callImage cfg s call cut) ∧
      Between cfg s.dataBuf (overlay call.writes s.dataBuf)
        (contents cfg (callImage cfg s call cut)) := by
    rw [callImage]
    rcases run_take_cases along cut with untouched | ⟨before, op, _, tidy, image⟩
    · rw [untouched]
      exact ⟨coherent.sound, coherent.between _⟩
    · rw [image]
      exact ⟨tidy.sound, tidy.between⟩
  refine ⟨?_, ?_, ?_, ?_, ?_⟩
  · rw [powerOn_emptySlot]
    exact ⟨(logEnd_bounds cfg _).2, sound.blank⟩
  · intro address below unwritten
    rw [powerOn_dataBuf _ below]
    have same := overlay_of_unwritten unwritten s.dataBuf
    rcases between address below with old | new
    · exact old
    · exact new.trans same
  · intro write member below
    rw [powerOn_dataBuf _ below]
    refine (between write.1 below).imp id fun new => new.trans ?_
    cases call with
    | writeDataByte address dataByte =>
      rw [List.mem_singleton.mp member]
      simp [Call.writes]
    | writeDataWord address dataWord =>
      simp only [Call.writes, wordWrites, List.mem_cons, List.not_mem_nil, or_false] at member
      rcases member with rfl | rfl <;> simp [Call.writes, wordWrites]
    | init => exact absurd member List.not_mem_nil
  · intro earlier header before split wide
    have earlierAlong := along
    rw [← List.take_append_drop cut (callOps cfg s call), split, along_append, along_append]
      at earlierAlong
    obtain ⟨⟨alongEarlier, tidy, _⟩, _⟩ := earlierAlong
    have soundBefore : Sound cfg before :=
      run_invariant (fun _ _ _ tidy => tidy.sound) coherent.sound alongEarlier
    rw [powerOn_emptySlot] at tidy split
    obtain ⟨used, room⟩ := tidy.header header rfl wide
    obtain ⟨writes, stop⟩ := logEnd_of_header soundBefore used room wide
    have image : callImage cfg s call cut =
        Function.update before (logEnd cfg before) header := by
      rw [callImage, split, run_append, run_cons, run_nil]
      rfl
    rw [image, powerOn_emptySlot, powerOn_emptySlot]
    refine ⟨stop, fun address below => ?_⟩
    have bounds := logEnd_bounds cfg before
    rw [powerOn_dataBuf _ below, powerOn_dataBuf _ below]
    exact contents_append (writes.trans (List.append_nil _).symm)
      (fun cell compacted => Function.update_of_ne (by omega) _ _) below
  · intro image buf agree
    rw [powerOn_emptySlot] at agree ⊢
    exact replayLog_extend agree buf

/-- In a life along which the log is kept, every cut of a call that does not
compact is survived. -/
theorem append_survives_power_loss (cfg : Config) (events : List LifeEvent)
    (kept : Along (LifeEvent.exec cfg) (fun s event => event.keepsLog cfg s)
      (powerOn cfg erasedCells) events) (call : Call)
    (appends : compacts cfg (run (LifeEvent.exec cfg) (powerOn cfg erasedCells) events) call =
      false) (cut : Nat) :
    SurvivesCut cfg (run (LifeEvent.exec cfg) (powerOn cfg erasedCells) events) call cut :=
  survivesCut (life_coherent cfg kept) appends cut

/-- Two bytes and two log cells. -/
def twoEntryConfig : Config :=
  { tinyConfig with
    writeLogBytes := 4
    logEven := (by decide : (2 + 2) % 2 = 0)
    fits := by decide }

theorem append_survives_power_loss_two_entries :
    SurvivesCut twoEntryConfig (run (LifeEvent.exec twoEntryConfig)
      (powerOn twoEntryConfig erasedCells)
      [.completed (.writeDataWord 0 0x0101), .powerLoss (.writeDataByte 0 2) 0])
      (.writeDataByte 1 3) 1 :=
  have torn : (((callOps twoEntryConfig (run (LifeEvent.exec twoEntryConfig)
      (powerOn twoEntryConfig erasedCells) [.completed (.writeDataWord 0 0x0101)])
      (.writeDataByte 0 2)).take 0).getLast?.any (FlashOp.tearsClear twoEntryConfig)) = false := by
    decide
  have unsplit : splitsZeroWord twoEntryConfig (powerOn twoEntryConfig erasedCells)
      (.writeDataWord 0 0x0101) = false := by decide
  append_survives_power_loss twoEntryConfig
    [.completed (.writeDataWord 0 0x0101), .powerLoss (.writeDataByte 0 2) 0]
    ⟨unsplit, ⟨rfl, fun tears => absurd (torn.symm.trans tears) (by decide)⟩, trivial⟩
    (.writeDataByte 1 3) (by decide) 1

/-- The fourth write splits a zero word, so that the fifth leaves a stale byte
in the log over the word it programs. The restart after the sixth reads it,
although the sixth writes elsewhere. -/
theorem stale_byte_after_power_loss :
    let s := run (LifeEvent.exec twoEntryConfig) (powerOn twoEntryConfig erasedCells)
      [.completed (.writeDataWord 0 0x0101), .completed (.writeDataByte 0 2),
        .completed (.writeDataByte 0 3), .completed (.writeDataWord 0 0),
        .completed (.writeDataWord 0 0x0505)]
    compacts twoEntryConfig s (.writeDataByte 0 7) = false ∧
      ¬SurvivesCut twoEntryConfig s (.writeDataByte 0 7) 1 := by
  intro s
  refine ⟨by decide, fun survives => ?_⟩
  have kept := survives.unwritten 1 (by decide) (by decide)
  have cached : s.dataBuf 1 = 5 := by decide
  have stale : (powerOn twoEntryConfig
      (callImage twoEntryConfig s (.writeDataByte 0 7) 1)).dataBuf 1 = 0 := by decide
  rw [cached, stale] at kept
  exact absurd kept (by decide)

end PowerLoss

end QmkSonix.Eeprom
