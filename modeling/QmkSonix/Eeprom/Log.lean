import QmkSonix.Eeprom.Model
import QmkSonix.Lib.Overlay

/-! The write log as data: the byte writes that the cells of the log stand for,
where a replay of them stops, and the contents they leave over the compacted
area. -/

namespace QmkSonix.Eeprom

open QmkSonix.Lib

/-- The two byte writes of a little-endian word store. -/
def wordWrites (address : Nat) (value : HalfWord) : List (Nat × Byte) :=
  [(address, value.setWidth 8), (address + 1, (value >>> 8).setWidth 8)]

def boundedWordWrites (cfg : Config) (address : Nat) (value : HalfWord) : List (Nat × Byte) :=
  if address < cfg.densityBytes then wordWrites address value else []

/-- Whether the entry that starts with `header` keeps its value in the next cell. -/
def entryWide (header : HalfWord) : Bool :=
  header &&& feeWordEncoding ≠ 0 ∧ header &&& feeValueNext = feeValueNext

/-- The byte writes of the entry that starts with `header`. -/
def entryWrites (cfg : Config) (header next : HalfWord) : List (Nat × Byte) :=
  if header &&& feeWordEncoding = 0 then [((header >>> 8).toNat, header.setWidth 8)]
  else if header &&& feeValueNext = feeValueNext then
    if ~~~next = 0 then []
    else boundedWordWrites cfg (((header &&& 0x1FFF) <<< 1) + feeByteRange).toNat (~~~next)
  else if header &&& feeValueReserved ≠ 0 then []
  else boundedWordWrites cfg ((header &&& 0x1FFF) <<< 1).toNat ((header &&& feeValueEncoded) >>> 13)

/-- The byte writes of the log from `logAddr` on, and the cell at which a
replay stops. -/
def scanLog (cfg : Config) (cells : Cells) : Nat → Nat → List (Nat × Byte) × Nat
  | 0, logAddr => ([], logAddr)
  | remaining + 1, logAddr =>
    if cells logAddr = feeEmptyWord then ([], logAddr)
    else
      let writes := entryWrites cfg (cells logAddr) (cells (logAddr + 1))
      if entryWide (cells logAddr) then
        match remaining with
        | 0 => ([], logAddr + 1)
        | remaining + 1 =>
          let rest := scanLog cfg cells remaining (logAddr + 2)
          (writes ++ rest.1, rest.2)
      else
        let rest := scanLog cfg cells remaining (logAddr + 1)
        (writes ++ rest.1, rest.2)

section Scan

variable {cfg : Config} {cells other : Cells}

theorem scanLog_blank (blank : cells logAddr = feeEmptyWord) (remaining : Nat) :
    scanLog cfg cells remaining logAddr = ([], logAddr) := by
  cases remaining <;> simp [scanLog, blank]

theorem scanLog_single (used : cells logAddr ≠ feeEmptyWord)
    (single : entryWide (cells logAddr) = false)
    (remaining : Nat) :
    scanLog cfg cells (remaining + 1) logAddr =
      (entryWrites cfg (cells logAddr) (cells (logAddr + 1)) ++
        (scanLog cfg cells remaining (logAddr + 1)).1,
        (scanLog cfg cells remaining (logAddr + 1)).2) := by
  rw [scanLog.eq_def]
  simp [used, single]

theorem scanLog_wide (used : cells logAddr ≠ feeEmptyWord)
    (wide : entryWide (cells logAddr) = true) (remaining : Nat) :
    scanLog cfg cells (remaining + 2) logAddr =
      (entryWrites cfg (cells logAddr) (cells (logAddr + 1)) ++
        (scanLog cfg cells remaining (logAddr + 2)).1,
        (scanLog cfg cells remaining (logAddr + 2)).2) := by
  rw [scanLog.eq_def]
  simp [used, wide]

/-- A word-next header in the last cell has no room for its value. -/
theorem scanLog_cut (used : cells logAddr ≠ feeEmptyWord)
    (wide : entryWide (cells logAddr) = true) :
    scanLog cfg cells 1 logAddr = ([], logAddr + 1) := by
  rw [scanLog.eq_def]
  simp [used, wide]

/-- Case analysis on the first entry that a scan meets. -/
theorem scanLog_induction (cells : Cells) {motive : Nat → Nat → Prop}
    (done : ∀ logAddr, motive 0 logAddr)
    (blank : ∀ remaining logAddr, cells logAddr = feeEmptyWord → motive remaining logAddr)
    (single : ∀ remaining logAddr, cells logAddr ≠ feeEmptyWord →
      entryWide (cells logAddr) = false →
      motive remaining (logAddr + 1) → motive (remaining + 1) logAddr)
    (cut : ∀ logAddr, cells logAddr ≠ feeEmptyWord →
      entryWide (cells logAddr) = true → motive 1 logAddr)
    (wide : ∀ remaining logAddr, cells logAddr ≠ feeEmptyWord →
      entryWide (cells logAddr) = true →
      motive remaining (logAddr + 2) → motive (remaining + 2) logAddr)
    (remaining logAddr : Nat) : motive remaining logAddr := by
  induction remaining using Nat.strongRecOn generalizing logAddr with
  | _ remaining ih =>
    by_cases empty : cells logAddr = feeEmptyWord
    · exact blank remaining logAddr empty
    · rcases remaining with _ | _ | remaining
      · exact done logAddr
      · cases size : entryWide (cells logAddr) with
        | false => exact single _ _ empty size (ih _ (by omega) _)
        | true => exact cut _ empty size
      · cases size : entryWide (cells logAddr) with
        | false => exact single _ _ empty size (ih _ (by omega) _)
        | true => exact wide _ _ empty size (ih _ (by omega) _)

theorem scanLog_bounds (cfg : Config) (cells : Cells) (remaining logAddr : Nat) :
    logAddr ≤ (scanLog cfg cells remaining logAddr).2 ∧
      (scanLog cfg cells remaining logAddr).2 ≤ logAddr + remaining := by
  induction remaining, logAddr using scanLog_induction cells with
  | done logAddr => simp [scanLog]
  | blank remaining logAddr empty => simp [scanLog_blank empty]
  | single remaining logAddr used size ih => rw [scanLog_single used size]; omega
  | cut logAddr used size => simp [scanLog_cut used size]
  | wide remaining logAddr used size ih => rw [scanLog_wide used size]; omega

/-- A replay that stops before the end of the log stopped at an erased cell. -/
theorem scanLog_stop (cfg : Config) (cells : Cells) (remaining logAddr : Nat)
    (early : (scanLog cfg cells remaining logAddr).2 < logAddr + remaining) :
    cells (scanLog cfg cells remaining logAddr).2 = feeEmptyWord := by
  induction remaining, logAddr using scanLog_induction cells with
  | done logAddr => simp [scanLog] at early
  | blank remaining logAddr empty => simpa [scanLog_blank empty] using empty
  | single remaining logAddr used size ih =>
    rw [scanLog_single used size] at early ⊢
    exact ih (by omega)
  | cut logAddr used size => simp [scanLog_cut used size] at early
  | wide remaining logAddr used size ih =>
    rw [scanLog_wide used size] at early ⊢
    exact ih (by omega)

theorem not_next_of_single (single : entryWide header = false)
    (word : header &&& feeWordEncoding ≠ 0) : header &&& feeValueNext ≠ feeValueNext := by
  intro next
  have wide : entryWide header = true := by simpa [entryWide, next] using word
  simp [wide] at single

/-- The cell after a one-cell entry does not matter to it. -/
theorem entryWrites_single (single : entryWide header = false) (next later : HalfWord) :
    entryWrites cfg header later = entryWrites cfg header next := by
  unfold entryWrites
  by_cases word : header &&& feeWordEncoding = 0
  · simp [word]
  · simp [not_next_of_single single word]

/-- When the cells before the end of the log stay as they are, a scan finds the
old writes and goes on from the old end. -/
theorem scanLog_extend (cfg : Config) (cells : Cells) (remaining logAddr : Nat)
    (agree : ∀ cell, logAddr ≤ cell → cell < (scanLog cfg cells remaining logAddr).2 →
      other cell = cells cell) :
    scanLog cfg other remaining logAddr =
      ((scanLog cfg cells remaining logAddr).1 ++
        (scanLog cfg other (logAddr + remaining - (scanLog cfg cells remaining logAddr).2)
          (scanLog cfg cells remaining logAddr).2).1,
        (scanLog cfg other (logAddr + remaining - (scanLog cfg cells remaining logAddr).2)
          (scanLog cfg cells remaining logAddr).2).2) := by
  induction remaining, logAddr using scanLog_induction cells with
  | done logAddr => simp [scanLog]
  | blank remaining logAddr empty => simp [scanLog_blank empty]
  | single remaining logAddr used size ih =>
    rw [scanLog_single used size] at agree ⊢
    have bounds := scanLog_bounds cfg cells remaining (logAddr + 1)
    have header : other logAddr = cells logAddr := agree logAddr (by omega) (by omega)
    rw [scanLog_single (by rw [header]; exact used) (by rw [header]; exact size),
      ih (fun cell above => agree cell (by omega)), header,
      entryWrites_single size (cells (logAddr + 1)) (other (logAddr + 1))]
    simp [Nat.add_right_comm, Nat.add_assoc]
  | cut logAddr used size =>
    rw [scanLog_cut used size] at agree ⊢
    have header : other logAddr = cells logAddr := agree logAddr (by omega) (by omega)
    rw [scanLog_cut (by rw [header]; exact used) (by rw [header]; exact size)]
    simp [scanLog]
  | wide remaining logAddr used size ih =>
    rw [scanLog_wide used size] at agree ⊢
    have bounds := scanLog_bounds cfg cells remaining (logAddr + 2)
    have header : other logAddr = cells logAddr := agree logAddr (by omega) (by omega)
    have value : other (logAddr + 1) = cells (logAddr + 1) :=
      agree (logAddr + 1) (by omega) (by omega)
    rw [scanLog_wide (by rw [header]; exact used) (by rw [header]; exact size),
      ih (fun cell above => agree cell (by omega)), header, value]
    simp [Nat.add_right_comm, Nat.add_assoc]

theorem bounded_setWord_eq_overlay (cfg : Config) (buf : DataBuf) (address : Nat)
    (value : HalfWord) :
    (if address < cfg.densityBytes then buf.setWord address value else buf) =
      overlay (boundedWordWrites cfg address value) buf := by
  unfold boundedWordWrites
  split <;> rfl

/-- The replay loop makes the writes that the scan finds and stops where it stops. -/
theorem replayLog_eq_scan (remaining logAddr : Nat) (buf : DataBuf) :
    replayLog cfg cells remaining logAddr buf =
      (overlay (scanLog cfg cells remaining logAddr).1 buf,
        (scanLog cfg cells remaining logAddr).2) := by
  induction remaining, logAddr using scanLog_induction cells generalizing buf with
  | done logAddr => rfl
  | blank remaining logAddr empty =>
    rw [scanLog_blank empty, replayLog.eq_def]
    cases remaining <;> simp [empty]
  | single remaining logAddr used size ih =>
    have step : replayLog cfg cells (remaining + 1) logAddr buf =
        replayLog cfg cells remaining (logAddr + 1)
          (overlay (entryWrites cfg (cells logAddr) (cells (logAddr + 1))) buf) := by
      rw [replayLog.eq_def]
      by_cases word : cells logAddr &&& feeWordEncoding = 0
      · simp [used, word, entryWrites]
      · have notNext := not_next_of_single size word
        by_cases reserved : cells logAddr &&& feeValueReserved = 0
        · simp only [used, word, notNext, reserved, ↓reduceIte, ne_eq, not_true_eq_false,
            entryWrites, bounded_setWord_eq_overlay]
        · simp only [used, word, notNext, reserved, ↓reduceIte, ne_eq, not_false_eq_true,
            entryWrites, overlay_nil]
    rw [step, ih, scanLog_single used size, overlay_append]
  | cut logAddr used size =>
    obtain ⟨word, next⟩ : cells logAddr &&& feeWordEncoding ≠ 0 ∧
        cells logAddr &&& feeValueNext = feeValueNext := by simpa [entryWide] using size
    rw [scanLog_cut used size, replayLog.eq_def]
    simp only [used, word, next, ↓reduceIte, overlay_nil]
  | wide remaining logAddr used size ih =>
    obtain ⟨word, next⟩ : cells logAddr &&& feeWordEncoding ≠ 0 ∧
        cells logAddr &&& feeValueNext = feeValueNext := by simpa [entryWide] using size
    have step : replayLog cfg cells (remaining + 2) logAddr buf =
        replayLog cfg cells remaining (logAddr + 2)
          (overlay (entryWrites cfg (cells logAddr) (cells (logAddr + 1))) buf) := by
      rw [replayLog.eq_def]
      by_cases incomplete : ~~~cells (logAddr + 1) = 0
      · simp only [used, word, next, incomplete, ↓reduceIte, entryWrites, overlay_nil]
      · simp only [used, word, next, incomplete, ↓reduceIte, entryWrites,
          bounded_setWord_eq_overlay]
    rw [step, ih, scanLog_wide used size, overlay_append]

end Scan

/-- The byte writes that a replay of the whole log makes. -/
def logWrites (cfg : Config) (cells : Cells) : List (Nat × Byte) :=
  (scanLog cfg cells (cfg.logLast - cfg.logBase) cfg.logBase).1

/-- Where a replay of the whole log leaves `empty_slot`. -/
def logEnd (cfg : Config) (cells : Cells) : Nat :=
  (scanLog cfg cells (cfg.logLast - cfg.logBase) cfg.logBase).2

/-- The byte that the compacted area holds for an address. -/
def compactedByte (cells : Cells) (address : Nat) : Byte :=
  if address % 2 = 0 then (~~~cells (address / 2)).setWidth 8
  else (~~~cells (address / 2) >>> 8).setWidth 8

/-- The EEPROM contents that the flash stands for. -/
def contents (cfg : Config) (cells : Cells) : DataBuf :=
  overlay (logWrites cfg cells) (compactedByte cells)

section Contents

variable {cfg : Config} {cells other : Cells}

theorem logBase_le_logLast (cfg : Config) : cfg.logBase ≤ cfg.logLast := by
  unfold Config.logBase Config.logLast
  omega

theorem logEnd_bounds (cfg : Config) (cells : Cells) :
    cfg.logBase ≤ logEnd cfg cells ∧ logEnd cfg cells ≤ cfg.logLast := by
  have order := logBase_le_logLast cfg
  have bounds := scanLog_bounds cfg cells (cfg.logLast - cfg.logBase) cfg.logBase
  unfold logEnd
  omega

/-- What `EEPROM_Init` loads before it replays the log. -/
theorem loadCompacted_apply (buf : DataBuf) (below : address < cfg.densityBytes) :
    loadCompacted cfg cells buf address = compactedByte cells address := by
  have prefixes (count : Nat) : ∀ address < 2 * count,
      (List.range count).foldl (fun buf cell => DataBuf.setWord buf (2 * cell) (~~~cells cell)) buf
        address = compactedByte cells address := by
    induction count with
    | zero => intro address none; omega
    | succ count ih =>
      intro address bound
      rw [List.range_succ, List.foldl_append, List.foldl_cons, List.foldl_nil]
      rcases (by omega : address < 2 * count ∨ address = 2 * count ∨ address = 2 * count + 1)
        with earlier | low | high
      · rw [← ih address earlier]
        simp only [DataBuf.setWord]
        rw [Function.update_of_ne (by omega), Function.update_of_ne (by omega)]
      · subst low
        simp [DataBuf.setWord, compactedByte]
      · subst high
        have half : (2 * count + 1) / 2 = count := by omega
        have odd : (2 * count + 1) % 2 = 1 := by omega
        simp [DataBuf.setWord, compactedByte, half, odd]
  have even := cfg.densityEven
  exact prefixes cfg.logBase address (by unfold Config.logBase; omega)

theorem eepromInit_dataBuf (s : Emulation) (below : address < cfg.densityBytes) :
    (eepromInit cfg s).1.dataBuf address = contents cfg s.flash.cells address := by
  simp only [eepromInit, replayLog_eq_scan]
  exact overlay_congr (loadCompacted_apply s.dataBuf below) _

theorem eepromInit_emptySlot (s : Emulation) :
    (eepromInit cfg s).1.emptySlot = logEnd cfg s.flash.cells := by
  simp only [eepromInit, replayLog_eq_scan, logEnd]

@[simp] theorem eepromInit_flash (s : Emulation) : (eepromInit cfg s).1.flash = s.flash := rfl

end Contents

end QmkSonix.Eeprom
