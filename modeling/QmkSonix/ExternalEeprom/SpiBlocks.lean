import QmkSonix.ExternalEeprom.Spi

/-! Blocks are written and read completely exactly when every poll meets its deadline and
no transfer is longer than its 16-bit length. -/

namespace QmkSonix.ExternalEeprom.Spi

open QmkSonix.Lib

variable {cfg : Config} {bus : Bus}

/-- Each round of a poll, up to the first that finds the chip ready, reads the timer before
the deadline. -/
def Poll.Answered (cfg : Config) (poll : Poll) : Prop :=
  ∀ i, (∀ j < i, poll.status j < poll.ready) → poll.before cfg i = true

/-- The pages that a block touches. -/
def pageCount (page addr len : ℕ) : ℕ :=
  if len = 0 then 0 else (addr + len - 1) / page - addr / page + 1

/-- The polls of a write are answered, and no page of the block holds 65536 bytes of it. -/
structure WriteTimely (cfg : Config) (bus : Bus) (polled addr len : ℕ) : Prop where
  answered : ∀ k < pageCount cfg.pageSize addr len, (bus.poll (polled + k)).Answered cfg
  short : ∀ start, addr ≤ start → start + 2 ^ 16 ≤ addr + len →
    start / cfg.pageSize ≠ (start + 2 ^ 16 - 1) / cfg.pageSize

/-- The poll of a read is answered, and the block has a 16-bit length. -/
def ReadTimely (cfg : Config) (bus : Bus) (polled len : ℕ) : Prop :=
  len ≠ 0 → (bus.poll polled).Answered cfg ∧ len < 2 ^ 16

/-- The write ends, whatever the chip and the buffers hold, and leaves the buffer in the
block and all other bytes of the chip alone. -/
def Writes (cfg : Config) (bus : Bus) (w : World) (addr len : ℕ) : Prop :=
  ∀ memory buffer buf : Memory, ∃ enough, ∃ ended : World,
    (∀ rounds ≥ enough,
      eepromWriteBlock cfg bus buffer rounds { w with chip := { w.chip with memory } }
        buf addr len = some ended) ∧
      ∀ address < cfg.byteCount, ended.chip.memory address = splice memory addr len buf address

/-- The read ends and returns the bytes of the block. -/
def Reads (cfg : Config) (bus : Bus) (w : World) (addr len : ℕ) : Prop :=
  ∀ memory buffer buf : Memory, ∃ enough, ∃ (ended : World) (result : Memory),
    (∀ rounds ≥ enough,
      eepromReadBlock cfg bus buffer rounds { w with chip := { w.chip with memory } }
        buf addr len = some (ended, result)) ∧
      ∀ i < len, result i = memory (addr + i)

section Polls

variable {poll : Poll}

theorem waitRounds_success {idle : ℕ} (ready : poll.ready ≤ poll.status idle)
    (busy : ∀ j < idle, poll.status j < poll.ready) {i : ℕ} (behind : i ≤ idle)
    (before : ∀ j ≤ idle, i ≤ j → poll.before cfg j = true) {rounds : ℕ}
    (enough : idle < i + rounds) : waitRounds cfg poll rounds i = some .success := by
  induction rounds generalizing i with
  | zero => omega
  | succ rounds ih =>
    have now : (!poll.before cfg i) = false := by rw [before i behind le_rfl]; rfl
    rw [waitRounds, now, if_neg Bool.false_ne_true]
    by_cases last : i = idle
    · rw [last, if_neg (Nat.not_lt.mpr ready)]
    · rw [if_pos (busy i (by omega))]
      exact ih (by omega) (fun j below above => before j below (by omega)) (by omega)

theorem waitRounds_timeout {late : ℕ} (busy : ∀ j < late, poll.status j < poll.ready)
    (after : poll.before cfg late = false) {i : ℕ} (behind : i ≤ late) {rounds : ℕ}
    (enough : late < i + rounds) : waitRounds cfg poll rounds i = some .timeout := by
  induction rounds generalizing i with
  | zero => omega
  | succ rounds ih =>
    rw [waitRounds]
    by_cases missed : poll.before cfg i = false
    · rw [missed]
      rfl
    · have later : i ≠ late := by
        rintro rfl
        exact missed after
      have met : poll.before cfg i = true := by simpa using missed
      rw [met, if_neg (by decide), if_pos (busy i (by omega))]
      exact ih (by omega) (by omega)

/-- A poll succeeds exactly when it is answered. -/
theorem waitWhileBusy_answered (answered : poll.Answered cfg) :
    ∃ enough, ∀ rounds ≥ enough, waitWhileBusy cfg poll rounds = some .success := by
  classical
  have someReady : ∃ i, poll.ready ≤ poll.status i := poll.passes poll.ready
  have busy : ∀ j < Nat.find someReady, poll.status j < poll.ready := fun j below =>
    Nat.lt_of_not_le (Nat.find_min someReady below)
  refine ⟨Nat.find someReady + 1, fun rounds enough => ?_⟩
  apply waitRounds_success (Nat.find_spec someReady) busy (Nat.zero_le _) ?_ (by omega)
  intro j below _
  exact answered j fun k earlier => busy k (by omega)

theorem waitWhileBusy_missed (missed : ¬ poll.Answered cfg) :
    ∃ enough, ∀ rounds ≥ enough, waitWhileBusy cfg poll rounds = some .timeout := by
  unfold Poll.Answered at missed
  push Not at missed
  obtain ⟨late, busy, after⟩ := missed
  exact ⟨late + 1, fun rounds enough =>
    waitRounds_timeout busy (Bool.not_eq_true _ |>.mp after) (Nat.zero_le _) (by omega)⟩

end Polls

section Pieces

variable {polled targetAddr len : ℕ}

/-- A block goes on with its next page, or ends in this one. -/
theorem pageRoom_cases (page targetAddr len : ℕ) :
    pageRoom page targetAddr len = len ∨
      pageRoom page targetAddr len = page - targetAddr % page ∧
        pageRoom page targetAddr len < len := by
  unfold pageRoom
  omega

theorem div_of_fits {page start i : ℕ} (positive : 0 < page) (fits : start % page + i < page) :
    (start + i) / page = start / page := by
  have split := Nat.div_add_mod start page
  have sum : start + i = page * (start / page) + (start % page + i) := by omega
  rw [sum, Nat.mul_add_div positive, Nat.div_eq_of_lt fits, Nat.add_zero]

theorem div_next_page {page : ℕ} (positive : 0 < page) (start : ℕ) :
    (start + (page - start % page)) / page = start / page + 1 := by
  have split := Nat.div_add_mod start page
  have rest := Nat.mod_lt start positive
  have sum : start + (page - start % page) = page * (start / page + 1) := by
    rw [Nat.mul_add, Nat.mul_one]
    omega
  rw [sum, Nat.mul_div_cancel_left _ positive]

theorem pageCount_succ {page : ℕ} (positive : 0 < page) (some : len ≠ 0) :
    pageCount page targetAddr len =
      pageCount page (targetAddr + pageRoom page targetAddr len)
        (len - pageRoom page targetAddr len) + 1 := by
  have fits := pageRoom_fits positive targetAddr len
  have rest := Nat.mod_lt targetAddr positive
  rcases pageRoom_cases page targetAddr len with ends | ⟨room, more⟩
  · have single : (targetAddr + (len - 1)) / page = targetAddr / page :=
      div_of_fits positive (by omega)
    have last : targetAddr + len - 1 = targetAddr + (len - 1) := by omega
    rw [ends, Nat.sub_self, pageCount, if_neg some, pageCount, if_pos rfl, last, single,
      Nat.sub_self]
  · have next := div_next_page positive targetAddr
    have last : targetAddr + (page - targetAddr % page) + (len - (page - targetAddr % page)) - 1 =
        targetAddr + len - 1 := by omega
    have grows : targetAddr / page + 1 ≤ (targetAddr + len - 1) / page := by
      rw [← next]
      exact Nat.div_le_div_right (by omega)
    rw [room, pageCount, if_neg some, pageCount, if_neg (by omega), next, last]
    omega

/-- What a write needs, page by page. -/
theorem writeTimely_succ (some : len ≠ 0) :
    WriteTimely cfg bus polled targetAddr len ↔
      (bus.poll polled).Answered cfg ∧ pageRoom cfg.pageSize targetAddr len < 2 ^ 16 ∧
        WriteTimely cfg bus (polled + 1) (targetAddr + pageRoom cfg.pageSize targetAddr len)
          (len - pageRoom cfg.pageSize targetAddr len) := by
  have positive := cfg.pageSize_pos
  have count : pageCount cfg.pageSize targetAddr len = _ := pageCount_succ positive some
  have below := pageRoom_le cfg.pageSize targetAddr len
  have fits := pageRoom_fits positive targetAddr len
  constructor
  · rintro ⟨answered, short⟩
    refine ⟨answered 0 (by omega), ?_, fun k within => ?_, fun start above inside => ?_⟩
    · by_contra long
      apply short targetAddr le_rfl (by omega)
      rw [Nat.add_sub_assoc (by decide)]
      exact (div_of_fits positive (by omega)).symm
    · have next := answered (k + 1) (by omega)
      rwa [Nat.add_comm k 1, ← Nat.add_assoc] at next
    · exact short start (by omega) (by omega)
  · rintro ⟨first, room, answered, short⟩
    refine ⟨fun k within => ?_, fun start above inside => ?_⟩
    · cases k with
      | zero => exact first
      | succ k =>
        have next := answered k (by omega)
        rwa [Nat.add_assoc, Nat.add_comm 1 k] at next
    · by_cases here : targetAddr + pageRoom cfg.pageSize targetAddr len ≤ start
      · exact short start here (by omega)
      · intro same
        rcases pageRoom_cases cfg.pageSize targetAddr len with ends | ⟨whole, more⟩
        · omega
        · have next := div_next_page positive targetAddr
          have crossed : targetAddr / cfg.pageSize + 1 ≤
              (start + 2 ^ 16 - 1) / cfg.pageSize := by
            rw [← next]
            exact Nat.div_le_div_right (by omega)
          have offset : start / cfg.pageSize = targetAddr / cfg.pageSize := by
            obtain ⟨ahead, rfl⟩ := Nat.exists_eq_add_of_le above
            exact div_of_fits positive (by omega)
          omega

end Pieces

section Rounds

/-- A poll of a bus that starts. -/
theorem pollChip_eq (starts : ∀ k, bus.spiStart k = true) (w : World) (rounds : ℕ) :
    pollChip cfg bus w rounds =
      (waitWhileBusy cfg (bus.poll w.polled) rounds).map fun response =>
        ({ w with started := w.started + 1, polled := w.polled + 1 }, response) := by
  simp only [pollChip, World.spiStart, starts, Bool.not_true, Bool.false_eq_true, if_false]

theorem pollChip_answered (starts : ∀ k, bus.spiStart k = true) (w : World)
    (answered : (bus.poll w.polled).Answered cfg) :
    ∃ enough, ∀ rounds ≥ enough, pollChip cfg bus w rounds =
      some ({ w with started := w.started + 1, polled := w.polled + 1 }, .success) := by
  obtain ⟨enough, ends⟩ := waitWhileBusy_answered answered
  refine ⟨enough, fun rounds more => ?_⟩
  rw [pollChip_eq starts, ends rounds more, Option.map_some]

theorem pollChip_missed (starts : ∀ k, bus.spiStart k = true) (w : World)
    (missed : ¬ (bus.poll w.polled).Answered cfg) :
    ∃ enough, ∀ rounds ≥ enough, pollChip cfg bus w rounds =
      some ({ w with started := w.started + 1, polled := w.polled + 1 }, .timeout) := by
  obtain ⟨enough, ends⟩ := waitWhileBusy_missed missed
  refine ⟨enough, fun rounds more => ?_⟩
  rw [pollChip_eq starts, ends rounds more, Option.map_some]

theorem ofAddressBytes_transmit {addr : ℕ} (inside : addr < cfg.byteCount) (buffer : Memory) :
    ofAddressBytes (transmitAddress cfg addr buffer) = addr := by
  rw [transmitAddress, fillAddress_bytes, ofAddressBytes_addressBytes]
  exact Nat.mod_eq_of_lt (inside.trans_le cfg.addressed)

/-- The chip takes as much of a page as its transfer is long. -/
theorem writePiece_eq (starts : ∀ k, bus.spiStart k = true) (w : World)
    (buffer readBuf : Memory) {targetAddr writeLength : ℕ} (inside : targetAddr < cfg.byteCount)
    (fits : targetAddr % cfg.pageSize + writeLength ≤ cfg.pageSize) :
    ∃ written : World, writePiece cfg bus w buffer readBuf targetAddr writeLength =
        (written, true) ∧ written.polled = w.polled ∧
      written.chip.memory =
        splice w.chip.memory targetAddr (spiLength writeLength) readBuf := by
  have short : spiLength writeLength ≤ writeLength := Nat.mod_le _ _
  let address := transmitAddress cfg targetAddr buffer
  refine ⟨{ w with
    chip := w.chip.wren.write cfg address (spiLength writeLength) readBuf
    started := w.started + 2 }, ?_, rfl, ?_⟩
  · simp only [writePiece, World.spiStart, starts, Bool.not_true, Bool.false_eq_true, if_false]
    rfl
  · simp only [Chip.write, Chip.wren, if_true]
    rw [ofAddressBytes_transmit inside, writePage_fits (by omega)]

/-- What the loop leaves behind: all of the block where the write is timely, else not all
of it, and never a byte outside of the block. -/
structure Outcome (cfg : Config) (bus : Bus) (w : World) (readBuf : Memory)
    (targetAddr len : ℕ) (ended : World) : Prop where
  complete : WriteTimely cfg bus w.polled targetAddr len →
    ended.chip.memory = splice w.chip.memory targetAddr len readBuf
  incomplete : ¬ WriteTimely cfg bus w.polled targetAddr len →
    ∃ address, targetAddr ≤ address ∧ address < targetAddr + len ∧
      ended.chip.memory address = w.chip.memory address
  outside : ∀ address, ¬ (targetAddr ≤ address ∧ address < targetAddr + len) →
    ended.chip.memory address = w.chip.memory address

theorem Outcome.done (w : World) (readBuf : Memory) (targetAddr : ℕ) :
    Outcome cfg bus w readBuf targetAddr 0 w where
  complete _ := (splice_zero _ _ _).symm
  incomplete late := absurd
    { answered := fun k within => absurd within (Nat.not_lt_zero k)
      short := fun start above inside => absurd inside (by omega) } late
  outside _ _ := rfl

theorem Outcome.missed {w ended : World} {readBuf : Memory} {targetAddr len : ℕ}
    (some : len ≠ 0) (missed : ¬ (bus.poll w.polled).Answered cfg)
    (same : ended.chip = w.chip) : Outcome cfg bus w readBuf targetAddr len ended where
  complete timely := absurd ((writeTimely_succ some).mp timely).1 missed
  incomplete _ := ⟨targetAddr, le_rfl, by omega, by rw [same]⟩
  outside _ _ := by rw [same]

/-- A page is followed by the rest of the block. -/
theorem Outcome.next {w written ended : World} {readBuf : Memory} {targetAddr len : ℕ}
    (some : len ≠ 0) (answered : (bus.poll w.polled).Answered cfg)
    (polled : written.polled = w.polled + 1)
    (memory : written.chip.memory = splice w.chip.memory targetAddr
      (spiLength (pageRoom cfg.pageSize targetAddr len)) readBuf)
    (rest : Outcome cfg bus written
      (fun i => readBuf (i + pageRoom cfg.pageSize targetAddr len))
      (targetAddr + pageRoom cfg.pageSize targetAddr len)
      (len - pageRoom cfg.pageSize targetAddr len) ended) :
    Outcome cfg bus w readBuf targetAddr len ended := by
  have below := pageRoom_le cfg.pageSize targetAddr len
  have positive : 0 < pageRoom cfg.pageSize targetAddr len := pageRoom_pos cfg.pageSize_pos some
  have sent : spiLength (pageRoom cfg.pageSize targetAddr len) ≤
      pageRoom cfg.pageSize targetAddr len := Nat.mod_le _ _
  have kept : ∀ address, ¬ (targetAddr ≤ address ∧
      address < targetAddr + spiLength (pageRoom cfg.pageSize targetAddr len)) →
      written.chip.memory address = w.chip.memory address := by
    intro address outside
    rw [memory, splice, if_neg outside]
  obtain ⟨complete, incomplete, outside⟩ := rest
  rw [polled] at complete incomplete
  refine ⟨fun timely => ?_, fun late => ?_, fun address away => ?_⟩
  · obtain ⟨-, room, timelyRest⟩ := (writeTimely_succ some).mp timely
    have whole : spiLength (pageRoom cfg.pageSize targetAddr len) =
        pageRoom cfg.pageSize targetAddr len := Nat.mod_eq_of_lt room
    rw [complete timelyRest, memory, whole, splice_splice, Nat.add_sub_cancel' below]
  · by_cases room : pageRoom cfg.pageSize targetAddr len < 2 ^ 16
    · have lateRest := fun timelyRest =>
        late ((writeTimely_succ some).mpr ⟨answered, room, timelyRest⟩)
      obtain ⟨address, above, inside, same⟩ := incomplete lateRest
      exact ⟨address, by omega, by omega, by rw [same, kept address (by omega)]⟩
    · have cut : spiLength (pageRoom cfg.pageSize targetAddr len) < 2 ^ 16 :=
        Nat.mod_lt _ (by decide)
      refine ⟨targetAddr + pageRoom cfg.pageSize targetAddr len - 1, by omega, by omega, ?_⟩
      rw [outside _ (by omega), kept _ (by omega)]
  · rw [outside address (by omega), kept address (by omega)]

/-- The loop ends, with its outcome. -/
theorem writePages_ends (starts : ∀ k, bus.spiStart k = true) (buffer : Memory) (w : World)
    (readBuf : Memory) (targetAddr len : ℕ) (inside : targetAddr + len ≤ cfg.byteCount) :
    ∃ enough ended complete,
      (∀ rounds ≥ enough, writePages cfg bus buffer rounds w readBuf targetAddr len =
        some (ended, complete)) ∧ Outcome cfg bus w readBuf targetAddr len ended := by
  induction len using Nat.strong_induction_on generalizing w readBuf targetAddr with
  | h len ih =>
    by_cases done : len = 0
    · subst done
      refine ⟨1, w, true, fun rounds enough => ?_, Outcome.done w readBuf targetAddr⟩
      obtain ⟨fewer, rfl⟩ := Nat.exists_eq_add_of_le' enough
      rw [writePages, if_pos rfl]
    · by_cases answered : (bus.poll w.polled).Answered cfg
      · obtain ⟨polls, succeeds⟩ := pollChip_answered starts w answered
        have fits := pageRoom_fits cfg.pageSize_pos targetAddr len
        have positive : 0 < pageRoom cfg.pageSize targetAddr len :=
          pageRoom_pos cfg.pageSize_pos done
        have below := pageRoom_le cfg.pageSize targetAddr len
        obtain ⟨written, piece, polled, memory⟩ := writePiece_eq starts
          { w with started := w.started + 1, polled := w.polled + 1 } buffer readBuf
          (by omega : targetAddr < cfg.byteCount) fits
        obtain ⟨enough, ended, complete, ends, rest⟩ := ih
          (len - pageRoom cfg.pageSize targetAddr len) (by omega) written
          (fun i => readBuf (i + pageRoom cfg.pageSize targetAddr len))
          (targetAddr + pageRoom cfg.pageSize targetAddr len) (by omega)
        refine ⟨max polls enough + 1, ended, complete, fun rounds more => ?_,
          Outcome.next done answered polled memory rest⟩
        obtain ⟨fewer, rfl⟩ := Nat.exists_eq_add_of_le' (le_of_add_le_right more)
        rw [writePages, if_neg done]
        dsimp only
        rw [succeeds fewer (by omega)]
        dsimp only
        unfold pageRoom at piece ends
        rw [piece]
        exact ends fewer (by omega)
      · obtain ⟨enough, gives⟩ := pollChip_missed starts w answered
        refine ⟨enough + 1, { w with started := w.started + 1, polled := w.polled + 1 }, false,
          fun rounds more => ?_, Outcome.missed done answered rfl⟩
        obtain ⟨fewer, rfl⟩ := Nat.exists_eq_add_of_le' (le_of_add_le_right more)
        rw [writePages, if_neg done]
        dsimp only
        rw [gives fewer (by omega)]

end Rounds

section Blocks

variable {w : World} {addr len : ℕ}

/-- A block is written with the outcome of its loop. -/
theorem eepromWriteBlock_ends (starts : ∀ k, bus.spiStart k = true) (buffer : Memory) (w : World)
    (buf : Memory) (addr len : ℕ) (inside : addr + len ≤ cfg.byteCount) :
    ∃ enough ended,
      (∀ rounds ≥ enough, eepromWriteBlock cfg bus buffer rounds w buf addr len = some ended) ∧
        Outcome cfg bus w buf addr len ended := by
  obtain ⟨enough, ended, complete, ends, outcome⟩ :=
    writePages_ends starts buffer w buf addr len inside
  cases complete with
  | false =>
    refine ⟨enough, ended, fun rounds more => ?_, outcome⟩
    rw [eepromWriteBlock, ends rounds more]
  | true =>
    refine ⟨enough, { ended with chip := ended.chip.wrdi, started := ended.started + 1 },
      fun rounds more => ?_, outcome.complete, outcome.incomplete, outcome.outside⟩
    rw [eepromWriteBlock, ends rounds more]
    simp only [World.spiStart, starts, Bool.not_true, Bool.false_eq_true, if_false]

/-- A write is complete, over all contents, exactly when it is timely. -/
theorem writes_iff (starts : ∀ k, bus.spiStart k = true) (inside : addr + len ≤ cfg.byteCount) :
    Writes cfg bus w addr len ↔ WriteTimely cfg bus w.polled addr len := by
  constructor
  · intro writes
    obtain ⟨bound, found, gives, holds⟩ := writes (fun _ => 0) (fun _ => 0) (fun _ => 1)
    obtain ⟨enough, ended, ends, outcome⟩ := eepromWriteBlock_ends starts (fun _ => 0)
      { w with chip := { w.chip with memory := fun _ => 0 } } (fun _ => 1) addr len inside
    have same : found = ended := Option.some.inj
      ((gives (max bound enough) (le_max_left _ _)).symm.trans
        (ends (max bound enough) (le_max_right _ _)))
    by_contra late
    obtain ⟨address, above, below, kept⟩ := outcome.incomplete late
    have untouched : found.chip.memory address = 0 := by
      rw [same]
      exact kept
    have written := holds address (by omega)
    rw [untouched, splice, if_pos ⟨above, below⟩] at written
    exact absurd written (by decide)
  · intro timely memory buffer buf
    obtain ⟨enough, ended, ends, outcome⟩ := eepromWriteBlock_ends starts buffer
      { w with chip := { w.chip with memory } } buf addr len inside
    exact ⟨enough, ended, ends, fun address _ => congrFun (outcome.complete timely) address⟩

/-- What a read leaves in the buffer. -/
theorem eepromReadBlock_ends (starts : ∀ k, bus.spiStart k = true) (buffer : Memory) (w : World)
    (buf : Memory) (addr len : ℕ) :
    ∃ enough ended result,
      (∀ rounds ≥ enough,
        eepromReadBlock cfg bus buffer rounds w buf addr len = some (ended, result)) ∧
      ((bus.poll w.polled).Answered cfg →
        result = splice buf 0 (spiLength len) (w.chip.read (transmitAddress cfg addr buffer))) ∧
      (¬ (bus.poll w.polled).Answered cfg → result = splice buf 0 len fun _ => 0) := by
  by_cases answered : (bus.poll w.polled).Answered cfg
  · obtain ⟨enough, succeeds⟩ := pollChip_answered starts w answered
    refine ⟨enough, { w with started := w.started + 2, polled := w.polled + 1 },
      splice buf 0 (spiLength len) (w.chip.read (transmitAddress cfg addr buffer)),
      fun rounds more => ?_, fun _ => rfl, fun missed => absurd answered missed⟩
    rw [eepromReadBlock, succeeds rounds more]
    simp only [World.spiStart, starts, Bool.not_true, Bool.false_eq_true, if_false]
  · obtain ⟨enough, gives⟩ := pollChip_missed starts w answered
    refine ⟨enough, { w with started := w.started + 1, polled := w.polled + 1 },
      splice buf 0 len fun _ => 0, fun rounds more => ?_, fun met => absurd met answered,
      fun _ => rfl⟩
    rw [eepromReadBlock, gives rounds more]

theorem splice_head {buf values : Memory} {len i : ℕ} (inside : i < len) :
    splice buf 0 len values i = values i := by
  rw [splice, if_pos (by omega), Nat.sub_zero]

/-- A read returns the stored bytes, over all contents, exactly when it is timely. -/
theorem reads_iff (starts : ∀ k, bus.spiStart k = true) (inside : addr + len ≤ cfg.byteCount) :
    Reads cfg bus w addr len ↔ ReadTimely cfg bus w.polled len := by
  constructor
  · intro reads some
    obtain ⟨bound, other, found, gives, holds⟩ := reads (fun _ => 1) (fun _ => 0) (fun _ => 0)
    obtain ⟨enough, ended, result, ends, answers, misses⟩ := eepromReadBlock_ends starts
      (fun _ => 0) { w with chip := { w.chip with memory := fun _ => 1 } } (fun _ => 0) addr len
    have same : found = result := congrArg Prod.snd (Option.some.inj
      ((gives (max bound enough) (le_max_left _ _)).symm.trans
        (ends (max bound enough) (le_max_right _ _))))
    by_cases answered : (bus.poll w.polled).Answered cfg
    · refine ⟨answered, ?_⟩
      by_contra long
      have cut : spiLength len < 2 ^ 16 := Nat.mod_lt _ (by decide)
      have last := holds (len - 1) (by omega)
      rw [same, answers answered, splice, if_neg (by omega)] at last
      exact absurd last (by decide)
    · have first := holds 0 (by omega)
      rw [same, misses answered, splice_head (by omega)] at first
      exact absurd first (by decide)
  · intro timely memory buffer buf
    obtain ⟨enough, ended, result, ends, answers, -⟩ := eepromReadBlock_ends starts buffer
      { w with chip := { w.chip with memory } } buf addr len
    refine ⟨enough, ended, result, ends, fun i within => ?_⟩
    obtain ⟨answered, short⟩ := timely (by omega)
    have whole : spiLength len = len := Nat.mod_eq_of_lt short
    rw [answers answered, whole, splice_head within, Chip.read,
      ofAddressBytes_transmit (by omega)]

end Blocks

/-- On a bus that starts, a block is written and read completely, over all contents, exactly
when every poll meets its deadline and no transfer is too long. -/
theorem blocks_complete_iff (cfg : Config) (bus : Bus) (starts : ∀ k, bus.spiStart k = true)
    (w : World) (addr len : ℕ) (inside : addr + len ≤ cfg.byteCount) :
    (Writes cfg bus w addr len ↔ WriteTimely cfg bus w.polled addr len) ∧
      (Reads cfg bus w addr len ↔ ReadTimely cfg bus w.polled len) :=
  ⟨writes_iff starts inside, reads_iff starts inside⟩

/-- A chip of 8192 bytes. -/
def plain : Config where
  byteCount := 8192
  pageSize := 64
  addressSize := 2
  pageSize_pos := by decide
  addressed := by decide

/-- A poll of a chip that is ready some milliseconds later, with a round in each. -/
def pollAt (start delay : ℕ) : Poll where
  start := start
  ready := start + delay
  status i := start + i
  clock i := start + i
  starts := le_rfl
  reads _ := le_rfl
  next _ := Nat.le_succ _
  passes time := ⟨time, Nat.le_add_left _ _⟩

/-- A bus that starts, whose chip is ready three milliseconds behind the start of each poll. -/
def busAt (start : ℕ) : Bus where
  spiStart _ := true
  poll _ := pollAt start 3

/-- Far from the end of the timer such a poll is answered. -/
theorem pollAt_answered {start delay : ℕ} (early : delay < cfg.timeout)
    (apart : start + cfg.timeout < 2 ^ 32) : (pollAt start delay).Answered cfg := by
  intro i busy
  have rounds : i ≤ delay := by
    by_contra beyond
    have last := busy delay (Nat.lt_of_not_le beyond)
    exact absurd last (lt_irrefl _)
  simp only [Poll.before, pollAt, decide_eq_true_eq, ← BitVec.ofNat_add, BitVec.lt_def,
    BitVec.toNat_ofNat]
  omega

theorem early_block_complete :
    Writes plain (busAt 1000) { chip := ⟨fun _ => 0, false⟩ } 30 40 ∧
      Reads plain (busAt 1000) { chip := ⟨fun _ => 0, false⟩ } 30 40 := by
  have complete := blocks_complete_iff plain (busAt 1000) (fun _ => rfl)
    { chip := ⟨fun _ => 0, false⟩ } 30 40 (by decide)
  have answered : (pollAt 1000 3).Answered plain := pollAt_answered (by decide) (by decide)
  exact ⟨complete.1.mpr ⟨fun _ _ => answered, fun start above inside => by omega⟩,
    complete.2.mpr fun _ => ⟨answered, by decide⟩⟩

/-- Less than the timeout before the timer wraps, a poll of a chip that is soon ready gives
up at once, and the block is neither written nor read. -/
theorem deadline_wrap_breaks :
    (¬ ∀ bus : Bus, (∀ k, bus.spiStart k = true) →
      (∀ k, (bus.poll k).ready ≤ (bus.poll k).start + plain.timeout) →
        ∀ w : World, Writes plain bus w 0 1) ∧
    ¬ ∀ bus : Bus, (∀ k, bus.spiStart k = true) →
      (∀ k, (bus.poll k).ready ≤ (bus.poll k).start + plain.timeout) →
        ∀ w : World, Reads plain bus w 0 1 := by
  have starts : ∀ k, (busAt (2 ^ 32 - 50)).spiStart k = true := fun _ => rfl
  have inTime : ∀ k, ((busAt (2 ^ 32 - 50)).poll k).ready ≤
      ((busAt (2 ^ 32 - 50)).poll k).start + plain.timeout := fun _ =>
    Nat.add_le_add_left (by decide : 3 ≤ 100) _
  have missed : ¬ (pollAt (2 ^ 32 - 50) 3).Answered plain := by
    intro answered
    exact absurd (answered 0 fun j below => absurd below (Nat.not_lt_zero j)) (by decide)
  constructor
  · intro always
    have writes := always (busAt (2 ^ 32 - 50)) starts inTime { chip := ⟨fun _ => 0, false⟩ }
    exact missed (((writes_iff starts (by decide)).mp writes).answered 0 (by decide))
  · intro always
    have reads := always (busAt (2 ^ 32 - 50)) starts inTime { chip := ⟨fun _ => 0, false⟩ }
    exact missed ((reads_iff starts (by decide)).mp reads (by decide)).1

end QmkSonix.ExternalEeprom.Spi
