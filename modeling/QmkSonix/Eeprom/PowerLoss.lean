import QmkSonix.Eeprom.Durability

/-! Power loss between two flash operations, and the restart after it. The image
left behind is sound unless the cut fell between two page erases of
`eeprom_clear`, which erases the compacted pages before the pages of the log. -/

namespace QmkSonix.Eeprom

open QmkSonix.Lib

/-- The flash operations of a run that powers on over the image `start`. -/
def flashOps (cfg : Config) (start : Cells) (calls : List Call) : List FlashOp :=
  (run (Call.exec cfg) (powerOn cfg start) calls).flash.ops

/-- What the flash holds when power is lost after `cut` operations of the run. -/
def crashImage (cfg : Config) (start : Cells) (calls : List Call) (cut : Nat) : Cells :=
  run (FlashOp.apply cfg.pageSize) start ((flashOps cfg start calls).take cut)

/-- Power is lost between two page erases of one `eeprom_clear`. -/
def tearsClearAt (cfg : Config) (start : Cells) (calls : List Call) (cut : Nat) : Bool :=
  ((flashOps cfg start calls).take cut).getLast?.any (FlashOp.tearsClear cfg)

section Crash

variable {cfg : Config} {start : Cells} {calls later : List Call}

/-- The operations account for the flash of the run, and all their cuts do. -/
theorem flashOps_along (sound : Sound cfg start)
    (unsplit : Along (Call.exec cfg) (fun s call => splitsZeroWord cfg s call = false)
      (powerOn cfg start) calls) :
    Along (FlashOp.apply cfg.pageSize) (CutOk cfg) start (flashOps cfg start calls) := by
  obtain ⟨new, ops, _, cuts⟩ := (run_completes (powerOn_coherent sound) unsplit).advances
  have fresh : (powerOn cfg start).flash.ops = [] := rfl
  rw [fresh, List.nil_append] at ops
  rw [flashOps, ops]
  exact cuts

/-- Every cut of a run that does not fall inside a clear leaves a sound image. -/
theorem crashImage_sound (sound : Sound cfg start)
    (unsplit : Along (Call.exec cfg) (fun s call => splitsZeroWord cfg s call = false)
      (powerOn cfg start) calls)
    (whole : tearsClearAt cfg start calls cut = false) :
    Sound cfg (crashImage cfg start calls cut) := by
  rcases run_take_cases (flashOps_along sound unsplit) cut with
    untouched | ⟨before, op, last, torn | safe, image⟩
  · rw [crashImage, untouched]
    exact sound
  · rw [tearsClearAt, last, Option.any_some, torn] at whole
    cases whole
  · rw [crashImage, image]
    exact safe

/-- Writes after a restart over a sound image are all read back by the next restart. -/
theorem restart_reads_writes (sound : Sound cfg start)
    (unsplit : Along (Call.exec cfg) (fun s call => splitsZeroWord cfg s call = false)
      (powerOn cfg start) later)
    (inside : address < cfg.densityBytes) (written : lastWritten later address = some dataByte) :
    (powerOn cfg (run (Call.exec cfg) (powerOn cfg start) later).flash.cells).dataBuf address =
      dataByte := by
  have completes := run_completes (powerOn_coherent sound) unsplit
  calc (powerOn cfg (run (Call.exec cfg) (powerOn cfg start) later).flash.cells).dataBuf address
      = contents cfg (run (Call.exec cfg) (powerOn cfg start) later).flash.cells address :=
        eepromInit_dataBuf _ inside
    _ = (run (Call.exec cfg) (powerOn cfg start) later).dataBuf address :=
        completes.coherent.cached address inside
    _ = overlay (later.flatMap Call.writes) (powerOn cfg start).dataBuf address :=
        completes.dataBuf address inside
    _ = dataByte := by
        rw [overlay_apply]
        rw [lastWritten] at written
        simp [written]

/-- Power is lost at any point of a run; the writes after the restart are read
back by the next one, if no step splits a zero word and a cut inside a clear
leaves a sound image. -/
theorem recovers_after_power_loss (cfg : Config) (start : Cells) (sound : Sound cfg start)
    (calls later : List Call) (cut : Nat)
    (unsplit : Along (Call.exec cfg) (fun s call => splitsZeroWord cfg s call = false)
      (powerOn cfg start) calls)
    (laterUnsplit : Along (Call.exec cfg) (fun s call => splitsZeroWord cfg s call = false)
      (powerOn cfg (crashImage cfg start calls cut)) later)
    (torn : tearsClearAt cfg start calls cut = true → Sound cfg (crashImage cfg start calls cut))
    (address : Nat) (inside : address < cfg.densityBytes) (dataByte : Byte)
    (written : lastWritten later address = some dataByte) :
    (powerOn cfg (run (Call.exec cfg) (powerOn cfg (crashImage cfg start calls cut))
      later).flash.cells).dataBuf address = dataByte := by
  have image : Sound cfg (crashImage cfg start calls cut) := by
    cases clear : tearsClearAt cfg start calls cut with
    | true => exact torn clear
    | false => exact crashImage_sound sound unsplit clear
  exact restart_reads_writes image laterUnsplit inside written

/-- The compacted area fills one page and the log another. -/
def twoPageConfig : Config where
  pageSize := 4
  pageCount := 2
  densityBytes := 4
  writeLogBytes := 4

theorem recovers_after_power_loss_two_pages :
    (powerOn twoPageConfig (run (Call.exec twoPageConfig) (powerOn twoPageConfig
      (crashImage twoPageConfig erasedCells [.writeDataByte 0 1, .writeDataByte 0 2] 1))
      [.writeDataByte 0 7]).flash.cells).dataBuf 0 = 7 :=
  recovers_after_power_loss twoPageConfig erasedCells (erasedCells_sound twoPageConfig)
    [.writeDataByte 0 1, .writeDataByte 0 2] [.writeDataByte 0 7] 1 (by decide) (by decide)
    (fun torn => absurd torn (by decide)) 0 (by decide) 7 (by decide)

/-- The fourth write clears both pages. Power is lost after the first erase, the
log is replayed over an erased word, and the byte written then is lost. -/
theorem power_loss_inside_clear :
    let calls : List Call := [.writeDataByte 0 1, .writeDataByte 0 2, .writeDataByte 0 3,
      .writeDataByte 0 4]
    let recovered := powerOn twoPageConfig (crashImage twoPageConfig erasedCells calls 4)
    let after := run (Call.exec twoPageConfig) recovered [.writeDataByte 0 7]
    (flashOps twoPageConfig erasedCells calls).take 4 =
        [.programHalfWord 0 0xFFFE, .programHalfWord 2 2, .programHalfWord 3 3, .erasePage 0] ∧
      after.dataBuf 0 = 7 ∧ (powerOn twoPageConfig after.flash.cells).dataBuf 0 = 3 := by
  decide

end Crash

end QmkSonix.Eeprom
