import QmkSonix.Eeprom.Sound

/-! What the flash operations of one call do, cut by cut: every operation
leaves a sound image, except an erase inside `eeprom_clear` that is not its last. -/

namespace QmkSonix.Eeprom

open QmkSonix.Lib

/-- An erase after which `eeprom_clear` still has pages to erase. -/
def FlashOp.tearsClear (cfg : Config) : FlashOp → Bool
  | .erasePage page => page + 1 < cfg.pageCount
  | .programHalfWord .. => false

/-- The image after an operation is sound, or the operation tore a clear. -/
def CutOk (cfg : Config) (cells : Cells) (op : FlashOp) : Prop :=
  op.tearsClear cfg = true ∨ Sound cfg (op.apply cfg.pageSize cells)

/-- The operations that lead from one controller state to another, each of them
allowed on the image before it. -/
def Performs (cfg : Config) (allowed : Cells → FlashOp → Prop) (before after : Flash) : Prop :=
  ∃ new, after.ops = before.ops ++ new ∧
    after.cells = run (FlashOp.apply cfg.pageSize) before.cells new ∧
    Along (FlashOp.apply cfg.pageSize) allowed before.cells new

/-- The operations that lead from one controller state to another, all of whose
cuts are accounted for. -/
def Advances (cfg : Config) (before after : Flash) : Prop :=
  ∃ new, after.ops = before.ops ++ new ∧
    after.cells = run (FlashOp.apply cfg.pageSize) before.cells new ∧
    Along (FlashOp.apply cfg.pageSize) (CutOk cfg) before.cells new

section Performs

variable {cfg : Config} {allowed : Cells → FlashOp → Prop} {before middle after : Flash}

theorem Performs.refl (flash : Flash) : Performs cfg allowed flash flash :=
  ⟨[], by simp, rfl, trivial⟩

theorem Performs.trans (first : Performs cfg allowed before middle)
    (second : Performs cfg allowed middle after) : Performs cfg allowed before after := by
  obtain ⟨new, ops, cells, cuts⟩ := first
  obtain ⟨later, laterOps, laterCells, laterCuts⟩ := second
  refine ⟨new ++ later, by rw [laterOps, ops, List.append_assoc], ?_, ?_⟩
  · rw [laterCells, cells, run_append]
  · rw [along_append]
    exact ⟨cuts, by rwa [← cells]⟩

theorem Performs.of_op (op : FlashOp) (ops : after.ops = before.ops ++ [op])
    (cells : after.cells = op.apply cfg.pageSize before.cells)
    (fine : allowed before.cells op) : Performs cfg allowed before after :=
  ⟨[op], ops, by simpa using cells, ⟨fine, trivial⟩⟩

theorem Performs.mono {weaker : Cells → FlashOp → Prop}
    (weaken : ∀ cells op, allowed cells op → weaker cells op)
    (performs : Performs cfg allowed before after) : Performs cfg weaker before after := by
  obtain ⟨new, ops, cells, cuts⟩ := performs
  exact ⟨new, ops, cells, cuts.mono weaken⟩

end Performs

section Advances

variable {cfg : Config} {before middle after : Flash}

theorem Advances.refl (cfg : Config) (flash : Flash) : Advances cfg flash flash :=
  Performs.refl flash

theorem Advances.trans (first : Advances cfg before middle) (second : Advances cfg middle after) :
    Advances cfg before after :=
  Performs.trans first second

theorem Advances.of_op (op : FlashOp) (ops : after.ops = before.ops ++ [op])
    (cells : after.cells = op.apply cfg.pageSize before.cells)
    (cut : CutOk cfg before.cells op) : Advances cfg before after :=
  Performs.of_op op ops cells cut

/-- Locking, unlocking and the like: the cells and the operations stay. -/
theorem Advances.of_same (ops : after.ops = before.ops) (cells : after.cells = before.cells) :
    Advances cfg before after :=
  ⟨[], by simp [ops], by simp [cells], trivial⟩

end Advances

/-- The next operations, as many as counted, run. -/
def Flash.Works (flash : Flash) (count : Nat) : Prop := ∀ entry ∈ flash.faults.take count, entry = none

section Program

variable {flash : Flash}

theorem works_of_idle (idle : flash.faults = []) (count : Nat) : flash.Works count := by
  simp [Flash.Works, idle]

theorem Flash.Works.mono {count fewer : Nat} (works : flash.Works count) (less : fewer ≤ count) :
    flash.Works fewer :=
  fun entry member => works entry (List.take_subset_take_left _ less member)

theorem Flash.Works.next {count : Nat} (works : flash.Works (count + 1)) :
    (flash.faults.drop count).head?.join = none := by
  cases behind : flash.faults.drop count with
  | nil => rfl
  | cons entry rest =>
    have listed : flash.faults[count]? = some entry := by
      rw [← List.head?_drop, behind, List.head?_cons]
    have member : entry ∈ flash.faults.take (count + 1) :=
      List.mem_of_getElem? (by rwa [List.getElem?_take_of_lt (Nat.lt_succ_self count)])
    rw [works entry member]
    rfl

theorem programHalfWord_erased (unlocked : flash.locked = false) (working : flash.faults = [])
    (erased : flash.cells cell = feeEmptyWord) (data : HalfWord) :
    flash.programHalfWord cell data =
      ({ flash with
          cells := Function.update flash.cells cell data
          ops := flash.ops ++ [.programHalfWord cell data] }, .complete) := by
  simp [Flash.programHalfWord, unlocked, working, erased]

theorem erasePage_runs (unlocked : flash.locked = false)
    (runs : flash.faults.head?.join = none) (pageSize page : Nat) :
    flash.erasePage pageSize page =
      ({ flash with
          cells := eraseCells pageSize page flash.cells
          faults := flash.faults.tail
          ops := flash.ops ++ [.erasePage page] }, .complete) := by
  simp [Flash.erasePage, unlocked, runs]

end Program

section Clear

variable {cfg : Config} {flash : Flash}

/-- The controller after `eeprom_clear` has erased the first `count` pages. -/
def erasePages (cfg : Config) (flash : Flash) (count : Nat) : Flash :=
  (List.range count).foldl (fun flash page => (flash.erasePage cfg.pageSize page).1) flash

theorem erasePages_succ (count : Nat) :
    erasePages cfg flash (count + 1) =
      ((erasePages cfg flash count).erasePage cfg.pageSize count).1 := by
  simp [erasePages, List.range_succ]

theorem erasePages_flags (cfg : Config) (unlocked : flash.locked = false) {count : Nat}
    (works : flash.Works count) :
    (erasePages cfg flash count).locked = false ∧
      (erasePages cfg flash count).faults = flash.faults.drop count := by
  induction count with
  | zero => exact ⟨unlocked, rfl⟩
  | succ count ih =>
    obtain ⟨stillUnlocked, behind⟩ := ih (works.mono (Nat.le_succ count))
    rw [erasePages_succ, erasePage_runs stillUnlocked (by rw [behind]; exact works.next)]
    exact ⟨stillUnlocked, by rw [behind, List.tail_drop]⟩

/-- The page that is erased next. -/
theorem erasePages_runs (cfg : Config) (unlocked : flash.locked = false) {count : Nat}
    (works : flash.Works (count + 1)) :
    erasePages cfg flash (count + 1) =
      { erasePages cfg flash count with
        cells := eraseCells cfg.pageSize count (erasePages cfg flash count).cells
        faults := (erasePages cfg flash count).faults.tail
        ops := (erasePages cfg flash count).ops ++ [.erasePage count] } := by
  obtain ⟨stillUnlocked, behind⟩ := erasePages_flags cfg unlocked (works.mono (Nat.le_succ count))
  rw [erasePages_succ, erasePage_runs stillUnlocked (by rw [behind]; exact works.next)]

theorem erasePages_cells (unlocked : flash.locked = false) {count : Nat}
    (works : flash.Works count) (cell : Nat) :
    (erasePages cfg flash count).cells cell =
      if 2 * cell < count * cfg.pageSize then feeEmptyWord else flash.cells cell := by
  induction count with
  | zero => simp [erasePages]
  | succ count ih =>
    rw [erasePages_runs cfg unlocked works]
    have grows : (count + 1) * cfg.pageSize = count * cfg.pageSize + cfg.pageSize :=
      Nat.succ_mul ..
    simp only [eraseCells, ih (works.mono (Nat.le_succ count)), grows]
    grind

theorem erasePages_ops (cfg : Config) (unlocked : flash.locked = false) {count : Nat}
    (works : flash.Works count) :
    (erasePages cfg flash count).ops = flash.ops ++ (List.range count).map FlashOp.erasePage := by
  induction count with
  | zero => simp [erasePages]
  | succ count ih =>
    rw [erasePages_runs cfg unlocked works]
    simp [ih (works.mono (Nat.le_succ count)), List.range_succ]

/-- The log area lies inside the pages of the emulation. -/
theorem logLast_within (cfg : Config) (below : cell < cfg.logLast) :
    2 * cell < cfg.pageCount * cfg.pageSize := by
  have fits := cfg.fits
  unfold Config.logLast at below
  omega

theorem erasePages_advances (cfg : Config) (unlocked : flash.locked = false) {count : Nat}
    (works : flash.Works count) (within : count ≤ cfg.pageCount) :
    Advances cfg flash (erasePages cfg flash count) := by
  induction count with
  | zero => exact Advances.refl cfg flash
  | succ count ih =>
    have step := erasePages_runs cfg unlocked works
    apply (ih (works.mono (Nat.le_succ count)) (by omega)).trans
    apply Advances.of_op (.erasePage count)
    · rw [step]
    · rw [step]
      rfl
    · rcases Nat.lt_or_ge (count + 1) cfg.pageCount with torn | last
      · exact .inl (by simpa [FlashOp.tearsClear] using torn)
      · right
        have all : count + 1 = cfg.pageCount := by omega
        have image : (FlashOp.erasePage count).apply cfg.pageSize
            (erasePages cfg flash count).cells = (erasePages cfg flash (count + 1)).cells := by
          rw [step]
          rfl
        rw [image]
        apply sound_of_blank
        intro cell above below
        rw [erasePages_cells unlocked works, all, if_pos (logLast_within cfg below)]

/-- `eeprom_clear` when every page is erased. -/
theorem eepromClear_spec (cfg : Config) (s : Emulation) (works : s.flash.Works cfg.pageCount) :
    (∀ cell < cfg.logLast, (eepromClear cfg s).flash.cells cell = feeEmptyWord) ∧
      (eepromClear cfg s).flash.faults = s.flash.faults.drop cfg.pageCount ∧
      (eepromClear cfg s).dataBuf = s.dataBuf ∧ (eepromClear cfg s).emptySlot = cfg.logBase ∧
      Advances cfg s.flash (eepromClear cfg s).flash := by
  have shape : (eepromClear cfg s).flash =
      (erasePages cfg s.flash.unlock cfg.pageCount).lock := rfl
  have unlocked : s.flash.unlock.locked = false := rfl
  have runs : s.flash.unlock.Works cfg.pageCount := works
  refine ⟨?_, ?_, rfl, rfl, ?_⟩
  · intro cell below
    rw [shape, Flash.lock_cells, erasePages_cells unlocked runs,
      if_pos (logLast_within cfg below)]
  · rw [shape]
    exact (erasePages_flags cfg unlocked runs).2
  · rw [shape]
    have opened : Advances cfg s.flash s.flash.unlock := Advances.of_same rfl rfl
    have erased := erasePages_advances cfg unlocked runs (Nat.le_refl _)
    have closed : Advances cfg (erasePages cfg s.flash.unlock cfg.pageCount)
        (erasePages cfg s.flash.unlock cfg.pageCount).lock := Advances.of_same rfl rfl
    exact (opened.trans erased).trans closed

end Clear

end QmkSonix.Eeprom
