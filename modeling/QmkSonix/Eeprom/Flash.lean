import Mathlib.Logic.Function.Basic

/-! The flash controller under the EEPROM emulation: half-word cells, page
erases, half-word programs and the lock. Cells are numbered from
`FEE_PAGE_BASE_ADDRESS`, so cell `i` lies at byte offset `2 * i`. -/

namespace QmkSonix.Eeprom

abbrev Byte := BitVec 8
abbrev HalfWord := BitVec 16

/-- `FLASH_Status`. The enum starts at 1; `unset` is the 0 that the entry
writers return when they have written nothing. -/
inductive FlashStatus where
  | unset | busy | errorPg | errorWrp | errorOpt | complete | timeout | badAddress
  deriving DecidableEq, Repr

/-- Flash word value after erase. -/
def feeEmptyWord : HalfWord := 0xFFFF

/-- One completed operation of the controller. -/
inductive FlashOp where
  | erasePage (page : Nat)
  | programHalfWord (cell : Nat) (data : HalfWord)
  deriving DecidableEq, Repr

abbrev Cells := Nat → HalfWord

def eraseCells (pageSize page : Nat) (cells : Cells) : Cells := fun cell =>
  if page * pageSize ≤ 2 * cell ∧ 2 * cell < (page + 1) * pageSize then feeEmptyWord
  else cells cell

def FlashOp.apply (pageSize : Nat) (cells : Cells) : FlashOp → Cells
  | .erasePage page => eraseCells pageSize page cells
  | .programHalfWord cell data => Function.update cells cell data

/-- The controller: its cells, the lock, the reports still scripted for the
next operations (`none` lets the operation run) and every completed operation. -/
structure Flash where
  cells : Cells
  locked : Bool := true
  faults : List (Option FlashStatus) := []
  ops : List FlashOp := []

namespace Flash

def unlock (flash : Flash) : Flash := { flash with locked := false }

def lock (flash : Flash) : Flash := { flash with locked := true }

/-- `FLASH_ErasePage` of the page with the given number. -/
def erasePage (pageSize : Nat) (flash : Flash) (page : Nat) : Flash × FlashStatus :=
  if flash.locked then (flash, .errorWrp)
  else match flash.faults.head?.join with
    | some status => ({ flash with faults := flash.faults.tail }, status)
    | none =>
      ({ flash with
          cells := eraseCells pageSize page flash.cells
          faults := flash.faults.tail
          ops := flash.ops ++ [.erasePage page] }, .complete)

/-- `FLASH_ProgramHalfWord`: a cell takes a value when it is erased or the
value is 0. -/
def programHalfWord (flash : Flash) (cell : Nat) (data : HalfWord) : Flash × FlashStatus :=
  if flash.locked then (flash, .errorWrp)
  else match flash.faults.head?.join with
    | some status => ({ flash with faults := flash.faults.tail }, status)
    | none =>
      if flash.cells cell = feeEmptyWord ∨ data = 0 then
        ({ flash with
            cells := Function.update flash.cells cell data
            faults := flash.faults.tail
            ops := flash.ops ++ [.programHalfWord cell data] }, .complete)
      else ({ flash with faults := flash.faults.tail }, .errorPg)

@[simp] theorem unlock_cells (flash : Flash) : flash.unlock.cells = flash.cells := rfl
@[simp] theorem unlock_locked (flash : Flash) : flash.unlock.locked = false := rfl
@[simp] theorem unlock_faults (flash : Flash) : flash.unlock.faults = flash.faults := rfl
@[simp] theorem unlock_ops (flash : Flash) : flash.unlock.ops = flash.ops := rfl
@[simp] theorem lock_cells (flash : Flash) : flash.lock.cells = flash.cells := rfl
@[simp] theorem lock_faults (flash : Flash) : flash.lock.faults = flash.faults := rfl
@[simp] theorem lock_ops (flash : Flash) : flash.lock.ops = flash.ops := rfl

end Flash

end QmkSonix.Eeprom
