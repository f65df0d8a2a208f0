import Mathlib
import QmkSonix.Lib.Run

/-! `matrix_scan` on one half of a split keyboard, over any debounce algorithm and
what the transport offers it. -/

namespace QmkSonix.Matrix

open QmkSonix.Lib

/-- Some rows of a matrix, each a `matrix_row_t` with a bit for each column. -/
abbrev Rows (count cols : Nat) := Fin count → BitVec cols

/-- `debounce`, with its statics and the time it reads. It is handed the rows of one
hand only. -/
structure Debounce (rowsPerHand cols : Nat) where
  Statics : Type
  statics : Statics
  debounce : Statics → BitVec 32 → Rows rowsPerHand cols → Rows rowsPerHand cols → Bool →
    Statics × Rows rowsPerHand cols

/-- The half that the code runs on. -/
structure Board (rowsPerHand cols : Nat) extends Debounce rowsPerHand cols where
  isLeftHand : Bool
  isKeyboardMaster : Bool

/-- How `transport_master_if_connected` ends, and what it leaves in `slave_matrix`. -/
structure Offer (rowsPerHand cols : Nat) where
  connected : Bool
  slaveMatrix : Rows rowsPerHand cols

/-- What one scan meets: the rows read from its own pins, the time, the transport of a
master, and the rows that a slave is sent if the halves are mirrored. -/
structure Encounter (rowsPerHand cols : Nat) where
  pins : Rows rowsPerHand cols
  now : BitVec 32
  offer : Offer rowsPerHand cols
  mirrored : Option (Rows rowsPerHand cols) := none

section Scans

variable {rowsPerHand cols : Nat}

/-- The rows of the left hand, or the ones behind them. -/
def handRows (left : Bool) (matrix : Rows (rowsPerHand + rowsPerHand) cols) :
    Rows rowsPerHand cols :=
  if left then fun row => matrix (Fin.castAdd rowsPerHand row)
  else fun row => matrix (Fin.natAdd rowsPerHand row)

/-- Copy to the rows of one hand. -/
def setHandRows (left : Bool) (rows : Rows rowsPerHand cols)
    (matrix : Rows (rowsPerHand + rowsPerHand) cols) : Rows (rowsPerHand + rowsPerHand) cols :=
  if left then Fin.append rows (handRows false matrix) else Fin.append (handRows true matrix) rows

/-- The matrices, the statics of `matrix.c` and of the debounce algorithm, and how
often the keyboard's own scan functions have been called. -/
structure State (board : Board rowsPerHand cols) where
  rawMatrix : Rows (rowsPerHand + rowsPerHand) cols := fun _ => 0
  matrix : Rows (rowsPerHand + rowsPerHand) cols := fun _ => 0
  lastConnected : Bool := false
  debouncer : board.Statics := board.statics
  quantumScans : Nat := 0
  slaveScans : Nat := 0

variable {board : Board rowsPerHand cols}

/-- `matrix + thisHand` -/
def State.thisHand (s : State board) : Rows rowsPerHand cols := handRows board.isLeftHand s.matrix

/-- `matrix + thatHand` -/
def State.thatHand (s : State board) : Rows rowsPerHand cols :=
  handRows (!board.isLeftHand) s.matrix

/-- `matrix_post_scan`, with its return value -/
def matrixPostScan (s : State board) (met : Encounter rowsPerHand cols) : State board × Bool :=
  if board.isKeyboardMaster then
    let (slaveMatrix, changed, lastConnected) :=
      if met.offer.connected then
        (met.offer.slaveMatrix, decide (s.thatHand ≠ met.offer.slaveMatrix), true)
      else if s.lastConnected then (fun _ => 0, true, false)
      else (met.offer.slaveMatrix, false, s.lastConnected)
    ({ s with
        matrix := if changed then setHandRows (!board.isLeftHand) slaveMatrix s.matrix else s.matrix
        lastConnected := lastConnected
        quantumScans := s.quantumScans + 1 }, changed)
  else
    ({ s with
        matrix := setHandRows (!board.isLeftHand) (met.mirrored.getD s.thatHand) s.matrix
        slaveScans := s.slaveScans + 1 }, false)

/-- `curr_matrix`: the rows of the half's own pins, and none behind them. -/
def currMatrix (pins : Rows rowsPerHand cols) : Rows (rowsPerHand + rowsPerHand) cols :=
  Fin.append pins fun _ => 0

/-- `matrix_scan`, with its return value. The call of `matrix_post_scan` stands behind
an `||`. -/
def matrixScan (s : State board) (met : Encounter rowsPerHand cols) : State board × Bool :=
  let changed := decide (s.rawMatrix ≠ currMatrix met.pins)
  let rawMatrix := currMatrix met.pins
  let debounced := board.debounce s.debouncer met.now (handRows true rawMatrix) s.thisHand changed
  let scanned : State board :=
    { s with
      rawMatrix := rawMatrix
      debouncer := debounced.1
      matrix := setHandRows board.isLeftHand debounced.2 s.matrix }
  if changed then (scanned, true) else matrixPostScan scanned met

def scan (s : State board) (met : Encounter rowsPerHand cols) : State board := (matrixScan s met).1

/-! ### The two hands of a matrix -/

@[simp] theorem handRows_setHandRows_same (left : Bool) (rows : Rows rowsPerHand cols)
    (matrix : Rows (rowsPerHand + rowsPerHand) cols) :
    handRows left (setHandRows left rows matrix) = rows := by
  funext row
  cases left with
  | true => exact Fin.append_left rows _ row
  | false => exact Fin.append_right _ rows row

@[simp] theorem handRows_setHandRows_other (left : Bool) (rows : Rows rowsPerHand cols)
    (matrix : Rows (rowsPerHand + rowsPerHand) cols) :
    handRows (!left) (setHandRows left rows matrix) = handRows (!left) matrix := by
  funext row
  cases left with
  | true => exact Fin.append_right rows _ row
  | false => exact Fin.append_left _ rows row

/-! ### The other half, as the master keeps it -/

/-- The other half's rows and whether it was connected at last. -/
structure Remote (rowsPerHand cols : Nat) where
  rows : Rows rowsPerHand cols
  connected : Bool
  deriving DecidableEq

/-- What an offer makes of the other half: its rows while it is connected, none once
it is not. -/
def Remote.refresh (remote : Remote rowsPerHand cols) (offer : Offer rowsPerHand cols) :
    Remote rowsPerHand cols where
  rows :=
    if offer.connected then offer.slaveMatrix
    else if remote.connected then fun _ => 0
    else remote.rows
  connected := offer.connected

def State.remote (s : State board) : Remote rowsPerHand cols := ⟨s.thatHand, s.lastConnected⟩

theorem matrixPostScan_remote (master : board.isKeyboardMaster) (s : State board)
    (met : Encounter rowsPerHand cols) :
    (matrixPostScan s met).1.remote = s.remote.refresh met.offer ∧
      (matrixPostScan s met).1.quantumScans = s.quantumScans + 1 := by
  unfold matrixPostScan
  rw [if_pos master]
  refine ⟨?_, rfl⟩
  by_cases connected : met.offer.connected
  · by_cases same : s.thatHand = met.offer.slaveMatrix
    · simp only [connected, same, ne_eq, not_true_eq_false, decide_false, if_true,
        Bool.false_eq_true, if_false]
      exact congrArg₂ Remote.mk (same.trans (by rw [if_pos connected])) connected.symm
    · simp only [connected, same, ne_eq, not_false_eq_true, decide_true, if_true]
      exact congrArg₂ Remote.mk ((handRows_setHandRows_same _ _ _).trans (by rw [if_pos connected]))
        connected.symm
  · cases last : s.lastConnected with
    | true => simp [State.remote, Remote.refresh, State.thatHand, connected, last]
    | false => simp [State.remote, Remote.refresh, State.thatHand, connected, last]

/-- A scan leaves the other half alone if it finds its own pins changed, and refreshes
it otherwise. -/
theorem scan_remote (master : board.isKeyboardMaster) (s : State board)
    (met : Encounter rowsPerHand cols) :
    (scan s met).remote = (if s.rawMatrix = currMatrix met.pins then s.remote.refresh met.offer
        else s.remote) ∧
      (scan s met).quantumScans =
        s.quantumScans + (if s.rawMatrix = currMatrix met.pins then 1 else 0) ∧
      (scan s met).rawMatrix = currMatrix met.pins := by
  have apart (debounced : Rows rowsPerHand cols) :
      handRows (!board.isLeftHand) (setHandRows board.isLeftHand debounced s.matrix) =
        s.thatHand :=
    handRows_setHandRows_other _ _ _
  unfold scan matrixScan
  by_cases same : s.rawMatrix = currMatrix met.pins
  · simp only [same, ne_eq, not_true_eq_false, decide_false, Bool.false_eq_true, if_false, if_true]
    obtain ⟨refreshed, counted⟩ := matrixPostScan_remote master _ met
    refine ⟨refreshed.trans ?_, counted, ?_⟩
    · simp only [State.remote, State.thatHand, apart]
    · rw [matrixPostScan, if_pos master]
  · simp only [same, ne_eq, not_false_eq_true, decide_true, if_true, if_false]
    exact ⟨by simp only [State.remote, State.thatHand, apart], rfl, trivial⟩

/-! ### Runs of scans -/

variable {mets : List (Encounter rowsPerHand cols)}

theorem run_quantumScans_le (master : board.isKeyboardMaster) (s : State board)
    (mets : List (Encounter rowsPerHand cols)) :
    (run scan s mets).quantumScans ≤ s.quantumScans + mets.length := by
  induction mets generalizing s with
  | nil => exact le_rfl
  | cons met rest ih =>
    have counted := (scan_remote master s met).2.1
    have later := ih (scan s met)
    rw [run_cons, List.length_cons]
    split at counted <;> omega

/-- The keyboard's own scan function has run once in each scan exactly when no scan has
found the pins changed. -/
theorem run_quantumScans_iff (master : board.isKeyboardMaster) (s : State board)
    (mets : List (Encounter rowsPerHand cols)) :
    (run scan s mets).quantumScans = s.quantumScans + mets.length ↔
      ∀ met ∈ mets, currMatrix met.pins = s.rawMatrix := by
  induction mets generalizing s with
  | nil => simp
  | cons met rest ih =>
    obtain ⟨-, counted, read⟩ := scan_remote master s met
    rw [run_cons, List.length_cons, List.forall_mem_cons]
    by_cases same : s.rawMatrix = currMatrix met.pins
    · have first : (scan s met).quantumScans = s.quantumScans + 1 := by rw [counted, if_pos same]
      have rest := ih (scan s met)
      rw [read, ← same] at rest
      rw [← rest, first, and_iff_right same.symm]
      omega
    · have first : (scan s met).quantumScans = s.quantumScans := by
        rw [counted, if_neg same, Nat.add_zero]
      have fewer := run_quantumScans_le master (scan s met) rest
      constructor
      · intro all
        omega
      · exact fun steady => absurd steady.1.symm same

/-- While the pins read the same, the other half follows the offers. -/
theorem run_remote (master : board.isKeyboardMaster) (s : State board)
    (steady : ∀ met ∈ mets, currMatrix met.pins = s.rawMatrix) :
    (run scan s mets).remote = run Remote.refresh s.remote (mets.map (·.offer)) := by
  induction mets generalizing s with
  | nil => rfl
  | cons met rest ih =>
    obtain ⟨refreshed, -, read⟩ := scan_remote master s met
    have same := (steady met List.mem_cons_self).symm
    rw [if_pos same] at refreshed
    rw [run_cons, List.map_cons, run_cons, ← refreshed]
    apply ih
    intro later member
    rw [read, ← same]
    exact steady later (List.mem_cons_of_mem met member)

/-- In two runs of the master with the same offers, the other half's rows agree after
every scan, and the keyboard's own scan function is run in each, exactly when no scan
of either finds its own pins changed. -/
theorem halves_apart_iff (master : board.isKeyboardMaster) (first second : State board)
    (alike : first.remote = second.remote) (ones others : List (Encounter rowsPerHand cols))
    (sameOffers : ones.map (·.offer) = others.map (·.offer)) :
    (∀ cut ≤ ones.length,
        (run scan first (ones.take cut)).thatHand = (run scan second (others.take cut)).thatHand ∧
        (run scan first (ones.take cut)).quantumScans = first.quantumScans + cut ∧
        (run scan second (others.take cut)).quantumScans = second.quantumScans + cut) ↔
      (∀ met ∈ ones, currMatrix met.pins = first.rawMatrix) ∧
        ∀ met ∈ others, currMatrix met.pins = second.rawMatrix := by
  have lengths : ones.length = others.length := by
    simpa using congrArg List.length sameOffers
  constructor
  · intro apart
    obtain ⟨-, one, other⟩ := apart ones.length le_rfl
    rw [List.take_length] at one
    rw [lengths, List.take_length] at other
    exact ⟨(run_quantumScans_iff master first ones).mp one,
      (run_quantumScans_iff master second others).mp other⟩
  · rintro ⟨steady, still⟩ cut inside
    have steadyCut : ∀ met ∈ ones.take cut, currMatrix met.pins = first.rawMatrix :=
      fun met member => steady met (List.mem_of_mem_take member)
    have stillCut : ∀ met ∈ others.take cut, currMatrix met.pins = second.rawMatrix :=
      fun met member => still met (List.mem_of_mem_take member)
    have one := (run_quantumScans_iff master first _).mpr steadyCut
    have other := (run_quantumScans_iff master second _).mpr stillCut
    rw [List.length_take_of_le inside] at one
    rw [List.length_take_of_le (lengths ▸ inside)] at other
    refine ⟨?_, one, other⟩
    have same : (run scan first (ones.take cut)).remote =
        (run scan second (others.take cut)).remote := by
      rw [run_remote master first steadyCut, run_remote master second stillCut, alike,
        List.map_take, List.map_take, sameOffers]
    exact congrArg Remote.rows same

end Scans

/-- A left master of one row and one column a hand, without any debouncing. -/
def oneKeyBoard : Board 1 1 where
  Statics := Unit
  statics := ()
  debounce _ _ raw _ _ := ((), raw)
  isLeftHand := true
  isKeyboardMaster := true

/-- A scan that reads one key of its own, and one of the other half. -/
def encounter (own other : BitVec 1) : Encounter 1 1 where
  pins := fun _ => own
  now := 0
  offer := { connected := true, slaveMatrix := fun _ => other }

/-- The own half's key is held. -/
def keyHeld : State oneKeyBoard where
  rawMatrix := currMatrix fun _ => 1

theorem held_halves_apart :
    (run scan ({} : State oneKeyBoard) [encounter 0 1, encounter 0 0]).thatHand =
        (run scan keyHeld [encounter 1 1, encounter 1 0]).thatHand ∧
      (run scan ({} : State oneKeyBoard) [encounter 0 1, encounter 0 0]).quantumScans = 2 ∧
      (run scan keyHeld [encounter 1 1, encounter 1 0]).quantumScans = 2 :=
  (halves_apart_iff (by rfl) ({} : State oneKeyBoard) keyHeld rfl [encounter 0 1, encounter 0 0]
    [encounter 1 1, encounter 1 0] rfl).mpr (by decide) 2 (by decide)

/-- A key pressed on the own half in the scan in which the other half presses one: the
other half's key is not seen, nor is `matrix_scan_quantum` run. -/
theorem pressed_half_interferes :
    [encounter 1 1].map (·.offer) = [encounter 0 1].map (·.offer) ∧
      (run scan ({} : State oneKeyBoard) [encounter 1 1]).thatHand ≠
        (run scan ({} : State oneKeyBoard) [encounter 0 1]).thatHand ∧
      (run scan ({} : State oneKeyBoard) [encounter 1 1]).quantumScans = 0 ∧
      (run scan ({} : State oneKeyBoard) [encounter 0 1]).quantumScans = 1 := by
  refine ⟨rfl, ?_, rfl, rfl⟩
  decide

end QmkSonix.Matrix
