import QmkSonix.Lib.Sweep
import QmkSonix.Debounce.Model

/-! The places of a debounced matrix go their own ways: behind every scan each of them
is where a machine of its own would be, which sees its own bits and the times of the
scans only. -/

namespace QmkSonix.Debounce

open QmkSonix.Lib QmkSonix.Matrix

/-- A counter and the bits that it stands for. -/
@[ext] structure Cell (Counter Value : Type) where
  counter : Counter
  cooked : Value
  deriving DecidableEq

def Visit.cell {Counter Value : Type} (visit : Visit Counter Value) : Cell Counter Value :=
  ⟨visit.counter, visit.cooked⟩

section Cells

variable {Counter Value : Type} (algorithm : Algorithm Counter Value)

/-- What elapsed time makes of a cell. -/
def Algorithm.advance (elapsedTime : Nat) (raw : Value) (cell : Cell Counter Value) :
    Cell Counter Value :=
  (algorithm.update elapsedTime raw cell.counter cell.cooked).cell

/-- What a transfer makes of a cell. -/
def Algorithm.settle (raw : Value) (cell : Cell Counter Value) : Cell Counter Value :=
  (algorithm.transfer raw cell.counter cell.cooked).cell

/-- The machine of one place. -/
def Algorithm.step (gap : Nat) (raw : Value) (cell : Cell Counter Value) : Cell Counter Value :=
  algorithm.settle raw (algorithm.advance (min gap 255) raw cell)

/-- Its state behind `n` scans, the first of which reads `raw 1`. -/
def Algorithm.track (raw : Nat → Value) (time : Nat → Nat) : Nat → Cell Counter Value
  | 0 => ⟨algorithm.elapsed, raw 0⟩
  | n + 1 => algorithm.step (time (n + 1) - time n) (raw (n + 1)) (Algorithm.track raw time n)

/-- What the shared flags rely on. A counter that runs asks for updates, and a place is
left as a transfer would leave it unless it asks for one. -/
structure Lawful (Running : Counter → Prop) : Prop where
  rested : ¬Running algorithm.elapsed
  update_rested : ∀ elapsedTime raw counter cooked, ¬Running counter →
    algorithm.advance elapsedTime raw ⟨counter, cooked⟩ = ⟨counter, cooked⟩
  update_zero : ∀ raw counter cooked, algorithm.advance 0 raw ⟨counter, cooked⟩ = ⟨counter, cooked⟩
  update_running : ∀ elapsedTime raw counter cooked,
    Running (algorithm.update elapsedTime raw counter cooked).counter →
      (algorithm.update elapsedTime raw counter cooked).countersNeedUpdate
  transfer_running : ∀ raw counter cooked,
    Running (algorithm.transfer raw counter cooked).counter →
      Running counter ∨ (algorithm.transfer raw counter cooked).countersNeedUpdate
  transfer_settles : ∀ raw cell,
    algorithm.settle raw (algorithm.settle raw cell) = algorithm.settle raw cell
  update_settled : ∀ elapsedTime raw counter cooked,
    algorithm.settle raw ⟨counter, cooked⟩ = ⟨counter, cooked⟩ →
      (algorithm.update elapsedTime raw counter cooked).matrixNeedUpdate = false →
        algorithm.settle raw (algorithm.advance elapsedTime raw ⟨counter, cooked⟩) =
          algorithm.advance elapsedTime raw ⟨counter, cooked⟩
  start_settled : ∀ cooked,
    algorithm.settle cooked ⟨algorithm.elapsed, cooked⟩ = ⟨algorithm.elapsed, cooked⟩

end Cells

section Passes

variable {rows cols width : Nat} {units : Units rows cols} {Counter : Type}
  {algorithm : Algorithm Counter units.Value} {s : State rows cols width units Counter}

/-- The cell of a place. -/
def State.cell (s : State rows cols width units Counter) (place : units.Place) :
    Cell Counter units.Value :=
  ⟨s.debounceCounters place, units.read s.cooked place⟩

theorem visit_locally (body : units.Value → Counter → units.Value → Visit Counter units.Value)
    (raw : Rows rows cols) :
    Locally (fun s : State rows cols width units Counter => s.cell) (visit body raw) fun place cell =>
      (body (units.read raw place) cell.counter cell.cooked).cell where
  here s place := by
    simp only [State.cell, visit, Visit.cell, Function.update_self, units.read_write]
  elsewhere s place other apart := by
    simp only [State.cell, visit, Function.update_of_ne apart,
      units.read_write_of_ne _ _ _ _ apart]

theorem foldl_visit_lastTime
    (body : units.Value → Counter → units.Value → Visit Counter units.Value)
    (raw : Rows rows cols) (places : List units.Place)
    (s : State rows cols width units Counter) :
    (places.foldl (visit body raw) s).lastTime = s.lastTime := by
  induction places generalizing s with
  | nil => rfl
  | cons place rest ih => exact ih _

theorem cell_updateDebounceCounters (algorithm : Algorithm Counter units.Value) (raw : Rows rows cols) (elapsedTime : Nat)
    (s : State rows cols width units Counter) (place : units.Place) :
    (updateDebounceCounters algorithm raw elapsedTime s).cell place =
      algorithm.advance elapsedTime (units.read raw place) (s.cell place) :=
  (visit_locally _ raw).foldl_here units.distinct (units.complete place) _

theorem cell_transferMatrixValues (algorithm : Algorithm Counter units.Value) (raw : Rows rows cols)
    (s : State rows cols width units Counter) (place : units.Place) :
    (transferMatrixValues algorithm raw s).cell place =
      algorithm.settle (units.read raw place) (s.cell place) :=
  (visit_locally _ raw).foldl_here units.distinct (units.complete place) _

theorem foldl_visit_countersNeedUpdate
    (body : units.Value → Counter → units.Value → Visit Counter units.Value)
    (raw : Rows rows cols) (s : State rows cols width units Counter) :
    (units.places.foldl (visit body raw) s).countersNeedUpdate =
      (s.countersNeedUpdate || units.places.any fun place =>
        (body (units.read raw place) (s.cell place).counter
          (s.cell place).cooked).countersNeedUpdate) :=
  (visit_locally body raw).foldl_flag State.countersNeedUpdate
    (fun place cell => (body (units.read raw place) cell.counter cell.cooked).countersNeedUpdate)
    (fun _ _ => rfl) units.distinct s

theorem foldl_visit_matrixNeedUpdate
    (body : units.Value → Counter → units.Value → Visit Counter units.Value)
    (raw : Rows rows cols) (s : State rows cols width units Counter) :
    (units.places.foldl (visit body raw) s).matrixNeedUpdate =
      (s.matrixNeedUpdate || units.places.any fun place =>
        (body (units.read raw place) (s.cell place).counter
          (s.cell place).cooked).matrixNeedUpdate) :=
  (visit_locally body raw).foldl_flag State.matrixNeedUpdate
    (fun place cell => (body (units.read raw place) cell.counter cell.cooked).matrixNeedUpdate)
    (fun _ _ => rfl) units.distinct s

/-- What holds between two scans, the earlier of which read `raw` at `time`. -/
structure Between (algorithm : Algorithm Counter units.Value) (Running : Counter → Prop)
    (raw : Rows rows cols) (time : Nat) (s : State rows cols width units Counter) : Prop where
  timed : s.countersNeedUpdate → s.lastTime = BitVec.ofNat width time
  watched : ∀ place, Running (s.debounceCounters place) → s.countersNeedUpdate
  settled : ∀ place, algorithm.settle (units.read raw place) (s.cell place) = s.cell place

/-- `debounce` before it looks at the changed matrix. -/
def updated (algorithm : Algorithm Counter units.Value) (raw : Rows rows cols)
    (now : BitVec width) (s : State rows cols width units Counter) :
    State rows cols width units Counter :=
  if s.countersNeedUpdate then
    let elapsedTime := min (now - s.lastTime).toNat 255
    let timed := { s with lastTime := now }
    if 0 < elapsedTime then updateDebounceCounters algorithm raw elapsedTime timed else timed
  else s

variable {Running : Counter → Prop} {raw : Rows rows cols} {time time' : Nat}

theorem toNat_elapsed (later : time ≤ time') (unwrapped : time' < time + 2 ^ width) :
    (BitVec.ofNat width time' - BitVec.ofNat width time).toNat = time' - time := by
  obtain ⟨gap, rfl⟩ := Nat.exists_eq_add_of_le later
  rw [BitVec.ofNat_add, BitVec.add_comm, BitVec.add_sub_cancel, BitVec.toNat_ofNat,
    Nat.mod_eq_of_lt (by omega), Nat.add_sub_cancel_left]

/-- A scan before it looks at the changed matrix: every place has advanced, and is
settled unless it asks for the transfer. -/
theorem Between.halfway (raw' : Rows rows cols) (lawful : Lawful algorithm Running)
    (between : Between algorithm Running raw time s)
    (spaced : s.countersNeedUpdate → time ≤ time' ∧ time' < time + 2 ^ width) :
    (∀ place, (updated algorithm raw' (BitVec.ofNat width time') s).cell place =
        algorithm.advance (min (time' - time) 255) (units.read raw' place) (s.cell place)) ∧
      ((updated algorithm raw' (BitVec.ofNat width time') s).countersNeedUpdate →
        (updated algorithm raw' (BitVec.ofNat width time') s).lastTime =
          BitVec.ofNat width time') ∧
      (∀ place, Running ((updated algorithm raw' (BitVec.ofNat width time') s).debounceCounters
        place) → (updated algorithm raw' (BitVec.ofNat width time') s).countersNeedUpdate) ∧
      ((updated algorithm raw' (BitVec.ofNat width time') s).matrixNeedUpdate = false →
        raw' = raw → ∀ place, algorithm.settle (units.read raw' place)
          ((updated algorithm raw' (BitVec.ofNat width time') s).cell place) =
            (updated algorithm raw' (BitVec.ofNat width time') s).cell place) := by
  unfold updated
  by_cases asks : s.countersNeedUpdate = true
  swap
  · -- no counter runs
    have still (place : units.Place) : ¬Running (s.debounceCounters place) :=
      fun runs => asks (between.watched place runs)
    rw [if_neg asks]
    exact ⟨fun place => (lawful.update_rested _ _ _ _ (still place)).symm,
      fun up => absurd up asks, fun place runs => absurd runs (still place),
      fun _ same => same ▸ between.settled⟩
  · obtain ⟨later, unwrapped⟩ := spaced asks
    have elapsed := toNat_elapsed later unwrapped
    rw [if_pos asks, between.timed asks, elapsed]
    dsimp only
    by_cases passed : 0 < min (time' - time) 255
    · rw [if_pos passed]
      refine ⟨fun place => cell_updateDebounceCounters algorithm raw' _ _ place, fun _ =>
        foldl_visit_lastTime _ _ _ _, fun place runs => ?_, fun down same place => ?_⟩
      · have counter := congrArg Cell.counter (cell_updateDebounceCounters algorithm
          raw' (min (time' - time) 255) { s with lastTime := BitVec.ofNat width time' } place)
        have advanced : Running (algorithm.advance (min (time' - time) 255)
            (units.read raw' place) (s.cell place)).counter := counter ▸ runs
        rw [updateDebounceCounters, foldl_visit_countersNeedUpdate, Bool.false_or,
          List.any_eq_true]
        exact ⟨place, units.complete place, lawful.update_running _ _ _ _ advanced⟩
      · rw [updateDebounceCounters, foldl_visit_matrixNeedUpdate, Bool.false_or,
          List.any_eq_false] at down
        rw [cell_updateDebounceCounters]
        have before := between.settled place
        rw [← same] at before
        exact lawful.update_settled _ _ _ _ before
          (Bool.eq_false_iff.mpr (down place (units.complete place)))
    · have none : min (time' - time) 255 = 0 := Nat.eq_zero_of_not_pos passed
      rw [if_neg passed, none]
      refine ⟨fun place => (lawful.update_zero _ _ _).symm, fun _ => rfl,
        fun place runs => between.watched place runs, fun _ same => same ▸ between.settled⟩

/-- One scan takes every place where its own machine goes. -/
theorem Between.next (raw' : Rows rows cols) (lawful : Lawful algorithm Running)
    (between : Between algorithm Running raw time s)
    (spaced : s.countersNeedUpdate → time ≤ time' ∧ time' < time + 2 ^ width) :
    Between algorithm Running raw' time'
        (debounce algorithm raw' (BitVec.ofNat width time') (decide (raw' ≠ raw)) s) ∧
      ∀ place,
        (debounce algorithm raw' (BitVec.ofNat width time') (decide (raw' ≠ raw)) s).cell place =
          algorithm.step (time' - time) (units.read raw' place) (s.cell place) := by
  have half := between.halfway raw' lawful spaced
  have unfolded : debounce algorithm raw' (BitVec.ofNat width time') (decide (raw' ≠ raw)) s =
      if decide (raw' ≠ raw) ||
          (updated algorithm raw' (BitVec.ofNat width time') s).matrixNeedUpdate then
        transferMatrixValues algorithm raw'
          { updated algorithm raw' (BitVec.ofNat width time') s with
            lastTime := BitVec.ofNat width time' }
      else updated algorithm raw' (BitVec.ofNat width time') s := rfl
  rw [unfolded]
  obtain ⟨advanced, timed, watched, settled⟩ := half
  generalize updated algorithm raw' (BitVec.ofNat width time') s = half at *
  by_cases transfers : (decide (raw' ≠ raw) || half.matrixNeedUpdate) = true
  · rw [if_pos transfers]
    have settles (place : units.Place) := cell_transferMatrixValues algorithm raw'
      { half with lastTime := BitVec.ofNat width time' } place
    refine ⟨⟨fun _ => foldl_visit_lastTime _ _ _ _, fun place runs => ?_, fun place => ?_⟩,
      fun place => ?_⟩
    · rw [transferMatrixValues, foldl_visit_countersNeedUpdate, Bool.or_eq_true, List.any_eq_true]
      have moved : Running (algorithm.settle (units.read raw' place) (half.cell place)).counter :=
        (congrArg (fun cell => Running cell.counter) (settles place)).mp runs
      rcases lawful.transfer_running _ _ _ moved with ran | raised
      · exact .inl (watched place ran)
      · exact .inr ⟨place, units.complete place, raised⟩
    · rw [settles place, lawful.transfer_settles]
    · rw [settles place]
      exact congrArg (algorithm.settle (units.read raw' place)) (advanced place)
  · rw [if_neg transfers]
    rw [Bool.or_eq_true, not_or, Bool.not_eq_true, Bool.not_eq_true, decide_eq_false_iff_not,
      not_not] at transfers
    have still := settled transfers.2 transfers.1
    refine ⟨⟨timed, watched, still⟩, fun place => ?_⟩
    rw [Algorithm.step, ← advanced place, still place]

/-! ### Runs -/

/-- Behind `n` scans, the first of which reads `raw 1` at `time 1`. -/
def after (algorithm : Algorithm Counter units.Value) (width : Nat) (raw : Nat → Rows rows cols)
    (time : Nat → Nat) : Nat → State rows cols width units Counter
  | 0 => debounceInit algorithm (raw 0)
  | n + 1 =>
    debounce algorithm (raw (n + 1)) (BitVec.ofNat width (time (n + 1)))
      (decide (raw (n + 1) ≠ raw n)) (after algorithm width raw time n)

/-- The scans are less than a timer wrap apart. -/
def Spaced (width : Nat) (time : Nat → Nat) : Prop :=
  ∀ n, 1 ≤ n → time n ≤ time (n + 1) ∧ time (n + 1) < time n + 2 ^ width

theorem Spaced.mono {times : Nat → Nat} (spaced : Spaced width times) {m n : Nat} (first : 1 ≤ m)
    (before : m ≤ n) : times m ≤ times n := by
  induction n, before using Nat.le_induction with
  | base => exact le_rfl
  | succ n before ih => exact ih.trans (spaced n (first.trans before)).1

theorem between_after (lawful : Lawful algorithm Running) (raws : Nat → Rows rows cols)
    {times : Nat → Nat} (spaced : Spaced width times) (n : Nat) :
    Between algorithm Running (raws n) (times n)
        (after algorithm width raws times n : State rows cols width units Counter) ∧
      ∀ place, (after algorithm width raws times n : State rows cols width units Counter).cell
        place = algorithm.track (fun m => units.read (raws m) place) times n := by
  induction n with
  | zero =>
    exact ⟨⟨(fun asks => by cases asks), fun place runs => absurd runs lawful.rested,
      fun place => lawful.start_settled _⟩, fun place => rfl⟩
  | succ n ih =>
    obtain ⟨between, tracked⟩ := ih
    have apart : (after algorithm width raws times n :
        State rows cols width units Counter).countersNeedUpdate →
        times n ≤ times (n + 1) ∧ times (n + 1) < times n + 2 ^ width := by
      intro asks
      cases n with
      | zero => cases asks
      | succ n => exact spaced (n + 1) (Nat.le_add_left 1 n)
    obtain ⟨next, stepped⟩ := between.next (raws (n + 1)) lawful apart
    refine ⟨next, fun place => ?_⟩
    rw [Algorithm.track, ← tracked place]
    exact stepped place

variable (units) in
/-- The matrix behind every scan holds what the machines of its places hold. -/
theorem read_after (lawful : Lawful algorithm Running) (raws : Nat → Rows rows cols)
    {times : Nat → Nat} (spaced : Spaced width times) (n : Nat) (place : units.Place) :
    units.read (after algorithm width raws times n : State rows cols width units Counter).cooked
        place = (algorithm.track (fun m => units.read (raws m) place) times n).cooked :=
  congrArg Cell.cooked ((between_after lawful raws spaced n).2 place)

end Passes

end QmkSonix.Debounce
