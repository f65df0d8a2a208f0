import Mathlib
import QmkSonix.Matrix.Scan

/-! The debounce algorithms with counters: `sym_defer_pk`, `sym_eager_pk`, `sym_eager_pr`
and `asym_eager_defer_pk`. They share `debounce` and its statics, and differ in what
their two loops do with a counter and the matrix bits it stands for. -/

namespace QmkSonix.Debounce

open QmkSonix.Matrix

/-- `DEBOUNCE_ELAPSED` -/
def debounceElapsed : Nat := 0

/-- What a counter stands for: a key, or a row of keys. -/
structure Units (rows cols : Nat) where
  Place : Type
  Value : Type
  [decPlace : DecidableEq Place]
  [decValue : DecidableEq Value]
  /-- the places in the order of the loops -/
  places : List Place
  read : Rows rows cols → Place → Value
  write : Rows rows cols → Place → Value → Rows rows cols
  distinct : places.Nodup
  complete : ∀ place, place ∈ places
  read_write : ∀ matrix place value, read (write matrix place value) place = value
  read_write_of_ne : ∀ matrix place value other, other ≠ place →
    read (write matrix place value) other = read matrix other

attribute [instance] Units.decPlace Units.decValue

/-- What a loop makes of a counter and of the bits of `cooked` it stands for, and the
flags that it sets. -/
structure Visit (Counter Value : Type) where
  counter : Counter
  cooked : Value
  countersNeedUpdate : Bool := false
  matrixNeedUpdate : Bool := false

/-- The two loops of an algorithm, each by its body: the one over the counters that
`elapsed_time` has passed for, and the one over the changed matrix. -/
structure Algorithm (Counter Value : Type) where
  elapsed : Counter
  update : (elapsedTime : Nat) → (raw : Value) → Counter → Value → Visit Counter Value
  transfer : (raw : Value) → Counter → Value → Visit Counter Value

/-- The statics of an algorithm, and the matrix that it writes. The timer has `width`
bits. -/
structure State (rows cols width : Nat) (units : Units rows cols) (Counter : Type) where
  debounceCounters : units.Place → Counter
  lastTime : BitVec width := 0
  countersNeedUpdate : Bool := false
  matrixNeedUpdate : Bool := false
  cooked : Rows rows cols

section Loops

variable {rows cols width : Nat} {units : Units rows cols} {Counter : Type}

/-- One round of a loop over the places. -/
def visit (body : units.Value → Counter → units.Value → Visit Counter units.Value)
    (raw : Rows rows cols) (s : State rows cols width units Counter) (place : units.Place) :
    State rows cols width units Counter :=
  let visited := body (units.read raw place) (s.debounceCounters place)
    (units.read s.cooked place)
  { s with
    debounceCounters := Function.update s.debounceCounters place visited.counter
    cooked := units.write s.cooked place visited.cooked
    countersNeedUpdate := s.countersNeedUpdate || visited.countersNeedUpdate
    matrixNeedUpdate := s.matrixNeedUpdate || visited.matrixNeedUpdate }

/-- `update_debounce_counters` -/
def updateDebounceCounters (algorithm : Algorithm Counter units.Value) (raw : Rows rows cols)
    (elapsedTime : Nat) (s : State rows cols width units Counter) :
    State rows cols width units Counter :=
  units.places.foldl (visit (algorithm.update elapsedTime) raw)
    { s with countersNeedUpdate := false, matrixNeedUpdate := false }

/-- `transfer_matrix_values` -/
def transferMatrixValues (algorithm : Algorithm Counter units.Value) (raw : Rows rows cols)
    (s : State rows cols width units Counter) : State rows cols width units Counter :=
  units.places.foldl (visit algorithm.transfer raw) s

/-- `debounce`, at the time `now` of `timer_read_fast`. -/
def debounce (algorithm : Algorithm Counter units.Value) (raw : Rows rows cols)
    (now : BitVec width) (changed : Bool) (s : State rows cols width units Counter) :
    State rows cols width units Counter :=
  let updated :=
    if s.countersNeedUpdate then
      let elapsedTime := min (now - s.lastTime).toNat 255
      let timed := { s with lastTime := now }
      if 0 < elapsedTime then updateDebounceCounters algorithm raw elapsedTime timed else timed
    else s
  if changed || updated.matrixNeedUpdate then
    transferMatrixValues algorithm raw { updated with lastTime := now }
  else updated

/-- `debounce_init` -/
def debounceInit (algorithm : Algorithm Counter units.Value) (matrix : Rows rows cols) :
    State rows cols width units Counter where
  debounceCounters := fun _ => algorithm.elapsed
  cooked := matrix

end Loops

/-! ### Keys and rows -/

section Kinds

variable {rows cols : Nat}

/-- Put a bit of a row, as the loops do by its `col_mask`. -/
def setBit (row : BitVec cols) (col : Fin cols) (bit : Bool) : BitVec cols :=
  (row &&& ~~~BitVec.twoPow cols col) ||| (if bit then BitVec.twoPow cols col else 0)

theorem getLsbD_setBit (row : BitVec cols) (col other : Fin cols) (bit : Bool) :
    (setBit row col bit).getLsbD other = if other = col then bit else row.getLsbD other := by
  have inside := other.isLt
  by_cases same : other = col
  · subst same
    cases bit <;> simp [setBit, BitVec.getLsbD_twoPow]
  · have apart : ¬(other : Nat) = col := fun eq => same (Fin.ext eq)
    cases bit <;> simp [setBit, BitVec.getLsbD_twoPow, same, apart, Ne.symm apart]

/-- The keys, row by row. -/
def keys (rows cols : Nat) : Units rows cols where
  Place := Fin rows × Fin cols
  Value := Bool
  places := List.finRange rows ×ˢ List.finRange cols
  read matrix key := (matrix key.1).getLsbD key.2
  write matrix key bit := Function.update matrix key.1 (setBit (matrix key.1) key.2 bit)
  distinct := (List.nodup_finRange rows).product (List.nodup_finRange cols)
  complete key := List.mem_product.mpr ⟨List.mem_finRange _, List.mem_finRange _⟩
  read_write matrix key bit := by rw [Function.update_self, getLsbD_setBit, if_pos rfl]
  read_write_of_ne matrix key bit other apart := by
    by_cases sameRow : other.1 = key.1
    · have column : other.2 ≠ key.2 := fun same => apart (Prod.ext sameRow same)
      rw [sameRow, Function.update_self, getLsbD_setBit, if_neg column]
    · rw [Function.update_of_ne sameRow]

/-- The rows. -/
def wholeRows (rows cols : Nat) : Units rows cols where
  Place := Fin rows
  Value := BitVec cols
  places := List.finRange rows
  read matrix row := matrix row
  write matrix row value := Function.update matrix row value
  distinct := List.nodup_finRange rows
  complete row := List.mem_finRange row
  read_write matrix row value := Function.update_self row value matrix
  read_write_of_ne matrix row value other apart := Function.update_of_ne apart value matrix

end Kinds

/-! ### The bodies of the loops -/

/-- `sym_defer_pk`, whose loops are `update_debounce_counters_and_transfer_if_expired` and
`start_debounce_counters`. It has no `matrix_need_update`. -/
def symDeferPk (debounceTime : Nat) : Algorithm Nat Bool where
  elapsed := debounceElapsed
  update elapsedTime raw counter cooked :=
    if counter ≠ debounceElapsed then
      if counter ≤ elapsedTime then { counter := debounceElapsed, cooked := raw }
      else { counter := counter - elapsedTime, cooked := cooked, countersNeedUpdate := true }
    else { counter := counter, cooked := cooked }
  transfer raw counter cooked :=
    if raw ≠ cooked then
      if counter = debounceElapsed then
        { counter := debounceTime, cooked := cooked, countersNeedUpdate := true }
      else { counter := counter, cooked := cooked }
    else { counter := debounceElapsed, cooked := cooked }

/-- The loop `update_debounce_counters` of both eager algorithms. -/
def eagerUpdate {Value : Type} (elapsedTime : Nat) (counter : Nat) (cooked : Value) :
    Visit Nat Value :=
  if counter ≠ debounceElapsed then
    if counter ≤ elapsedTime then
      { counter := debounceElapsed, cooked := cooked, matrixNeedUpdate := true }
    else { counter := counter - elapsedTime, cooked := cooked, countersNeedUpdate := true }
  else { counter := counter, cooked := cooked }

/-- `sym_eager_pk` -/
def symEagerPk (debounceTime : Nat) : Algorithm Nat Bool where
  elapsed := debounceElapsed
  update elapsedTime _ counter cooked := eagerUpdate elapsedTime counter cooked
  transfer raw counter cooked :=
    if raw ≠ cooked then
      if counter = debounceElapsed then
        -- flip the bit
        { counter := debounceTime, cooked := !cooked, countersNeedUpdate := true }
      else { counter := counter, cooked := cooked }
    else { counter := counter, cooked := cooked }

/-- `sym_eager_pr` -/
def symEagerPr (Value : Type) [DecidableEq Value] (debounceTime : Nat) : Algorithm Nat Value where
  elapsed := debounceElapsed
  update elapsedTime _ counter cooked := eagerUpdate elapsedTime counter cooked
  transfer raw counter cooked :=
    if raw ≠ cooked then
      if counter = debounceElapsed then
        { counter := debounceTime, cooked := raw, countersNeedUpdate := true }
      else { counter := counter, cooked := cooked }
    else { counter := counter, cooked := cooked }

/-- `debounce_counter_t` of `asym_eager_defer_pk` -/
structure DirectedCounter where
  pressed : Bool := false
  time : Nat
  deriving DecidableEq

/-- `asym_eager_defer_pk` -/
def asymEagerDeferPk (debounceTime : Nat) : Algorithm DirectedCounter Bool where
  elapsed := { time := debounceElapsed }
  update elapsedTime raw counter cooked :=
    if counter.time ≠ debounceElapsed then
      if counter.time ≤ elapsedTime then
        if counter.pressed then
          -- key-down: eager
          { counter := { counter with time := debounceElapsed }, cooked := cooked
            matrixNeedUpdate := true }
        else
          -- key-up: defer
          { counter := { counter with time := debounceElapsed }, cooked := raw }
      else
        { counter := { counter with time := counter.time - elapsedTime }, cooked := cooked
          countersNeedUpdate := true }
    else { counter := counter, cooked := cooked }
  transfer raw counter cooked :=
    if raw ≠ cooked then
      if counter.time = debounceElapsed then
        { counter := { pressed := raw, time := debounceTime }
          cooked := if raw then !cooked else cooked
          countersNeedUpdate := true }
      else { counter := counter, cooked := cooked }
    else if counter.time ≠ debounceElapsed then
      if !counter.pressed then
        { counter := { counter with time := debounceElapsed }, cooked := cooked }
      else { counter := counter, cooked := cooked }
    else { counter := counter, cooked := cooked }

end QmkSonix.Debounce
