import Mathlib.Data.List.Induction
import QmkSonix.Split.Send

/-! Reading the slave's matrix on the master: `slave_matrix_handlers_master` of
`transactions.c`, over a transport that may lose or corrupt what it reads. -/

namespace QmkSonix.Split

open QmkSonix.Lib

abbrev Byte := BitVec 8

/-- One round of the inner loop of `crc8`. -/
def crcShift (crc : Byte) : Byte :=
  if crc &&& 0x80 ≠ 0 then (crc <<< 1) ^^^ 0x31 else crc <<< 1

/-- `crc8`, the implementation without a table -/
def crc8 (data : Vector Byte size) : Byte :=
  data.toList.foldl
    (fun crc byte => (List.range 8).foldl (fun crc _ => crcShift crc) (crc ^^^ byte)) 0xff

/-- How a read transaction ends, and what it leaves in its slot of the shared
memory. When it fails these may be any bytes. -/
structure ReadOutcome (α : Type*) where
  okay : Bool
  slot : α

/-- What one call of a reading handler meets: the clock before and after the
transactions and how its two reads would end. -/
structure ChecksummedRead (size : Nat) where
  now : BitVec 32
  later : BitVec 32
  checksum : ReadOutcome Byte
  data : ReadOutcome (Vector Byte size)

/-- A checksum and its data in the master's `split_shmem`, with the handler's
static `last_update`. -/
structure ChecksummedSlot (size : Nat) where
  checksum : Byte := 0
  data : Vector Byte size := Vector.replicate size 0
  lastUpdate : BitVec 32 := 0

section Handler

variable {size : Nat}

/-- `read_if_checksum_mismatch`. Returns what has been copied to `destination`,
if anything has. -/
def readIfChecksumMismatch (slot : ChecksummedSlot size) (read : ChecksummedRead size) :
    ChecksummedSlot size × Option (Vector Byte size) × Bool :=
  let currChecksum := read.checksum.slot
  let slot := { slot with checksum := currChecksum }
  if read.checksum.okay ∧
      (forcedSyncThrottleMs ≤ read.now - slot.lastUpdate ∨ currChecksum ≠ crc8 slot.data) then
    let slot := { slot with data := read.data.slot }
    let destination := if read.data.okay then some slot.data else none
    let okay := read.data.okay ∧ currChecksum = crc8 slot.data
    (if okay then { slot with lastUpdate := read.later } else slot, destination, okay)
  else (slot, some slot.data, read.checksum.okay)

/-- `split_shmem->smatrix` on the master, the handler's static `last_matrix`, and
`slave_matrix` as the last call left it. -/
structure MatrixSync (size : Nat) where
  smatrix : ChecksummedSlot size := {}
  lastMatrix : Vector Byte size := Vector.replicate size 0
  slaveMatrix : Vector Byte size := Vector.replicate size 0

/-- `slave_matrix_handlers_master` -/
def slaveMatrixHandlersMaster (s : MatrixSync size) (read : ChecksummedRead size) :
    MatrixSync size × Bool :=
  let result := readIfChecksumMismatch s.smatrix read
  let lastMatrix := if result.2.2 then result.2.1.getD s.lastMatrix else s.lastMatrix
  ({ smatrix := result.1, lastMatrix, slaveMatrix := lastMatrix }, result.2.2)

def ChecksummedRead.exec (s : MatrixSync size) (read : ChecksummedRead size) : MatrixSync size :=
  (slaveMatrixHandlersMaster s read).1

/-- What an observer sees of one call: its result, the checksum it received, the
shared-memory slot it left and the matrix it handed out. -/
structure MatrixCall (size : Nat) where
  okay : Bool
  checksum : Byte
  slot : Vector Byte size
  handedOut : Vector Byte size

def observe (s : MatrixSync size) (read : ChecksummedRead size) : MatrixCall size where
  okay := (slaveMatrixHandlersMaster s read).2
  checksum := read.checksum.slot
  slot := (slaveMatrixHandlersMaster s read).1.smatrix.data
  handedOut := (slaveMatrixHandlersMaster s read).1.slaveMatrix

/-- The calls of a run. -/
def observeRun : MatrixSync size → List (ChecksummedRead size) → List (MatrixCall size)
  | _, [] => []
  | s, read :: rest => observe s read :: observeRun (read.exec s) rest

/-- The matrix that the last successful call handed out, before any the zero matrix. -/
def lastSuccess (calls : List (MatrixCall size)) : Vector Byte size :=
  ((calls.filter (·.okay)).getLast?.map (·.handedOut)).getD (Vector.replicate size 0)

end Handler

section Integrity

variable {size : Nat} {s : MatrixSync size} {read : ChecksummedRead size}

/-- Data that come with success passed the checksum received in the same call,
whether they were fetched or were in the shared memory already. -/
theorem readIfChecksumMismatch_okay {slot : ChecksummedSlot size}
    (okay : (readIfChecksumMismatch slot read).2.2 = true) :
    (readIfChecksumMismatch slot read).2.1 = some (readIfChecksumMismatch slot read).1.data ∧
      crc8 (readIfChecksumMismatch slot read).1.data = read.checksum.slot := by
  by_cases fetches : read.checksum.okay = true ∧
      (forcedSyncThrottleMs ≤ read.now - slot.lastUpdate ∨ read.checksum.slot ≠ crc8 slot.data)
  · simp only [readIfChecksumMismatch, fetches, and_self, ↓reduceIte] at okay ⊢
    obtain ⟨fetched, checked⟩ := of_decide_eq_true okay
    simp only [fetched, checked, and_self, ↓reduceIte]
  · simp only [readIfChecksumMismatch, fetches, ↓reduceIte] at okay ⊢
    have same := (not_or.mp (not_and.mp fetches okay)).2
    exact ⟨trivial, (not_not.mp same).symm⟩

theorem observe_okay (okay : (observe s read).okay = true) :
    (observe s read).handedOut = (observe s read).slot ∧
      crc8 (observe s read).slot = (observe s read).checksum := by
  obtain ⟨copied, checked⟩ := readIfChecksumMismatch_okay okay
  have result : (readIfChecksumMismatch s.smatrix read).2.2 = true := okay
  refine ⟨?_, checked⟩
  simp [observe, slaveMatrixHandlersMaster, result, copied]

theorem observe_failed (failed : (observe s read).okay = false) :
    (observe s read).handedOut = s.lastMatrix := by
  have result : (readIfChecksumMismatch s.smatrix read).2.2 = false := failed
  simp [observe, slaveMatrixHandlersMaster, result]

theorem observeRun_append (s : MatrixSync size) (first second : List (ChecksummedRead size)) :
    observeRun s (first ++ second) =
      observeRun s first ++ observeRun (run ChecksummedRead.exec s first) second := by
  induction first generalizing s with
  | nil => rfl
  | cons read rest ih => simp [observeRun, ih]

theorem lastSuccess_append_one (calls : List (MatrixCall size)) (call : MatrixCall size) :
    lastSuccess (calls ++ [call]) = if call.okay then call.handedOut else lastSuccess calls := by
  unfold lastSuccess
  cases okay : call.okay with
  | true =>
    have kept : [call].filter (·.okay) = [call] := by simp [okay]
    rw [List.filter_append, kept, List.getLast?_append]
    rfl
  | false =>
    have gone : [call].filter (·.okay) = [] := by simp [okay]
    rw [List.filter_append, gone, List.append_nil]
    rfl

/-- `last_matrix` is what the last successful call handed out. -/
theorem run_lastMatrix (reads : List (ChecksummedRead size)) :
    (run ChecksummedRead.exec {} reads).lastMatrix = lastSuccess (observeRun {} reads) := by
  induction reads using List.reverseRecOn with
  | nil => rfl
  | append_singleton earlier read ih =>
    rw [run_append, run_cons, run_nil, observeRun_append]
    refine Eq.trans ?_ (lastSuccess_append_one _ _).symm
    split
    · rfl
    · rename_i failed
      rw [← ih]
      exact observe_failed (Bool.not_eq_true _ ▸ failed)

theorem observeRun_okay {s : MatrixSync size} {reads : List (ChecksummedRead size)}
    (member : call ∈ observeRun s reads) (okay : call.okay = true) :
    call.handedOut = call.slot ∧ crc8 call.slot = call.checksum := by
  induction reads generalizing s with
  | nil => cases member
  | cons read rest ih =>
    rcases List.mem_cons.mp member with rfl | later
    · exact observe_okay okay
    · exact ih later

/-- What the last successful call handed out is the zero matrix or came from one of
the calls. -/
theorem lastSuccess_cases (calls : List (MatrixCall size)) :
    lastSuccess calls = Vector.replicate size 0 ∨
      ∃ good ∈ calls, good.okay = true ∧ lastSuccess calls = good.handedOut := by
  unfold lastSuccess
  cases last : (calls.filter (·.okay)).getLast? with
  | none => exact .inl rfl
  | some good =>
    obtain ⟨member, okay⟩ := List.mem_filter.mp (List.mem_of_getLast? last)
    exact .inr ⟨good, member, okay, rfl⟩

/-- After any run, a call hands out the zero matrix or one that passed its checksum
in a successful call, and a failed call hands out what the last successful one did. -/
theorem matrix_integrity (reads : List (ChecksummedRead size)) (read : ChecksummedRead size) :
    let earlier := observeRun {} reads
    let call := observe (run ChecksummedRead.exec {} reads) read
    (call.handedOut = Vector.replicate size 0 ∨ ∃ good ∈ earlier ++ [call],
        good.okay = true ∧ call.handedOut = good.slot ∧ crc8 good.slot = good.checksum) ∧
      (call.okay = false → call.handedOut = lastSuccess earlier) := by
  intro earlier call
  have failed (ended : call.okay = false) : call.handedOut = lastSuccess earlier :=
    (observe_failed ended).trans (run_lastMatrix reads)
  refine ⟨?_, failed⟩
  cases ended : call.okay with
  | true =>
    obtain ⟨handed, checked⟩ := observe_okay ended
    exact .inr ⟨call, by simp, ended, handed, checked⟩
  | false =>
    rw [failed ended]
    rcases lastSuccess_cases earlier with zero | ⟨good, member, okay, handed⟩
    · exact .inl zero
    · obtain ⟨slot, checked⟩ := observeRun_okay member okay
      exact .inr ⟨good, by simp [member], okay, handed.trans slot, checked⟩

end Integrity

end QmkSonix.Split
