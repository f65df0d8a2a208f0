import QmkSonix.Lib.Run
import QmkSonix.ExternalEeprom.Address

/-! `eeprom_transient.c`: an EEPROM kept in an array of RAM, whose blocks are clamped to the
size of the array in the arithmetic of `size_t`. -/

namespace QmkSonix.ExternalEeprom.Transient

open QmkSonix.Lib

/-- The size of the array on a machine whose pointers have `width` bits. -/
structure Config (width : ℕ) where
  /-- `TRANSIENT_EEPROM_SIZE` -/
  size : ℕ
  /-- No array is as large as half of the address space. -/
  object : size < 2 ^ (width - 1)

variable {width : ℕ} (cfg : Config width)

/-- `TRANSIENT_EEPROM_SIZE` as a `size_t` -/
def Config.sizeWord : BitVec width := BitVec.ofNat width cfg.size

/-- `clamp_length` -/
def clampLength (offset len : BitVec width) : BitVec width :=
  if cfg.sizeWord < offset + len then cfg.sizeWord - offset else len

/-- A `memcpy` of `len` bytes at `transientBuffer[offset]` stays inside of the array; the
offset is an `intptr_t`. -/
def Inside (offset len : BitVec width) : Prop :=
  0 ≤ offset.toInt ∧ offset.toInt + len.toNat ≤ cfg.size

instance (offset len : BitVec width) : Decidable (Inside cfg offset len) :=
  inferInstanceAs (Decidable (_ ∧ _))

/-- The array, and what the last `eeprom_read_block` has left in its buffer. -/
structure Driver where
  transientBuffer : Memory
  buf : Memory

/-- `eeprom_driver_erase` -/
def erase (driver : Driver) : Driver := { driver with transientBuffer := fun _ => 0 }

/-- `eeprom_read_block`, if it accesses nothing outside of the array -/
def readBlock (driver : Driver) (addr len : BitVec width) : Option Driver :=
  let buf := splice driver.buf 0 len.toNat fun _ => 0
  let len := clampLength cfg addr len
  if 0 < len then
    if Inside cfg addr len then
      some { driver with
        buf := splice buf 0 len.toNat fun i => driver.transientBuffer (addr.toNat + i) }
    else none
  else some { driver with buf := buf }

/-- `eeprom_write_block`, if it accesses nothing outside of the array -/
def writeBlock (driver : Driver) (buf : Memory) (addr len : BitVec width) : Option Driver :=
  let len := clampLength cfg addr len
  if 0 < len then
    if Inside cfg addr len then
      some { driver with
        transientBuffer := splice driver.transientBuffer addr.toNat len.toNat buf }
    else none
  else some driver

/-- A call of the driver. -/
inductive Call (width : ℕ) where
  | readBlock (addr len : BitVec width)
  | writeBlock (buf : Memory) (addr len : BitVec width)
  | erase

/-- What a call does, or `none` once something outside of the array was accessed. -/
def step : Option Driver → Call width → Option Driver
  | none, _ => none
  | some driver, .readBlock addr len => readBlock cfg driver addr len
  | some driver, .writeBlock buf addr len => writeBlock cfg driver buf addr len
  | some driver, .erase => some (erase driver)

/-- `eeprom_driver_init`, over whatever the buffer of the first read holds -/
def init (buf : Memory) : Option Driver := some (erase { transientBuffer := fun _ => 0, buf := buf })

section Purpose

/-- The byte that a call writes to a position. -/
def Call.byteAt (call : Call width) (position : ℕ) : Option Byte :=
  match call with
  | .readBlock _ _ => none
  | .writeBlock buf addr len =>
    if addr.toNat ≤ position ∧ position < addr.toNat + len.toNat then
      some (buf (position - addr.toNat))
    else none
  | .erase => some 0

/-- The byte last written to a position, zero before the first. -/
def lastWritten (calls : List (Call width)) (position : ℕ) : Byte :=
  calls.foldl (fun byte call => (call.byteAt position).getD byte) 0

/-- Behind the calls nothing outside of the array was accessed, every position of the array
holds the byte last written to it, and a read that has just returned gave these bytes, and
zeros beyond the end. -/
def IsByteArray (buf : Memory) (calls : List (Call width)) : Prop :=
  ∃ driver, run (step cfg) (init buf) calls = some driver ∧
    (∀ position < cfg.size, driver.transientBuffer position = lastWritten calls position) ∧
    ∀ addr len, calls.getLast? = some (.readBlock addr len) → ∀ i < len.toNat,
      driver.buf i =
        if addr.toNat + i < cfg.size then lastWritten calls (addr.toNat + i) else 0

/-- The block of a call starts in the array, or at its end, and its own end does not leave
the address space. -/
def Call.Fits : Call width → Prop
  | .readBlock addr len | .writeBlock _ addr len =>
    addr.toNat ≤ cfg.size ∧ addr.toNat + len.toNat < 2 ^ width
  | .erase => True

end Purpose

section Clamp

theorem two_mul_size : 2 * cfg.size < 2 ^ width := by
  have object := cfg.object
  cases width with
  | zero => simp_all
  | succ width => rw [Nat.pow_succ, Nat.add_sub_cancel] at *; omega

theorem sizeWord_toNat : cfg.sizeWord.toNat = cfg.size := by
  have half := two_mul_size cfg
  exact Nat.mod_eq_of_lt (by omega)

/-- An access that stays inside is one between the bounds of the array. -/
theorem inside_iff (offset len : BitVec width) :
    Inside cfg offset len ↔ offset.toNat + len.toNat ≤ cfg.size := by
  have half := two_mul_size cfg
  have offsetBound := offset.isLt
  unfold Inside
  rw [BitVec.toInt_eq_toNat_cond]
  split <;> omega

/-- A block that fits is clamped to the part of it inside of the array. -/
theorem clampLength_fits {addr len : BitVec width} (starts : addr.toNat ≤ cfg.size)
    (ends : addr.toNat + len.toNat < 2 ^ width) :
    (clampLength cfg addr len).toNat = min len.toNat (cfg.size - addr.toNat) := by
  have size := sizeWord_toNat cfg
  simp only [clampLength, BitVec.lt_def, BitVec.toNat_add, Nat.mod_eq_of_lt ends, size]
  split
  · rw [BitVec.toNat_sub_of_le (by rw [BitVec.le_def]; omega), size]
    omega
  · omega

/-- A block that does not fit is clamped to some length, and leaves the array with it. -/
theorem outside_of_not_fits {addr len : BitVec width}
    (outside : ¬ (addr.toNat ≤ cfg.size ∧ addr.toNat + len.toNat < 2 ^ width)) :
    0 < clampLength cfg addr len ∧ ¬ Inside cfg addr (clampLength cfg addr len) := by
  have size := sizeWord_toNat cfg
  have half := two_mul_size cfg
  have addrBound := addr.isLt
  have lenBound := len.isLt
  have zero : (0 : BitVec width).toNat = 0 := BitVec.toNat_ofNat 0 width
  rw [inside_iff]
  simp only [clampLength, BitVec.lt_def, BitVec.toNat_add, zero, size]
  by_cases starts : addr.toNat ≤ cfg.size
  · -- the end leaves the address space, and its wrapped sum is below the size
    have wraps : (addr.toNat + len.toNat) % 2 ^ width = addr.toNat + len.toNat - 2 ^ width := by
      rw [Nat.mod_eq_sub_mod (by omega), Nat.mod_eq_of_lt (by omega)]
    rw [wraps, if_neg (by omega)]
    omega
  · refine ⟨?_, by omega⟩
    split
    · rw [BitVec.toNat_sub, size, Nat.mod_eq_of_lt (by omega)]
      omega
    · rename_i kept
      by_contra nothing
      rw [Nat.eq_zero_of_not_pos nothing, Nat.add_zero, Nat.mod_eq_of_lt addrBound] at kept
      omega

end Clamp

section Calls

variable {cfg}

/-- A driver that holds what the calls before have last written. -/
def Driver.Holds (driver : Driver) (size : ℕ) (calls : List (Call width)) : Prop :=
  ∀ position < size, driver.transientBuffer position = lastWritten calls position

theorem lastWritten_concat (calls : List (Call width)) (call : Call width) (position : ℕ) :
    lastWritten (calls ++ [call]) position =
      (call.byteAt position).getD (lastWritten calls position) := by
  simp [lastWritten]

/-- A read that fits gives the bytes of the array, and zeros beyond its end. -/
theorem readBlock_fits (driver : Driver) {addr len : BitVec width}
    (starts : addr.toNat ≤ cfg.size) (ends : addr.toNat + len.toNat < 2 ^ width) :
    ∃ after, readBlock cfg driver addr len = some after ∧
      after.transientBuffer = driver.transientBuffer ∧
      ∀ i < len.toNat, after.buf i =
        if addr.toNat + i < cfg.size then driver.transientBuffer (addr.toNat + i) else 0 := by
  have clamped := clampLength_fits cfg starts ends
  unfold readBlock
  dsimp only
  by_cases some : 0 < clampLength cfg addr len
  · have inside : Inside cfg addr (clampLength cfg addr len) := by rw [inside_iff]; omega
    rw [if_pos some, if_pos inside]
    refine ⟨_, rfl, rfl, fun i below => ?_⟩
    simp only [splice, clamped]
    by_cases held : addr.toNat + i < cfg.size
    · rw [if_pos (by omega), if_pos held, Nat.sub_zero]
    · rw [if_neg (by omega), if_pos (by omega), if_neg held]
  · have nothing : (clampLength cfg addr len).toNat = 0 := by
      rw [BitVec.lt_def] at some
      simpa using some
    rw [if_neg some]
    refine ⟨_, rfl, rfl, fun i below => ?_⟩
    simp only [splice]
    rw [if_pos (by omega), if_neg (by omega)]

/-- A write that fits changes what its block covers of the array. -/
theorem writeBlock_fits (driver : Driver) (buf : Memory) {addr len : BitVec width}
    (starts : addr.toNat ≤ cfg.size) (ends : addr.toNat + len.toNat < 2 ^ width) :
    ∃ after, writeBlock cfg driver buf addr len = some after ∧ after.buf = driver.buf ∧
      ∀ position < cfg.size, after.transientBuffer position =
        ((Call.writeBlock buf addr len).byteAt position).getD
          (driver.transientBuffer position) := by
  have clamped := clampLength_fits cfg starts ends
  unfold writeBlock
  dsimp only [Call.byteAt]
  by_cases some : 0 < clampLength cfg addr len
  · have inside : Inside cfg addr (clampLength cfg addr len) := by rw [inside_iff]; omega
    rw [if_pos some, if_pos inside]
    refine ⟨_, rfl, rfl, fun position below => ?_⟩
    simp only [splice, clamped]
    by_cases covered : addr.toNat ≤ position ∧ position < addr.toNat + len.toNat
    · rw [if_pos (by omega), if_pos covered, Option.getD_some]
    · rw [if_neg (by omega), if_neg covered, Option.getD_none]
  · have nothing : (clampLength cfg addr len).toNat = 0 := by
      rw [BitVec.lt_def] at some
      simpa using some
    rw [if_neg some]
    refine ⟨_, rfl, rfl, fun position below => ?_⟩
    rw [if_neg (by omega), Option.getD_none]

/-- A call that fits takes a driver that holds what was last written to another one, and a
read gives what was last written. -/
theorem step_fits {driver : Driver} {calls : List (Call width)} {call : Call width}
    (holds : driver.Holds cfg.size calls) (fits : call.Fits cfg) :
    ∃ after, step cfg (some driver) call = some after ∧
      after.Holds cfg.size (calls ++ [call]) ∧
      ∀ addr len, call = .readBlock addr len → ∀ i < len.toNat, after.buf i =
        if addr.toNat + i < cfg.size then lastWritten (calls ++ [call]) (addr.toNat + i)
        else 0 := by
  cases call with
  | readBlock addr len =>
    obtain ⟨after, reads, kept, gives⟩ := readBlock_fits driver fits.1 fits.2
    have same (position : ℕ) :
        lastWritten (calls ++ [.readBlock addr len]) position = lastWritten calls position := by
      rw [lastWritten_concat]
      rfl
    refine ⟨after, reads, fun position below => ?_, ?_⟩
    · rw [kept, same, holds position below]
    · rintro addr len ⟨⟩ i below
      rw [gives i below, same]
      split
      · rename_i held
        exact holds _ held
      · rfl
  | writeBlock buf addr len =>
    obtain ⟨after, writes, -, gives⟩ := writeBlock_fits driver buf fits.1 fits.2
    refine ⟨after, writes, fun position below => ?_, fun _ _ other => nomatch other⟩
    rw [gives position below, lastWritten_concat, holds position below]
  | erase =>
    refine ⟨erase driver, rfl, fun position _ => ?_, fun _ _ other => nomatch other⟩
    rw [lastWritten_concat]
    rfl

/-- A call that does not fit accesses what is outside of the array. -/
theorem step_not_fits (driver : Option Driver) {call : Call width} (outside : ¬ call.Fits cfg) :
    step cfg driver call = none := by
  cases driver with
  | none => rfl
  | some driver =>
    cases call with
    | readBlock addr len =>
      obtain ⟨some, leaves⟩ := outside_of_not_fits cfg outside
      simp only [step, readBlock]
      rw [if_pos some, if_neg leaves]
    | writeBlock buf addr len =>
      obtain ⟨some, leaves⟩ := outside_of_not_fits cfg outside
      simp only [step, writeBlock]
      rw [if_pos some, if_neg leaves]
    | erase => exact absurd trivial outside

/-- Calls that all fit leave a driver that holds what they have last written. -/
theorem run_fits (buf : Memory) {calls : List (Call width)} (fit : ∀ call ∈ calls, call.Fits cfg) :
    ∃ driver, run (step cfg) (init buf) calls = some driver ∧ driver.Holds cfg.size calls := by
  induction calls using List.reverseRecOn with
  | nil => exact ⟨_, rfl, fun _ _ => rfl⟩
  | append_singleton earlier call ih =>
    obtain ⟨before, runs, holds⟩ := ih fun call member => fit call (List.mem_append_left _ member)
    obtain ⟨after, steps, held, -⟩ := step_fits holds (fit call (by simp))
    exact ⟨after, by rw [run_append, runs, run_cons, run_nil, steps], held⟩

theorem isByteArray_of_fits (buf : Memory) {calls : List (Call width)}
    (fit : ∀ call ∈ calls, call.Fits cfg) : IsByteArray cfg buf calls := by
  rcases List.eq_nil_or_concat calls with nothing | ⟨earlier, call, split⟩
  · subst nothing
    exact ⟨_, rfl, fun _ _ => rfl, fun _ _ none => by simp at none⟩
  · rw [List.concat_eq_append] at split
    subst split
    obtain ⟨before, runs, holds⟩ :=
      run_fits buf fun call member => fit call (List.mem_append_left _ member)
    obtain ⟨after, steps, held, gives⟩ := step_fits holds (fit call (by simp))
    refine ⟨after, by rw [run_append, runs, run_cons, run_nil, steps], held, ?_⟩
    intro addr len last
    exact gives addr len (by simpa using last)

end Calls

/-- The driver is a bounded array of bytes behind each of its calls exactly when every block
starts in the array or at its end and does not leave the address space. -/
theorem byteArray_iff_fits (buf : Memory) (calls : List (Call width)) :
    (∀ cut, IsByteArray cfg buf (calls.take cut)) ↔ ∀ call ∈ calls, call.Fits cfg := by
  constructor
  · intro always call member
    obtain ⟨earlier, later, rfl⟩ := List.append_of_mem member
    have cut := always (earlier.length + 1)
    rw [List.take_append, List.take_of_length_le (by omega), Nat.add_sub_cancel_left,
      List.take_succ_cons, List.take_zero] at cut
    obtain ⟨driver, runs, -⟩ := cut
    by_contra outside
    rw [run_append, run_cons, run_nil, step_not_fits _ outside] at runs
    cases runs
  · intro fit cut
    exact isByteArray_of_fits buf fun call member => fit call (List.mem_of_mem_take member)

/-- An array of 1024 bytes on a machine with pointers of 32 bits. -/
def kilobyte : Config 32 where
  size := 1024
  object := by decide

/-- A read of four bytes that starts behind the array is clamped to almost the whole address
space. -/
theorem read_behind_end_breaks :
    ¬ IsByteArray kilobyte (fun _ => 0) [.readBlock 1025#32 4#32] := by
  have outside : ¬ (Call.readBlock 1025#32 4#32).Fits kilobyte :=
    fun fits => absurd (And.left fits) (by decide)
  rintro ⟨driver, runs, -⟩
  rw [run_cons, run_nil, step_not_fits _ outside] at runs
  cases runs

end QmkSonix.ExternalEeprom.Transient
