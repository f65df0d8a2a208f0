import QmkSonix.Encoder.Accounting
import QmkSonix.Split.SlaveMatrix

/-! The encoders of the other half: `encoder_handlers_master` of `transactions.c` reads the
slave's counters and `encoder_update_raw` replays their movement on the master. -/

namespace QmkSonix.Encoder

open QmkSonix.Lib
open QmkSonix.Split (ChecksummedSlot ChecksummedRead crc8 readIfChecksumMismatch
  forcedSyncThrottleMs readIfChecksumMismatch_okay)

/-- `split_shmem->encoders` with the handler's static `last_update`, and `encoder.c` on
the master. -/
structure EncoderSync (cfg : Config) where
  slot : ChecksummedSlot cfg.numberOfEncoders := {}
  encoders : State cfg

section Functions

variable {cfg : Config}

/-- `encoder_handlers_slave`: what it puts into the slave's `split_shmem->encoders`. -/
def encoderHandlersSlave (slave : State cfg) : Byte × Vector Byte cfg.numberOfEncoders :=
  (crc8 (encoderStateRaw slave), encoderStateRaw slave)

/-- `encoder_handlers_master` -/
def encoderHandlersMaster (s : EncoderSync cfg) (read : ChecksummedRead cfg.numberOfEncoders) :
    EncoderSync cfg × Bool :=
  let result := readIfChecksumMismatch s.slot read
  let encoders := match result.2.2, result.2.1 with
    | true, some tempState => (encoderUpdateRaw s.encoders tempState).1
    | _, _ => s.encoders
  ({ slot := result.1, encoders }, result.2.2)

end Functions

section Replaying

variable {cfg : Config}

/-- What the master has of one of the slave's encoders. -/
structure Mirrored where
  value : Byte
  flags : List Bool

/-- Counter-clockwise minus clockwise flags. -/
def Mirrored.net (cfg : Config) (mirrored : Mirrored) : Int :=
  mirrored.flags.count cfg.encoderCounterClockwise - mirrored.flags.count cfg.encoderClockwise

/-- Take the slave's value over, with an update for every step. -/
def Mirrored.replay (cfg : Config) (value : Byte) (mirrored : Mirrored) : Mirrored where
  value := value
  flags := mirrored.flags ++
    List.replicate (value - mirrored.value).toInt.toNat cfg.encoderCounterClockwise ++
    List.replicate (-(value - mirrored.value).toInt).toNat cfg.encoderClockwise

/-- One of the slave's encoders in the arrays of the master. -/
def lookThat (s : State cfg × Bool) (i : Fin cfg.numberOfEncoders) : Mirrored where
  value := s.1.encoderValue (i + cfg.thatHand)
  flags := (s.1.updates.filter (·.index = i + cfg.thatHand)).map (·.clockwise)

theorem hands_apart (cfg : Config) (i j : Fin cfg.numberOfEncoders) :
    i.val + cfg.thisHand ≠ j.val + cfg.thatHand := by
  have left := i.isLt
  have right := j.isLt
  unfold Config.thatHand Config.thisHand
  split
  · split <;> omega
  · omega

theorem iterate_countUp (s : State cfg) (index count : Nat) :
    (fun s => countUp s index)^[count] s = { s with
      encoderValue := Function.update s.encoderValue index (s.encoderValue index + count)
      updates := s.updates ++
        List.replicate count { index, clockwise := cfg.encoderCounterClockwise } } := by
  induction count with
  | zero => simp
  | succ count ih =>
    rw [Function.iterate_succ_apply', ih, countUp, List.replicate_succ']
    simp [add_assoc]

theorem iterate_countDown (s : State cfg) (index count : Nat) :
    (fun s => countDown s index)^[count] s = { s with
      encoderValue := Function.update s.encoderValue index (s.encoderValue index - count)
      updates := s.updates ++
        List.replicate count { index, clockwise := cfg.encoderClockwise } } := by
  induction count with
  | zero => simp
  | succ count ih =>
    rw [Function.iterate_succ_apply', ih, countDown, List.replicate_succ']
    simp [sub_sub]

/-- Counting up and down by the two halves of a difference arrives at the other value. -/
theorem add_sub_toNat (earlier later : Byte) :
    earlier + ((later - earlier).toInt.toNat : Byte) -
      ((-(later - earlier).toInt).toNat : Byte) = later := by
  have split : ((later - earlier).toInt.toNat : Byte) - ((-(later - earlier).toInt).toNat : Byte) =
      later - earlier := by
    generalize later - earlier = delta
    revert delta
    decide +kernel
  rw [add_sub_assoc, split, add_sub_cancel]

/-- The state behind one round of the loop of `encoder_update_raw`. -/
theorem replayEncoder_state (slaveState : Vector Byte cfg.numberOfEncoders) (s : State cfg × Bool)
    (i : Fin cfg.numberOfEncoders) :
    (replayEncoder slaveState s i).1 = { s.1 with
      encoderValue := Function.update s.1.encoderValue (i + cfg.thatHand) (slaveState.get i)
      updates := s.1.updates ++
        (List.replicate (slaveState.get i - s.1.encoderValue (i + cfg.thatHand)).toInt.toNat
          { index := i + cfg.thatHand, clockwise := cfg.encoderCounterClockwise } ++
        List.replicate (-(slaveState.get i - s.1.encoderValue (i + cfg.thatHand)).toInt).toNat
          { index := i + cfg.thatHand, clockwise := cfg.encoderClockwise }) } := by
  simp only [replayEncoder, iterate_countUp, iterate_countDown, Function.update_self,
    Function.update_idem, add_sub_toNat, List.append_assoc]

theorem filter_map_replicate (index other count : Nat) (clockwise : Bool) :
    ((List.replicate count ({ index := other, clockwise } : Update)).filter (·.index = index)).map
      (·.clockwise) = if other = index then List.replicate count clockwise else [] := by
  rw [List.filter_replicate]
  by_cases same : other = index <;> simp [same]

/-- Each round replays its own encoder, and no other. -/
theorem replayEncoder_locally (slaveState : Vector Byte cfg.numberOfEncoders) :
    Locally lookThat (replayEncoder slaveState)
      fun i mirrored => mirrored.replay cfg (slaveState.get i) where
  here s i := by
    simp only [lookThat, replayEncoder_state, Function.update_self, List.filter_append,
      List.map_append, filter_map_replicate, ↓reduceIte, Mirrored.replay, List.append_assoc]
  elsewhere s i other apart := by
    have places : i.val ≠ other.val := fun same => apart (Fin.ext same.symm)
    have indices : i.val + cfg.thatHand ≠ other.val + cfg.thatHand := by omega
    simp only [lookThat, replayEncoder_state, Function.update_of_ne indices.symm,
      List.filter_append, List.map_append, filter_map_replicate, indices, ↓reduceIte,
      List.append_nil]

theorem lookThat_encoderUpdateRaw (s : State cfg) (slaveState : Vector Byte cfg.numberOfEncoders)
    (i : Fin cfg.numberOfEncoders) :
    lookThat (encoderUpdateRaw s slaveState) i =
      (lookThat (s, false) i).replay cfg (slaveState.get i) :=
  (replayEncoder_locally slaveState).foldl_here (List.nodup_finRange _) (List.mem_finRange i) _

/-- No round touches the master's own encoders. -/
theorem look_encoderUpdateRaw (s : State cfg) (slaveState : Vector Byte cfg.numberOfEncoders)
    (i : Fin cfg.numberOfEncoders) : look (encoderUpdateRaw s slaveState) i = look (s, false) i := by
  rw [encoderUpdateRaw]
  have each (rounds : List (Fin cfg.numberOfEncoders)) (t : State cfg × Bool) :
      look (rounds.foldl (replayEncoder slaveState) t) i = look t i := by
    induction rounds generalizing t with
    | nil => rfl
    | cons first rest ih =>
      have apart := hands_apart cfg i first
      rw [List.foldl_cons, ih]
      simp only [look, replayEncoder_state, Function.update_of_ne apart, List.filter_append,
        List.map_append, filter_map_replicate, apart.symm, ↓reduceIte, List.append_nil]
  exact each _ _

/-- The master's own readings do not touch the other half. -/
theorem lookThat_encoderRead (s : State cfg) (pads : Fin cfg.numberOfEncoders → Pads)
    (i : Fin cfg.numberOfEncoders) : lookThat (encoderRead s pads) i = lookThat (s, false) i := by
  rw [encoderRead]
  have each (rounds : List (Fin cfg.numberOfEncoders)) (t : State cfg × Bool) :
      lookThat (rounds.foldl (readEncoder pads) t) i = lookThat t i := by
    induction rounds generalizing t with
    | nil => rfl
    | cons first rest ih =>
      have apart := hands_apart cfg first i
      rw [List.foldl_cons, ih]
      simp only [lookThat, readEncoder, encoderUpdate]
      split <;> split <;> simp [countUp, countDown, Function.update_of_ne apart.symm, apart]
  exact each _ _

end Replaying

section Runs

variable {cfg : Config}

/-- The slave's 8-bit counters at the given positions. -/
def counters (positions : Fin cfg.numberOfEncoders → Int) : Vector Byte cfg.numberOfEncoders :=
  Vector.ofFn fun i => BitVec.ofInt 8 (positions i)

theorem get_counters (positions : Fin cfg.numberOfEncoders → Int) (i : Fin cfg.numberOfEncoders) :
    (counters positions).get i = BitVec.ofInt 8 (positions i) := by
  simp only [counters, Vector.get, Vector.toArray_ofFn, Array.getElem_ofFn]
  rfl

/-- One call of `encoder_handlers_master`: the clock before and after its transactions,
where the slave's encoders stand when its checksum and when its data are read, which of
the two reads arrive, and the bytes that those leave which do not. -/
structure SyncCall (cfg : Config) where
  now : BitVec 32
  later : BitVec 32
  checked : Fin cfg.numberOfEncoders → Int
  sent : Fin cfg.numberOfEncoders → Int
  checksumOkay : Bool := true
  dataOkay : Bool := true
  brokenChecksum : Byte := 0
  brokenData : Vector Byte cfg.numberOfEncoders := Vector.replicate _ 0

/-- What the two reads find in the slave's memory, as `encoder_handlers_slave` fills it. -/
def SyncCall.read (call : SyncCall cfg) : ChecksummedRead cfg.numberOfEncoders where
  now := call.now
  later := call.later
  checksum := if call.checksumOkay then { okay := true, slot := crc8 (counters call.checked) }
    else { okay := false, slot := call.brokenChecksum }
  data := if call.dataOkay then { okay := true, slot := counters call.sent }
    else { okay := false, slot := call.brokenData }

/-- The data are read when the throttle time is up or the checksums differ. -/
def EncoderSync.fetches (s : EncoderSync cfg) (call : SyncCall cfg) : Prop :=
  forcedSyncThrottleMs ≤ call.now - s.slot.lastUpdate ∨
    crc8 (counters call.checked) ≠ crc8 s.slot.data

instance (s : EncoderSync cfg) (call : SyncCall cfg) : Decidable (s.fetches call) :=
  inferInstanceAs (Decidable (_ ∨ _))

/-- Where the slave's encoders stand for a call that succeeds. -/
def EncoderSync.position (s : EncoderSync cfg) (call : SyncCall cfg) :
    Fin cfg.numberOfEncoders → Int :=
  if s.fetches call then call.sent else call.checked

/-- The master, with the slave's positions at the last successful sync. -/
structure Master (cfg : Config) where
  sync : EncoderSync cfg
  accepted : Fin cfg.numberOfEncoders → Int := fun _ => 0

/-- What happens on the master: it reads its own encoders, or syncs. -/
inductive Event (cfg : Config) where
  | read (pads : Fin cfg.numberOfEncoders → Pads)
  | sync (call : SyncCall cfg)

namespace Master

def exec (s : Master cfg) : Event cfg → Master cfg
  | .read pads => { s with sync := { s.sync with encoders := (encoderRead s.sync.encoders pads).1 } }
  | .sync call =>
    let result := encoderHandlersMaster s.sync call.read
    { sync := result.1
      accepted := if result.2 then s.sync.position call else s.accepted }

/-- A freshly started master. -/
def start (pads : Fin cfg.numberOfEncoders → Pads) : Master cfg :=
  { sync := { encoders := encoderInit pads } }

/-- The slave has moved by at most 127 since the last successful sync. -/
def Slow (s : Master cfg) (call : SyncCall cfg) : Prop :=
  ∀ i, |s.sync.position call i - s.accepted i| ≤ 127

/-- Where no data are read, equal checksums mean equal data. -/
def NoCollision (s : Master cfg) (call : SyncCall cfg) : Prop :=
  ¬s.sync.fetches call → s.sync.slot.data = counters call.checked

instance (s : Master cfg) (call : SyncCall cfg) : Decidable (s.Slow call) :=
  inferInstanceAs (Decidable (∀ _, _))

instance (s : Master cfg) (call : SyncCall cfg) : Decidable (s.NoCollision call) :=
  inferInstanceAs (Decidable (_ → _))

/-- A sync that succeeds is in time and meets no collision. -/
def Allowed (s : Master cfg) : Event cfg → Prop
  | .read _ => True
  | .sync call => (encoderHandlersMaster s.sync call.read).2 = true →
      s.Slow call ∧ s.NoCollision call

instance (s : Master cfg) : ∀ event, Decidable (s.Allowed event)
  | .read _ => isTrue trivial
  | .sync call => inferInstanceAs (Decidable (_ → s.Slow call ∧ s.NoCollision call))

end Master

/-- A read of the counters that succeeds hands out the slave's. -/
theorem readIfChecksumMismatch_delivers {s : EncoderSync cfg} {call : SyncCall cfg}
    (okay : (readIfChecksumMismatch s.slot call.read).2.2 = true)
    (noCollision : ¬s.fetches call → s.slot.data = counters call.checked) :
    (readIfChecksumMismatch s.slot call.read).2.1 = some (counters (s.position call)) := by
  have handed := (readIfChecksumMismatch_okay okay).1
  cases arrived : call.checksumOkay with
  | false => simp [readIfChecksumMismatch, SyncCall.read, arrived] at okay
  | true =>
    by_cases fetches : s.fetches call
    · have reads : forcedSyncThrottleMs ≤ call.read.now - s.slot.lastUpdate ∨
          call.read.checksum.slot ≠ crc8 s.slot.data := by
        simpa [SyncCall.read, arrived, EncoderSync.fetches] using fetches
      have checksumOkay : call.read.checksum.okay = true := by simp [SyncCall.read, arrived]
      simp only [readIfChecksumMismatch, checksumOkay, reads, and_self, ↓reduceIte,
        decide_eq_true_eq] at okay ⊢
      cases data : call.dataOkay with
      | false => simp [SyncCall.read, data] at okay
      | true => simp [EncoderSync.position, fetches, SyncCall.read, data]
    · have keeps : ¬(forcedSyncThrottleMs ≤ call.read.now - s.slot.lastUpdate ∨
          call.read.checksum.slot ≠ crc8 s.slot.data) := by
        simpa [SyncCall.read, arrived, EncoderSync.fetches] using fetches
      simp only [readIfChecksumMismatch, keeps, and_false, ↓reduceIte]
      rw [noCollision fetches, EncoderSync.position, if_neg fetches]

/-- The master has replayed the slave's movement up to a position. -/
def Mirrored.At (cfg : Config) (position : Int) (mirrored : Mirrored) : Prop :=
  mirrored.value = BitVec.ofInt 8 position ∧ mirrored.net cfg = position

/-- Taking over a value that is at most 127 away replays exactly the way to it. -/
theorem Mirrored.At.replay {earlier later : Int} {mirrored : Mirrored}
    (located : mirrored.At cfg earlier) (slow : |later - earlier| ≤ 127) :
    (mirrored.replay cfg (BitVec.ofInt 8 later)).At cfg later := by
  obtain ⟨value, net⟩ := located
  obtain ⟨low, high⟩ := abs_le.mp slow
  have delta : (BitVec.ofInt 8 later - mirrored.value).toInt = later - earlier := by
    have difference : BitVec.ofInt 8 later - BitVec.ofInt 8 earlier =
        BitVec.ofInt 8 (later - earlier) := by
      rw [sub_eq_iff_eq_add, ← BitVec.ofInt_add, sub_add_cancel]
    rw [value, difference, ofInt_toInt_of_small (by omega) (by omega)]
  refine ⟨rfl, ?_⟩
  rw [Mirrored.net] at net
  have apart : cfg.encoderCounterClockwise ≠ cfg.encoderClockwise := by
    simp [Config.encoderCounterClockwise, Config.encoderClockwise]
  simp only [Mirrored.net, Mirrored.replay, delta, List.count_append, List.count_replicate_self,
    List.count_replicate, beq_eq_false_iff_ne.mpr apart, beq_eq_false_iff_ne.mpr apart.symm,
    Bool.false_eq_true, ↓reduceIte]
  omega

/-- The handler either replays the slave's counters or leaves the encoders alone. -/
theorem encoderHandlersMaster_encoders {s : EncoderSync cfg} {call : SyncCall cfg}
    (noCollision : (encoderHandlersMaster s call.read).2 = true →
      ¬s.fetches call → s.slot.data = counters call.checked) :
    (encoderHandlersMaster s call.read).1.encoders =
      if (encoderHandlersMaster s call.read).2 then
        (encoderUpdateRaw s.encoders (counters (s.position call))).1 else s.encoders := by
  cases okay : (encoderHandlersMaster s call.read).2 with
  | false =>
    have failed : (readIfChecksumMismatch s.slot call.read).2.2 = false := okay
    simp [encoderHandlersMaster, failed]
  | true =>
    have succeeds : (readIfChecksumMismatch s.slot call.read).2.2 = true := okay
    have delivered := readIfChecksumMismatch_delivers succeeds (noCollision okay)
    simp only [encoderHandlersMaster, succeeds, delivered, ↓reduceIte]

/-- What the master has of the slave's encoders stands at the last successful sync. -/
def Master.Follows (s : Master cfg) : Prop :=
  ∀ i, (lookThat (s.sync.encoders, false) i).At cfg (s.accepted i)

theorem Master.follows_start (pads : Fin cfg.numberOfEncoders → Pads) :
    (Master.start pads).Follows := fun _ => ⟨rfl, rfl⟩

/-- A reading changes nothing of the other half. -/
theorem Master.Follows.read {s : Master cfg} (follows : s.Follows)
    (pads : Fin cfg.numberOfEncoders → Pads) : (s.exec (.read pads)).Follows := by
  intro i
  have unchanged := lookThat_encoderRead s.sync.encoders pads i
  have located := follows i
  rw [← unchanged] at located
  exact located

/-- A sync takes the slave's positions over, or leaves everything as it is. -/
theorem Master.Follows.sync {s : Master cfg} (follows : s.Follows) {call : SyncCall cfg}
    (allowed : s.Allowed (.sync call)) : (s.exec (.sync call)).Follows := by
  intro i
  have encoders := encoderHandlersMaster_encoders fun okay => (allowed okay).2
  show (lookThat ((encoderHandlersMaster s.sync call.read).1.encoders, false) i).At cfg
    ((if (encoderHandlersMaster s.sync call.read).2 then s.sync.position call else s.accepted) i)
  rw [encoders]
  cases okay : (encoderHandlersMaster s.sync call.read).2 with
  | false => exact follows i
  | true =>
    have replayed := lookThat_encoderUpdateRaw s.sync.encoders (counters (s.sync.position call)) i
    have value : (counters (s.sync.position call)).get i =
        BitVec.ofInt 8 (s.sync.position call i) := get_counters _ i
    have located := (follows i).replay ((allowed okay).1 i)
    rw [← value, ← replayed] at located
    exact located

theorem Master.follows_run (pads : Fin cfg.numberOfEncoders → Pads) {events : List (Event cfg)}
    (allowed : Along Master.exec Master.Allowed (Master.start pads) events) :
    (run Master.exec (Master.start pads) events).Follows := by
  refine run_invariant (fun s event follows allows => ?_) (Master.follows_start pads) allowed
  cases event with
  | read pads => exact follows.read pads
  | sync call => exact follows.sync allows

/-- After every run in which the syncs that succeed are in time and meet no collision, the
updates of each remote encoder add up to the slave's movement until the last successful
sync and the mirrored value is the slave's there. A sync that succeeds gets the slave's
present positions, one that fails sends no update, and none touches the own encoders. -/
theorem replay_follows (cfg : Config) (pads : Fin cfg.numberOfEncoders → Pads)
    (events : List (Event cfg))
    (allowed : Along Master.exec Master.Allowed (Master.start pads) events) :
    let s := run Master.exec (Master.start pads) events
    (∀ i : Fin cfg.numberOfEncoders,
        net cfg s.sync.encoders.updates (i + cfg.thatHand) = s.accepted i ∧
        s.sync.encoders.encoderValue (i + cfg.thatHand) = BitVec.ofInt 8 (s.accepted i)) ∧
      ∀ call : SyncCall cfg, s.Allowed (.sync call) →
        let later := s.exec (.sync call)
        let okay := (encoderHandlersMaster s.sync call.read).2
        (okay = false → later.sync.encoders = s.sync.encoders) ∧
        (okay = true → ∀ i : Fin cfg.numberOfEncoders,
          net cfg later.sync.encoders.updates (i + cfg.thatHand) = s.sync.position call i ∧
          later.sync.encoders.encoderValue (i + cfg.thatHand) =
            BitVec.ofInt 8 (s.sync.position call i)) ∧
        ∀ i : Fin cfg.numberOfEncoders,
          look (later.sync.encoders, false) i = look (s.sync.encoders, false) i := by
  intro s
  have located {t : Master cfg} (follows : t.Follows) (i : Fin cfg.numberOfEncoders) :
      net cfg t.sync.encoders.updates (i + cfg.thatHand) = t.accepted i ∧
        t.sync.encoders.encoderValue (i + cfg.thatHand) = BitVec.ofInt 8 (t.accepted i) := by
    obtain ⟨value, nets⟩ := follows i
    refine ⟨?_, value⟩
    rw [net, ← count_filter_index, ← count_filter_index]
    exact nets
  have follows : s.Follows := Master.follows_run pads allowed
  refine ⟨located follows, fun call allows => ?_⟩
  intro later okay
  have encoders : later.sync.encoders = if okay then
      (encoderUpdateRaw s.sync.encoders (counters (s.sync.position call))).1
      else s.sync.encoders := encoderHandlersMaster_encoders fun succeeds => (allows succeeds).2
  refine ⟨fun fails => ?_, fun succeeds i => ?_, fun i => ?_⟩
  · rw [encoders, fails]
    rfl
  · have accepted : later.accepted = s.sync.position call := if_pos succeeds
    rw [← accepted]
    exact located (follows.sync allows) i
  · rw [encoders]
    split
    · exact look_encoderUpdateRaw _ _ i
    · rfl

/-- Two encoders on each half. -/
def twoEncoders : Config where
  numberOfEncoders := 2
  encoderResolutions := fun _ => 4
  splitKeyboard := true

/-- The slave's encoders turn by 1 and by 49 before the first sync. The checksum is that of
the zeros that the master has, so the sync succeeds without reading them. -/
theorem collision_breaks :
    let s := (Master.start fun _ => { a := false, b := false } : Master twoEncoders)
    let turned : Fin twoEncoders.numberOfEncoders → Int := ![1, 49]
    let call : SyncCall twoEncoders := { now := 10, later := 11, checked := turned, sent := turned }
    (∀ i, |turned i - s.accepted i| ≤ 127) ∧
      (encoderHandlersMaster s.sync call.read).2 = true ∧
      (s.exec (.sync call)).sync.encoders.updates = [] ∧
      ∀ i : Fin twoEncoders.numberOfEncoders,
        (s.exec (.sync call)).sync.encoders.encoderValue (i + twoEncoders.thatHand) ≠
          BitVec.ofInt 8 (turned i) := by
  decide +kernel

/-- A turn back below zero that is synced after one read was lost. -/
theorem lost_read_replayed :
    let pads : Fin twoEncoders.numberOfEncoders → Pads := fun _ => { a := false, b := false }
    let turned : Fin twoEncoders.numberOfEncoders → Int := ![-3, 2]
    let lost : SyncCall twoEncoders :=
      { now := 10, later := 11, checked := turned, sent := turned, dataOkay := false }
    let call : SyncCall twoEncoders := { now := 12, later := 13, checked := turned, sent := turned }
    let s := run Master.exec (Master.start pads) [.sync lost, .sync call]
    s.accepted (0 : Fin 2) = -3 ∧ s.accepted (1 : Fin 2) = 2 ∧
      ∀ i : Fin twoEncoders.numberOfEncoders,
          net twoEncoders s.sync.encoders.updates (i + twoEncoders.thatHand) = s.accepted i := by
  intro pads turned lost call s
  have follows := replay_follows twoEncoders pads [.sync lost, .sync call] (by decide +kernel)
  exact ⟨by decide +kernel, by decide +kernel, fun i => (follows.1 i).1⟩

end Runs

end QmkSonix.Encoder
