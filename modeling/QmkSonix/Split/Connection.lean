import Mathlib
import QmkSonix.Lib.Run
import QmkSonix.Split.Rpc

/-! Whether the master counts the other half as connected: `transport_master_if_connected` of
`split_util.c`, which counts the transactions that fail in a row and tries more rarely once there
are too many. -/

namespace QmkSonix.Split.Connection

open QmkSonix.Lib

structure Config where
  /-- `SPLIT_MAX_CONNECTION_ERRORS` -/
  maxConnectionErrors : BitVec 8
  /-- `SPLIT_CONNECTION_CHECK_TIMEOUT` -/
  connectionCheckTimeout : ℕ

/-- `connection_errors` and `connection_check_timer` -/
structure State where
  connectionErrors : BitVec 8 := 0
  connectionCheckTimer : BitVec 16 := 0
  deriving DecidableEq, Repr

section Functions

variable (config : Config) (state : State)

/-- `is_transport_connected` -/
def isTransportConnected : Bool := state.connectionErrors < config.maxConnectionErrors

/-- `timer_elapsed`, at a time in milliseconds -/
def timerElapsed (now : ℕ) (last : BitVec 16) : BitVec 16 := BitVec.ofNat 16 now - last

/-- The first lines of `transport_master_if_connected`: whether it returns without an attempt -/
def throttles (now : ℕ) : Bool :=
  0 < config.maxConnectionErrors ∧ 0 < config.connectionCheckTimeout ∧
    ¬isTransportConnected config state ∧
    (timerElapsed now state.connectionCheckTimer).toNat < config.connectionCheckTimeout

/-- The increment of `connection_errors`, which stops at `UINT8_MAX` -/
def countError : State :=
  if state.connectionErrors < 255 then
    { state with connectionErrors := state.connectionErrors + 1 }
  else state

/-- `transport_master_if_connected`: `transport_master` is called at `now` and returns `okay` at
`later`. -/
def transportMasterIfConnected (now later : ℕ) (okay : Bool) : State × Bool :=
  if throttles config state now then (state, false)
  else if config.maxConnectionErrors = 0 then (state, true)
  else if okay then ({ state with connectionErrors := 0 }, true)
  else
    let counted := countError state
    if 0 < config.connectionCheckTimeout then
      if isTransportConnected config counted then (counted, true)
      else ({ counted with connectionCheckTimer := BitVec.ofNat 16 later }, false)
    else ({ counted with connectionErrors := 0 }, true)

/-- `transaction_rpc_exec`: what it sends, unless it is refused -/
def transactionRpcExec (rpc : Rpc.Config) (transactionId m2sLength : BitVec 8)
    (bytes : ℕ → BitVec 8) (s2mLength : BitVec 8) : Option (List Rpc.Transaction) :=
  if !isTransportConnected config state then none
  else some (Rpc.transactionRpcExec rpc transactionId m2sLength bytes s2mLength)

end Functions

/-! ### What is promised -/

/-- An attempt to reach the other half: when it ended, and whether it succeeded -/
structure Attempt where
  ended : ℕ
  okay : Bool
  deriving DecidableEq, Repr

/-- A call of `transport_master_if_connected`: how long after the return of the one before, how long
`transport_master` takes if it is called, and what it returns -/
structure Call where
  wait : ℕ
  took : ℕ
  okay : Bool
  deriving DecidableEq, Repr

/-- The attempts so far, the latest first -/
structure Watched where
  state : State := {}
  clock : ℕ := 0
  attempts : List Attempt := []

variable (config : Config)

/-- Unless the check is disabled, so many attempts in a row make the transport disconnected. -/
def Disconnected (attempts : List Attempt) : Prop :=
  0 < config.maxConnectionErrors.toNat ∧ config.maxConnectionErrors.toNat ≤ attempts.length ∧
    ∀ attempt ∈ attempts.take config.maxConnectionErrors.toNat, attempt.okay = false

instance (attempts : List Attempt) : Decidable (Disconnected config attempts) :=
  inferInstanceAs (Decidable (_ ∧ _ ∧ _))

/-- The time since the last attempt -/
def since (attempts : List Attempt) (now : ℕ) : Option ℕ :=
  attempts.head?.map fun last => now - last.ended

def watchStep (watched : Watched) (call : Call) : Watched :=
  let now := watched.clock + call.wait
  let (state, _) :=
    transportMasterIfConnected config watched.state now (now + call.took) call.okay
  if throttles config watched.state now then { watched with state := state, clock := now }
  else
    { state := state
      clock := now + call.took
      attempts := ⟨now + call.took, call.okay⟩ :: watched.attempts }

/-- The transport counts as connected when it is. -/
structure Tracks (watched : Watched) : Prop where
  connected : isTransportConnected config watched.state = true ↔ ¬Disconnected config watched.attempts
  allowed : ∀ rpc transactionId m2sLength bytes s2mLength,
    (transactionRpcExec config watched.state rpc transactionId m2sLength bytes s2mLength).isSome ↔
      ¬Disconnected config watched.attempts

/-- What a call does: it makes an attempt unless the last one is too recent and the transport is
disconnected, it answers whether the transport is connected, and the transport counts as that. -/
structure Right (watched : Watched) (call : Call) : Prop where
  attempts : throttles config watched.state (watched.clock + call.wait) = false ↔
    (Disconnected config watched.attempts →
      ∀ elapsed ∈ since watched.attempts (watched.clock + call.wait),
        config.connectionCheckTimeout ≤ elapsed)
  answer : (transportMasterIfConnected config watched.state (watched.clock + call.wait)
      (watched.clock + call.wait + call.took) call.okay).2 = false ↔
    Disconnected config (watchStep config watched call).attempts
  tracks : Tracks config (watchStep config watched call)

/-- While the transport is disconnected, no call comes so long after the last attempt that the
16-bit timer shows less than the timeout again. -/
def Careful (watched : Watched) (call : Call) : Prop :=
  Disconnected config watched.attempts →
    ∀ elapsed ∈ since watched.attempts (watched.clock + call.wait),
      config.connectionCheckTimeout ≤ elapsed →
        config.connectionCheckTimeout ≤ elapsed % 2 ^ 16

instance (watched : Watched) (call : Call) : Decidable (Careful config watched call) :=
  inferInstanceAs (Decidable (_ → _))

/-! ### Counting -/

section Counting

theorem le_length_takeWhile_iff {Entry : Type*} {test : Entry → Bool} {entries : List Entry}
    {count : ℕ} : count ≤ (entries.takeWhile test).length ↔
      count ≤ entries.length ∧ ∀ entry ∈ entries.take count, test entry = true := by
  induction entries generalizing count with
  | nil => simp
  | cons entry rest ih =>
    cases count with
    | zero => simp
    | succ count =>
      by_cases passes : test entry = true
      · rw [List.takeWhile_cons_of_pos passes, List.length_cons, List.length_cons,
          List.take_succ_cons, List.forall_mem_cons, Nat.succ_le_succ_iff, Nat.succ_le_succ_iff, ih]
        simp [passes]
      · rw [List.takeWhile_cons_of_neg passes, List.take_succ_cons, List.forall_mem_cons]
        simp [passes]

/-- How many attempts in a row have failed -/
def failures (attempts : List Attempt) : ℕ := (attempts.takeWhile fun attempt => !attempt.okay).length

theorem failures_failed (ended : ℕ) (attempts : List Attempt) :
    failures (⟨ended, false⟩ :: attempts) = failures attempts + 1 := rfl

theorem failures_okay (ended : ℕ) (attempts : List Attempt) :
    failures (⟨ended, true⟩ :: attempts) = 0 := rfl

variable {config : Config}

theorem disconnected_iff (attempts : List Attempt) : Disconnected config attempts ↔
    0 < config.maxConnectionErrors.toNat ∧ config.maxConnectionErrors.toNat ≤ failures attempts := by
  unfold Disconnected failures
  rw [le_length_takeWhile_iff]
  simp

theorem toNat_timerElapsed {now ended : ℕ} (before : ended ≤ now) :
    (timerElapsed now (BitVec.ofNat 16 ended)).toNat = (now - ended) % 2 ^ 16 := by
  rw [timerElapsed, BitVec.toNat_sub, BitVec.toNat_ofNat, BitVec.toNat_ofNat]
  omega

theorem toNat_countError (state : State) :
    (countError state).connectionErrors.toNat = min 255 (state.connectionErrors.toNat + 1) := by
  unfold countError
  split_ifs with room
  · have below : state.connectionErrors.toNat < 255 := room
    rw [BitVec.toNat_add_of_lt (Nat.lt_of_lt_of_le (Nat.add_lt_add_right below 1) (by decide))]
    exact (Nat.min_eq_right below).symm
  · have full : ¬state.connectionErrors.toNat < 255 := room
    have bounded := state.connectionErrors.isLt
    omega

end Counting

/-! ### Every run -/

section Runs

variable {config : Config}

/-- The counter holds the failures in a row, and the timer the end of the last one if there are too
many. -/
structure Sound (config : Config) (watched : Watched) : Prop where
  counted : watched.state.connectionErrors.toNat = min 255 (failures watched.attempts)
  timed : Disconnected config watched.attempts → ∃ last, watched.attempts.head? = some last ∧
    watched.state.connectionCheckTimer = BitVec.ofNat 16 last.ended ∧ last.ended ≤ watched.clock

theorem sound_init : Sound config {} where
  counted := rfl
  timed := fun disconnected => absurd disconnected.1 (Nat.not_lt_of_ge disconnected.2.1)

theorem isTransportConnected_iff (enabled : 0 < config.maxConnectionErrors.toNat) {state : State}
    {attempts : List Attempt}
    (counted : state.connectionErrors.toNat = min 255 (failures attempts)) :
    isTransportConnected config state = true ↔ ¬Disconnected config attempts := by
  have limit := config.maxConnectionErrors.isLt
  rw [disconnected_iff, isTransportConnected, decide_eq_true_iff, BitVec.lt_def, counted]
  omega

theorem tracks_of_counted (enabled : 0 < config.maxConnectionErrors.toNat) {watched : Watched}
    (counted : watched.state.connectionErrors.toNat = min 255 (failures watched.attempts)) :
    Tracks config watched := by
  have connected := isTransportConnected_iff enabled counted
  refine ⟨connected, fun rpc transactionId m2sLength bytes s2mLength => ?_⟩
  rw [← connected, transactionRpcExec]
  cases isTransportConnected config watched.state <;> simp

theorem throttles_iff (enabled : 0 < config.maxConnectionErrors.toNat)
    (timeout : 0 < config.connectionCheckTimeout) {watched : Watched} (sound : Sound config watched)
    (wait : ℕ) : throttles config watched.state (watched.clock + wait) = true ↔
      Disconnected config watched.attempts ∧
        ∀ elapsed ∈ since watched.attempts (watched.clock + wait),
          elapsed % 2 ^ 16 < config.connectionCheckTimeout := by
  have positive : 0 < config.maxConnectionErrors := enabled
  rw [throttles, decide_eq_true_iff, isTransportConnected_iff enabled sound.counted, not_not]
  constructor
  · rintro ⟨-, -, disconnected, early⟩
    refine ⟨disconnected, ?_⟩
    obtain ⟨last, head, timer, before⟩ := sound.timed disconnected
    rw [timer, toNat_timerElapsed (Nat.le_add_right_of_le before)] at early
    simpa [since, head] using early
  · rintro ⟨disconnected, early⟩
    obtain ⟨last, head, timer, before⟩ := sound.timed disconnected
    refine ⟨positive, timeout, disconnected, ?_⟩
    rw [timer, toNat_timerElapsed (Nat.le_add_right_of_le before)]
    exact early _ (by simp [since, head])

theorem not_disconnected_of_okay (ended : ℕ) (attempts : List Attempt) :
    ¬Disconnected config (⟨ended, true⟩ :: attempts) := by
  rw [disconnected_iff, failures_okay]
  rintro ⟨enabled, few⟩
  exact absurd enabled (Nat.not_lt_of_ge few)

/-- A call keeps the bookkeeping and answers whether the transport is connected. -/
theorem sound_step (enabled : 0 < config.maxConnectionErrors.toNat)
    (timeout : 0 < config.connectionCheckTimeout) {watched : Watched} (sound : Sound config watched)
    (call : Call) : Sound config (watchStep config watched call) ∧
      ((transportMasterIfConnected config watched.state (watched.clock + call.wait)
        (watched.clock + call.wait + call.took) call.okay).2 = false ↔
          Disconnected config (watchStep config watched call).attempts) := by
  have positive : config.maxConnectionErrors ≠ 0 := by
    rintro zero
    rw [zero] at enabled
    exact absurd enabled (by decide)
  simp only [watchStep, transportMasterIfConnected]
  cases early : throttles config watched.state (watched.clock + call.wait) with
  | true =>
    simp only [if_true]
    refine ⟨⟨sound.counted, fun disconnected => ?_⟩, fun _ => ?_, fun _ => trivial⟩
    · obtain ⟨last, head, timer, before⟩ := sound.timed disconnected
      exact ⟨last, head, timer, Nat.le_add_right_of_le before⟩
    · exact ((throttles_iff enabled timeout sound call.wait).mp early).1
  | false =>
    simp only [Bool.false_eq_true, if_false, if_neg positive]
    cases okay : call.okay with
    | true =>
      have connected : ¬Disconnected config
          (⟨watched.clock + call.wait + call.took, true⟩ :: watched.attempts) :=
        not_disconnected_of_okay _ _
      refine ⟨⟨rfl, fun disconnected => absurd disconnected connected⟩, nofun,
        fun disconnected => absurd disconnected connected⟩
    | false =>
      have counted : (countError watched.state).connectionErrors.toNat =
          min 255 (failures (⟨watched.clock + call.wait + call.took, false⟩ :: watched.attempts)) := by
        rw [toNat_countError, sound.counted, failures_failed]
        omega
      have connected := isTransportConnected_iff enabled counted
      simp only [Bool.false_eq_true, if_false, if_pos timeout]
      cases counts : isTransportConnected config (countError watched.state) with
      | true =>
        have reachable := connected.mp counts
        simp only [if_true]
        exact ⟨⟨counted, fun disconnected => absurd disconnected reachable⟩, nofun,
          fun disconnected => absurd disconnected reachable⟩
      | false =>
        simp only [Bool.false_eq_true, if_false]
        refine ⟨⟨counted, fun _ => ⟨_, rfl, rfl, Nat.le_refl _⟩⟩, fun _ => ?_, fun _ => trivial⟩
        by_contra reachable
        rw [connected.mpr reachable] at counts
        cases counts

theorem right_iff (enabled : 0 < config.maxConnectionErrors.toNat)
    (timeout : 0 < config.connectionCheckTimeout) {watched : Watched} (sound : Sound config watched)
    (call : Call) : Right config watched call ↔ Careful config watched call := by
  obtain ⟨after, answer⟩ := sound_step enabled timeout sound call
  have early := throttles_iff enabled timeout sound call.wait
  constructor
  · intro right disconnected elapsed last enough
    have attempted := right.attempts.mpr fun _ other same => by
      rwa [Option.mem_unique same last]
    by_contra wrapped
    have throttled := early.mpr ⟨disconnected, fun other same => by
      rw [Option.mem_unique same last]
      exact Nat.lt_of_not_le wrapped⟩
    rw [attempted] at throttled
    cases throttled
  · intro careful
    refine ⟨?_, answer, tracks_of_counted enabled after.counted⟩
    rw [← Bool.not_eq_true, early]
    constructor
    · rintro attempted disconnected elapsed last
      by_contra soon
      refine attempted ⟨disconnected, fun other same => ?_⟩
      rw [Option.mem_unique same last]
      exact (Nat.mod_le _ _).trans_lt (Nat.lt_of_not_le soon)
    · rintro enough ⟨disconnected, wrapped⟩
      obtain ⟨last, head, -, -⟩ := sound.timed disconnected
      have elapsed : watched.clock + call.wait - last.ended ∈
          since watched.attempts (watched.clock + call.wait) := by simp [since, head]
      exact absurd (wrapped _ elapsed)
        (Nat.not_lt_of_ge (careful disconnected _ elapsed (enough disconnected _ elapsed)))

/-- In every run the transport counts as connected, tries and answers as promised exactly if the
check is not disabled and no call while it is disconnected comes when the timer has wrapped. -/
theorem right_iff_careful (config : Config) (timeout : 0 < config.connectionCheckTimeout)
    (calls : List Call) :
    Tracks config {} ∧ Along (watchStep config) (Right config) {} calls ↔
      0 < config.maxConnectionErrors.toNat ∧ Along (watchStep config) (Careful config) {} calls := by
  by_cases enabled : 0 < config.maxConnectionErrors.toNat
  · have same := along_congr
      (fun (watched : Watched) call (sound : Sound config watched) _ =>
        (sound_step enabled timeout sound call).1)
      (fun watched call sound => right_iff enabled timeout sound call) sound_init calls
    rw [same]
    exact and_congr (iff_of_true (tracks_of_counted enabled rfl) enabled) Iff.rfl
  · have refused : isTransportConnected config {} = false := by
      rw [isTransportConnected, decide_eq_false_iff_not, BitVec.lt_def]
      exact fun below => enabled (Nat.zero_lt_of_lt below)
    refine iff_of_false ?_ (fun right => enabled right.1)
    rintro ⟨tracks, -⟩
    have connected := tracks.connected.mpr fun disconnected => enabled disconnected.1
    rw [refused] at connected
    cases connected

/-- Ten failures, a try too early and one that succeeds -/
theorem right_when_reconnected : Tracks ⟨10, 500⟩ {} ∧
    Along (watchStep ⟨10, 500⟩) (Right ⟨10, 500⟩) {}
      (List.replicate 10 ⟨5, 1, false⟩ ++ [⟨499, 1, true⟩, ⟨1, 1, true⟩]) :=
  (right_iff_careful ⟨10, 500⟩ (by decide) _).mpr ⟨by decide, by decide +kernel⟩

/-- With the check disabled the transport never counts as connected. With a timeout of half a
second, a try is held back that comes a bit more than 65536 ms after the last one. -/
theorem disabled_check_and_wrap_break :
    ¬Tracks ⟨0, 500⟩ {} ∧
      ¬Along (watchStep ⟨1, 500⟩) (Right ⟨1, 500⟩) {}
        [⟨0, 0, false⟩, ⟨400, 0, false⟩, ⟨65236, 0, true⟩] := by
  constructor
  · intro tracks
    exact absurd (tracks.connected.mpr (by decide)) (by decide)
  · rintro ⟨-, -, right, -⟩
    exact absurd (right.attempts.mpr (by decide +kernel)) (by decide +kernel)

end Runs

end QmkSonix.Split.Connection
