import QmkSonix.Lib.Run

/-! Sending from the master to the slave: the handlers of `transactions.c` built
on `send_if_data_mismatch`, over a transport that may fail. -/

namespace QmkSonix.Split

open QmkSonix.Lib

/-- `FORCED_SYNC_THROTTLE_MS` -/
def forcedSyncThrottleMs : BitVec 32 := 100

/-- How a write transaction ends. `transport_execute_transaction` copies the data
to the local shared memory before it sends; a transport that fails earlier is
allowed for. A transaction that fails on the way may leave anything in the
slave's slot. -/
inductive WriteOutcome (Data : Type*) where
  | delivered
  | failedBeforeCopy
  | failedAfterCopy (slaveLeft : Data)
  deriving DecidableEq

/-- One slot of `split_shmem` on the master, the same slot on the slave, and the
handler's static `last_update`. -/
structure Link (Data : Type*) where
  shmem : Data
  slave : Data
  lastUpdate : BitVec 32 := 0
  deriving DecidableEq

/-- One call of a handler: its source, the clock before and after the
transaction, and how a transaction would end. -/
structure Attempt (Data : Type*) where
  source : Data
  now : BitVec 32
  later : BitVec 32
  outcome : WriteOutcome Data
  deriving DecidableEq

section Handler

variable {Data : Type*} [DecidableEq Data]

/-- `transport_write` -/
def transportWrite (link : Link Data) (source : Data) : WriteOutcome Data → Link Data × Bool
  | .delivered => ({ link with shmem := source, slave := source }, true)
  | .failedBeforeCopy => (link, false)
  | .failedAfterCopy slaveLeft => ({ link with shmem := source, slave := slaveLeft }, false)

/-- `send_if_condition` -/
def sendIfCondition (link : Link Data) (condition : Bool) (attempt : Attempt Data) :
    Link Data × Bool :=
  if forcedSyncThrottleMs ≤ attempt.now - link.lastUpdate ∨ condition then
    let written := transportWrite link attempt.source attempt.outcome
    (if written.2 then { written.1 with lastUpdate := attempt.later } else written.1, written.2)
  else (link, true)

/-- `send_if_data_mismatch` -/
def sendIfDataMismatch (link : Link Data) (attempt : Attempt Data) : Link Data × Bool :=
  sendIfCondition link (attempt.source ≠ link.shmem) attempt

/-- The loop of `transaction_handler_master` with `retries` iterations left.
Returns the attempt that succeeded, if one did. -/
def retryLoop (attempts : Nat → Attempt Data) :
    Nat → Nat → Link Data → Link Data × Option (Attempt Data)
  | 0, _, link => (link, none)
  | retries + 1, iter, link =>
    let sent := sendIfDataMismatch link (attempts iter)
    if sent.2 then (sent.1, some (attempts iter))
    else retryLoop attempts retries (iter + 1) sent.1

/-- A call of `transaction_handler_master`: whether the transport is connected,
and what each iteration meets. -/
structure Tick (Data : Type*) where
  connected : Bool
  attempts : Nat → Attempt Data

def Tick.numRetries (tick : Tick Data) : Nat := if tick.connected then 10 else 1

/-- `transaction_handler_master` -/
def transactionHandlerMaster (link : Link Data) (tick : Tick Data) :
    Link Data × Option (Attempt Data) :=
  retryLoop tick.attempts tick.numRetries 1 link

def Tick.exec (link : Link Data) (tick : Tick Data) : Link Data :=
  (transactionHandlerMaster link tick).1

/-- The attempt finds its source in the master's own copy and is inside the
throttle, so that it sends nothing, but the slave does not hold that copy: a
transaction that wrote it failed on the way. -/
def Attempt.trustsLostWrite (link : Link Data) (attempt : Attempt Data) : Bool :=
  ¬forcedSyncThrottleMs ≤ attempt.now - link.lastUpdate ∧ attempt.source = link.shmem ∧
    link.slave ≠ link.shmem

/-- Whether one of the attempts that the loop makes trusts a lost write. -/
def triesLostWrite (attempts : Nat → Attempt Data) : Nat → Nat → Link Data → Bool
  | 0, _, _ => false
  | retries + 1, iter, link =>
    let sent := sendIfDataMismatch link (attempts iter)
    (attempts iter).trustsLostWrite link ||
      !sent.2 && triesLostWrite attempts retries (iter + 1) sent.1

def Tick.trustsLostWrite (link : Link Data) (tick : Tick Data) : Bool :=
  triesLostWrite tick.attempts tick.numRetries 1 link

end Handler

section Attempts

variable {Data : Type*} [DecidableEq Data] {link : Link Data} {attempt : Attempt Data}

/-- A transaction reports success only when it delivered. -/
theorem transportWrite_ok (ok : (transportWrite link source outcome).2 = true) :
    (transportWrite link source outcome).1.slave = source ∧
      (transportWrite link source outcome).1.shmem = source := by
  cases outcome with
  | delivered => exact ⟨rfl, rfl⟩
  | failedBeforeCopy => cases ok
  | failedAfterCopy slaveLeft => cases ok

/-- A handler that returns true has delivered its source, unless it trusted a lost write. -/
theorem sendIfDataMismatch_ok (ok : (sendIfDataMismatch link attempt).2 = true) :
    (sendIfDataMismatch link attempt).1.slave = attempt.source ↔
      attempt.trustsLostWrite link = false := by
  unfold sendIfDataMismatch sendIfCondition at *
  by_cases sends : forcedSyncThrottleMs ≤ attempt.now - link.lastUpdate ∨
      decide (attempt.source ≠ link.shmem) = true
  · rw [if_pos sends] at ok ⊢
    have delivered := (transportWrite_ok ok).1
    have settled : attempt.trustsLostWrite link = false := by
      rcases sends with due | mismatch
      · simp [Attempt.trustsLostWrite, due]
      · have apart : attempt.source ≠ link.shmem := of_decide_eq_true mismatch
        simp [Attempt.trustsLostWrite, apart]
    have ended : (transportWrite link attempt.source attempt.outcome).2 = true := ok
    simp only [ended, ↓reduceIte, delivered, settled]
  · rw [if_neg sends]
    obtain ⟨early, mismatch⟩ := not_or.mp sends
    have same : attempt.source = link.shmem := by simpa using mismatch
    simp [Attempt.trustsLostWrite, early, same]

theorem retryLoop_ok (attempts : Nat → Attempt Data) (retries iter : Nat) (link : Link Data) :
    (∀ attempt, (retryLoop attempts retries iter link).2 = some attempt →
        (retryLoop attempts retries iter link).1.slave = attempt.source) ↔
      triesLostWrite attempts retries iter link = false := by
  induction retries generalizing iter link with
  | zero => simp [retryLoop, triesLostWrite]
  | succ retries ih =>
    cases ok : (sendIfDataMismatch link (attempts iter)).2 with
    | true =>
      have sent := sendIfDataMismatch_ok ok
      simp [retryLoop, triesLostWrite, ok, sent]
    | false =>
      have honest : (attempts iter).trustsLostWrite link = false := by
        by_contra trusts
        have found : sendIfDataMismatch link (attempts iter) = (link, true) := by
          simp only [Attempt.trustsLostWrite, Bool.not_eq_false, decide_eq_true_eq] at trusts
          obtain ⟨early, same, _⟩ := trusts
          simp [sendIfDataMismatch, sendIfCondition, early, same]
        rw [found] at ok
        cases ok
      simpa [retryLoop, triesLostWrite, ok, honest] using
        ih (iter + 1) (sendIfDataMismatch link (attempts iter)).1

end Attempts

section Runs

variable {Data : Type*} [DecidableEq Data]

/-- The transaction fails after the copy and the slave is left with something else. -/
def Attempt.loses (attempt : Attempt Data) : Bool :=
  match attempt.outcome with
  | .failedAfterCopy slaveLeft => slaveLeft ≠ attempt.source
  | _ => false

theorem sendIfDataMismatch_in_sync {link : Link Data} {attempt : Attempt Data}
    (inSync : link.slave = link.shmem) (kept : attempt.loses = false) :
    (sendIfDataMismatch link attempt).1.slave = (sendIfDataMismatch link attempt).1.shmem := by
  unfold sendIfDataMismatch sendIfCondition
  split
  · cases ended : attempt.outcome with
    | delivered => rfl
    | failedBeforeCopy => exact inSync
    | failedAfterCopy slaveLeft =>
      have same : slaveLeft = attempt.source := by simpa [Attempt.loses, ended] using kept
      exact same
  · exact inSync

theorem retryLoop_in_sync (attempts : Nat → Attempt Data)
    (kept : ∀ iter, (attempts iter).loses = false) (retries iter : Nat) {link : Link Data}
    (inSync : link.slave = link.shmem) :
    (retryLoop attempts retries iter link).1.slave =
        (retryLoop attempts retries iter link).1.shmem ∧
      triesLostWrite attempts retries iter link = false := by
  induction retries generalizing iter link with
  | zero => exact ⟨inSync, rfl⟩
  | succ retries ih =>
    have sent := sendIfDataMismatch_in_sync inSync (kept iter)
    have honest : (attempts iter).trustsLostWrite link = false := by
      simp [Attempt.trustsLostWrite, inSync]
    obtain ⟨later, honestLater⟩ := ih (iter + 1) sent
    cases ok : (sendIfDataMismatch link (attempts iter)).2 with
    | true => simpa [retryLoop, triesLostWrite, ok, honest] using sent
    | false => simpa [retryLoop, triesLostWrite, ok, honest] using And.intro later honestLater

/-- As long as no transaction is lost behind the copy, the slave holds the
master's copy and every success is a delivery. -/
theorem lossless_run_in_sync {link : Link Data} (inSync : link.slave = link.shmem)
    {ticks : List (Tick Data)}
    (kept : Along Tick.exec (fun _ tick => ∀ iter, (tick.attempts iter).loses = false) link ticks) :
    (run Tick.exec link ticks).slave = (run Tick.exec link ticks).shmem ∧
      Along Tick.exec (fun link tick => tick.trustsLostWrite link = false) link ticks := by
  induction ticks generalizing link with
  | nil => exact ⟨inSync, trivial⟩
  | cons tick rest ih =>
    obtain ⟨sent, honest⟩ := retryLoop_in_sync tick.attempts kept.1 tick.numRetries 1 inSync
    obtain ⟨later, honestLater⟩ := ih sent kept.2
    exact ⟨later, honest, honestLater⟩

end Runs

end QmkSonix.Split
