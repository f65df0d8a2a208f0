import Mathlib

/-! Remote procedure calls over the split transport: the master's and the slave's part in
`transactions.c`. -/

namespace QmkSonix.Split.Rpc

/-- How the keyboard is built: how many transactions stand before those of the calls, and how many
are of the keyboard or the user -/
structure Config where
  core : ℕ
  user : ℕ
  usable : core + 4 + user ≤ 2 ^ 5
  /-- `RPC_M2S_BUFFER_SIZE` -/
  m2sBufferSize : ℕ := 32
  /-- `RPC_S2M_BUFFER_SIZE` -/
  s2mBufferSize : ℕ := 32

/-! `enum serial_transaction_id` -/

section Identifiers

variable (config : Config)

def putRpcInfo : ℕ := config.core
def putRpcReqData : ℕ := config.core + 1
def executeRpc : ℕ := config.core + 2
def getRpcRespData : ℕ := config.core + 3
def numTotalTransactions : ℕ := config.core + 4 + config.user

end Identifiers

/-- A callback of the keyboard or the user: what it leaves in the buffer for the master, from the
two sizes and buffers -/
abbrev UserCallback := BitVec 8 → (ℕ → BitVec 8) → BitVec 8 → (ℕ → BitVec 8) → ℕ → BitVec 8

/-- The functions that `slave_callback` may point to -/
inductive SlaveCallback where
  | rpcInfo
  | rpcExec
  | user (callback : UserCallback)

/-- `split_transaction_desc_t` -/
structure Descriptor where
  initiator2targetBufferSize : BitVec 8 := 0
  target2initiatorBufferSize : BitVec 8 := 0
  slaveCallback : Option SlaveCallback := none

/-- `rpc_sync_info_t` -/
structure RpcInfo where
  transactionId : BitVec 8 := 0
  m2sLength : BitVec 8 := 0
  s2mLength : BitVec 8 := 0
  deriving DecidableEq, Repr

/-- `split_transaction_table` and the part of `split_shmem` that the calls use -/
structure State where
  table : ℕ → Descriptor
  rpcInfo : RpcInfo := {}
  rpcM2sBuffer : ℕ → BitVec 8 := fun _ => 0
  rpcS2mBuffer : ℕ → BitVec 8 := fun _ => 0

inductive Fault where
  /-- An element outside of an array is accessed. -/
  | outside (index : ℤ)
  /-- A callback calls itself for ever. -/
  | endless
  deriving DecidableEq, Repr

section Registration

variable (config : Config)

/-- The entries of the table as they are initialised; no core transaction before those of the
calls has a callback. -/
def initialTable (coreSizes : ℕ → BitVec 8 × BitVec 8) (id : ℕ) : Descriptor :=
  if id < putRpcInfo config then
    { initiator2targetBufferSize := (coreSizes id).1
      target2initiatorBufferSize := (coreSizes id).2 }
  else if id = putRpcInfo config then
    { initiator2targetBufferSize := 3, slaveCallback := some .rpcInfo }
  else if id = putRpcReqData config then
    { initiator2targetBufferSize := BitVec.ofNat 8 config.m2sBufferSize }
  else if id = executeRpc config then
    { initiator2targetBufferSize := 1, slaveCallback := some .rpcExec }
  else if id = getRpcRespData config then
    { target2initiatorBufferSize := BitVec.ofNat 8 config.s2mBufferSize }
  else {}

/-- `transaction_register_rpc` -/
def transactionRegisterRpc (table : ℕ → Descriptor) (transactionId : ℕ) (callback : UserCallback) :
    ℕ → Descriptor :=
  if transactionId ≤ getRpcRespData config then table
  else Function.update table transactionId
    { table transactionId with slaveCallback := some (.user callback) }

/-- The slave once callbacks are registered for transactions of the keyboard or the user -/
def start (coreSizes : ℕ → BitVec 8 × BitVec 8)
    (registered : List (Fin config.user × UserCallback)) : State where
  table := registered.foldl (fun table entry =>
    transactionRegisterRpc config table (getRpcRespData config + 1 + entry.1) entry.2)
    (initialTable config coreSizes)

end Registration

section Slave

variable (config : Config) (state : State)

/-- `slave_rpc_info_callback` -/
def slaveRpcInfoCallback : State :=
  let sized := Function.update state.table (putRpcReqData config)
    { state.table (putRpcReqData config) with
      initiator2targetBufferSize := state.rpcInfo.m2sLength }
  { state with
    table := Function.update sized (getRpcRespData config)
      { sized (getRpcRespData config) with
        target2initiatorBufferSize := state.rpcInfo.s2mLength } }

/-- The state behind a callback, and the transactions whose callbacks were called for it -/
abbrev Called := State × List ℕ

/-- `slave_rpc_exec_callback`, with how often it may call itself -/
def slaveRpcExecCallback : ℕ → Except Fault Called
  | 0 => .error .endless
  | fuel + 1 =>
    let transactionId := state.rpcInfo.transactionId.toInt
    if transactionId < numTotalTransactions config then
      if transactionId < 0 then .error (.outside transactionId)
      else
        match (state.table transactionId.toNat).slaveCallback with
        | none => .ok (state, [])
        | some .rpcInfo => .ok (slaveRpcInfoCallback config state, [transactionId.toNat])
        | some .rpcExec => do
          let (after, called) ← slaveRpcExecCallback fuel
          return (after, transactionId.toNat :: called)
        | some (.user callback) =>
          .ok ({ state with
            rpcS2mBuffer := callback state.rpcInfo.m2sLength state.rpcM2sBuffer
              state.rpcInfo.s2mLength state.rpcS2mBuffer }, [transactionId.toNat])
    else .ok (state, [])

/-- The callback either calls itself for ever or not at all. -/
theorem slaveRpcExecCallback_fuel (fuel : ℕ) :
    slaveRpcExecCallback config state (fuel + 1) = slaveRpcExecCallback config state 1 := by
  induction fuel with
  | zero => rfl
  | succ fuel ih =>
    rw [slaveRpcExecCallback, ih]
    conv_rhs => rw [slaveRpcExecCallback]
    split_ifs with below negative
    · rfl
    · cases callback : (state.table state.rpcInfo.transactionId.toInt.toNat).slaveCallback with
      | none => rfl
      | some pointed =>
        cases pointed with
        | rpcInfo => rfl
        | user callback => rfl
        | rpcExec =>
          have once : slaveRpcExecCallback config state 1 = .error .endless := by
            rw [slaveRpcExecCallback, if_pos below, if_neg negative, callback]
            rfl
          simp only [once]
          rfl
    · rfl

/-- What the slave receives, whatever was sent -/
inductive Transaction where
  | putRpcInfo (info : RpcInfo)
  | putRpcReqData (bytes : ℕ → BitVec 8)
  | executeRpc (transactionId : BitVec 8)
  | getRpcRespData

/-- The bytes that are received behind one another in a buffer -/
def receiveBytes (bytes buffer : ℕ → BitVec 8) (length bufferSize : ℕ) :
    Except Fault (ℕ → BitVec 8) :=
  if length ≤ bufferSize then .ok fun index => if index < length then bytes index else buffer index
  else .error (.outside bufferSize)

/-- A transaction on the side of the slave: as many bytes as its entry says are copied into its
part of the shared memory, and its callback is called. -/
def receive : Transaction → Except Fault Called
  | .putRpcInfo info => .ok (slaveRpcInfoCallback config { state with rpcInfo := info }, [])
  | .putRpcReqData bytes => do
    let buffer ← receiveBytes bytes state.rpcM2sBuffer
      (state.table (putRpcReqData config)).initiator2targetBufferSize.toNat config.m2sBufferSize
    return ({ state with rpcM2sBuffer := buffer }, [])
  | .executeRpc transactionId =>
    slaveRpcExecCallback config
      { state with rpcInfo := { state.rpcInfo with transactionId := transactionId } } 1
  | .getRpcRespData =>
    let length := (state.table (getRpcRespData config)).target2initiatorBufferSize.toNat
    if length ≤ config.s2mBufferSize then .ok (state, [])
    else .error (.outside config.s2mBufferSize)

end Slave

section Master

variable (config : Config)

/-- What `transaction_rpc_exec` sends while the transport is connected, as far as nothing fails -/
def transactionRpcExec (transactionId : BitVec 8) (m2sLength : BitVec 8) (bytes : ℕ → BitVec 8)
    (s2mLength : BitVec 8) : List Transaction :=
  if transactionId.toInt ≤ getRpcRespData config then []
  else if config.m2sBufferSize < m2sLength.toNat then []
  else if config.s2mBufferSize < s2mLength.toNat then []
  else [.putRpcInfo ⟨transactionId, m2sLength, s2mLength⟩, .putRpcReqData bytes,
    .executeRpc transactionId, .getRpcRespData]

end Master

end QmkSonix.Split.Rpc
