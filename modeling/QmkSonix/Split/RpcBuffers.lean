import QmkSonix.Lib.Run
import QmkSonix.Split.Rpc

/-! Which received transactions keep the calls in their buffers and among themselves. -/

namespace QmkSonix.Split.Rpc

open QmkSonix.Lib

section Conditions

variable (config : Config)

/-- The sizes in the table are at most those of the buffers. -/
structure Sized (state : State) : Prop where
  m2s : (state.table (putRpcReqData config)).initiator2targetBufferSize.toNat ≤
    config.m2sBufferSize
  s2m : (state.table (getRpcRespData config)).target2initiatorBufferSize.toNat ≤
    config.s2mBufferSize

/-- No element outside of an array was accessed, the sizes are at most those of the buffers, and
no callback of a core transaction was called. -/
def Contained : Except Fault Called → Prop
  | .error _ => False
  | .ok (after, called) => Sized config after ∧ ∀ id ∈ called, getRpcRespData config < id

/-- A received transaction stays in the buffers and the table. -/
def Safe (state : State) (transaction : Transaction) : Prop :=
  Contained config (receive config state transaction)

/-- The received sizes fit the buffers, and the received identifier is not negative and not one of
the two core transactions that have a callback. -/
def Careful : Transaction → Prop
  | .putRpcInfo info =>
    info.m2sLength.toNat ≤ config.m2sBufferSize ∧ info.s2mLength.toNat ≤ config.s2mBufferSize
  | .executeRpc transactionId =>
    0 ≤ transactionId.toInt ∧ transactionId.toInt ≠ putRpcInfo config ∧
      transactionId.toInt ≠ executeRpc config
  | _ => True

def step (state : State) (transaction : Transaction) : State :=
  match receive config state transaction with
  | .error _ => state
  | .ok (after, _) => after

end Conditions

section Tables

variable (config : Config)

/-- Which entries have a callback, and which one -/
structure Wired (table : ℕ → Descriptor) : Prop where
  info : (table (putRpcInfo config)).slaveCallback = some .rpcInfo
  exec : (table (executeRpc config)).slaveCallback = some .rpcExec
  core : ∀ id ≤ getRpcRespData config, id ≠ putRpcInfo config → id ≠ executeRpc config →
    (table id).slaveCallback = none
  others : ∀ id, getRpcRespData config < id →
    (table id).slaveCallback = none ∨ ∃ callback, (table id).slaveCallback = some (.user callback)

/-- The sizes fit, and the callbacks are those that were registered. -/
structure Sound (state : State) : Prop extends Sized config state where
  wired : Wired config state.table

variable {config}

theorem Wired.congr {table other : ℕ → Descriptor} (wired : Wired config table)
    (same : ∀ id, (other id).slaveCallback = (table id).slaveCallback) : Wired config other where
  info := (same _).trans wired.info
  exec := (same _).trans wired.exec
  core := fun id bound notInfo notExec => (same id).trans (wired.core id bound notInfo notExec)
  others := fun id beyond => by
    rw [same id]
    exact wired.others id beyond

theorem wired_initialTable (config : Config) (coreSizes : ℕ → BitVec 8 × BitVec 8) :
    Wired config (initialTable config coreSizes) := by
  refine ⟨?_, ?_, fun id bound notInfo notExec => ?_, fun id beyond => .inl ?_⟩
  · simp [initialTable]
  · have apart : ¬ executeRpc config < putRpcInfo config ∧ executeRpc config ≠ putRpcInfo config ∧
        executeRpc config ≠ putRpcReqData config := by
      simp only [putRpcInfo, putRpcReqData, executeRpc]
      omega
    simp [initialTable, apart]
  · simp only [initialTable, if_neg notInfo, if_neg notExec]
    split_ifs <;> rfl
  · have apart : ¬ id < putRpcInfo config ∧ id ≠ putRpcInfo config ∧ id ≠ putRpcReqData config ∧
        id ≠ executeRpc config ∧ id ≠ getRpcRespData config := by
      simp only [putRpcInfo, putRpcReqData, executeRpc, getRpcRespData] at beyond ⊢
      omega
    simp [initialTable, apart]

theorem transactionRegisterRpc_of_le {table : ℕ → Descriptor} {id : ℕ}
    (callback : UserCallback) {other : ℕ} (core : other ≤ getRpcRespData config) :
    transactionRegisterRpc config table id callback other = table other := by
  rw [transactionRegisterRpc]
  split
  · rfl
  · rename_i beyond
    have apart : other ≠ id := by
      rintro rfl
      exact beyond core
    exact Function.update_of_ne apart ..

/-- A callback is only registered for a transaction that is not a core one. -/
theorem Wired.register {table : ℕ → Descriptor} (wired : Wired config table) (id : ℕ)
    (callback : UserCallback) : Wired config (transactionRegisterRpc config table id callback) := by
  have infoCore : putRpcInfo config ≤ getRpcRespData config := Nat.le_add_right _ 3
  have execCore : executeRpc config ≤ getRpcRespData config := Nat.le_succ _
  refine ⟨?_, ?_, fun other bound notInfo notExec => ?_, fun other beyond => ?_⟩
  · rw [transactionRegisterRpc_of_le callback infoCore]
    exact wired.info
  · rw [transactionRegisterRpc_of_le callback execCore]
    exact wired.exec
  · rw [transactionRegisterRpc_of_le callback bound]
    exact wired.core other bound notInfo notExec
  · rw [transactionRegisterRpc]
    split
    · exact wired.others other beyond
    · by_cases same : other = id
      · subst same
        rw [Function.update_self]
        exact .inr ⟨callback, rfl⟩
      · rw [Function.update_of_ne same]
        exact wired.others other beyond

theorem sound_start (config : Config) (coreSizes : ℕ → BitVec 8 × BitVec 8)
    (registered : List (Fin config.user × UserCallback)) :
    Sound config (start config coreSizes registered) := by
  refine List.foldlRecOn (motive := fun table => Sound config { table := table }) registered _ ?_ ?_
  · refine ⟨⟨?_, ?_⟩, wired_initialTable config coreSizes⟩
    · have apart : ¬ putRpcReqData config < putRpcInfo config ∧
          putRpcReqData config ≠ putRpcInfo config := by
        simp only [putRpcInfo, putRpcReqData]
        omega
      simpa [initialTable, apart] using Nat.mod_le _ _
    · have apart : ¬ getRpcRespData config < putRpcInfo config ∧
          getRpcRespData config ≠ putRpcInfo config ∧
          getRpcRespData config ≠ putRpcReqData config ∧
          getRpcRespData config ≠ executeRpc config := by
        simp only [putRpcInfo, putRpcReqData, executeRpc, getRpcRespData]
        omega
      simpa [initialTable, apart] using Nat.mod_le _ _
  · intro table sound entry _
    have reqCore : putRpcReqData config ≤ getRpcRespData config := Nat.le_add_right _ 2
    refine ⟨⟨?_, ?_⟩, sound.wired.register _ _⟩
    · simp only [transactionRegisterRpc_of_le entry.2 reqCore]
      exact sound.m2s
    · simp only [transactionRegisterRpc_of_le entry.2 le_rfl]
      exact sound.s2m

end Tables

section Receiving

variable {config : Config} {state : State}

/-- The callback of the sizes writes both of them to the table, and no callback. -/
theorem slaveRpcInfoCallback_spec (config : Config) (state : State) :
    let after := slaveRpcInfoCallback config state
    (after.table (putRpcReqData config)).initiator2targetBufferSize = state.rpcInfo.m2sLength ∧
      (after.table (getRpcRespData config)).target2initiatorBufferSize =
        state.rpcInfo.s2mLength ∧
      ∀ id, (after.table id).slaveCallback = (state.table id).slaveCallback := by
  have apart : putRpcReqData config ≠ getRpcRespData config := by
    simp only [putRpcReqData, getRpcRespData]
    omega
  refine ⟨?_, ?_, fun id => ?_⟩
  · simp only [slaveRpcInfoCallback, Function.update_of_ne apart, Function.update_self]
  · simp only [slaveRpcInfoCallback, Function.update_self]
  · simp only [slaveRpcInfoCallback]
    by_cases last : id = getRpcRespData config
    · subst last
      rw [Function.update_self, Function.update_of_ne apart.symm]
    · rw [Function.update_of_ne last]
      by_cases request : id = putRpcReqData config
      · subst request
        rw [Function.update_self]
      · rw [Function.update_of_ne request]

theorem sound_of_info {info : RpcInfo} (sound : Sound config state)
    (careful : Careful config (.putRpcInfo info)) :
    Sound config (slaveRpcInfoCallback config { state with rpcInfo := info }) := by
  obtain ⟨m2s, s2m, same⟩ := slaveRpcInfoCallback_spec config { state with rpcInfo := info }
  refine ⟨⟨?_, ?_⟩, sound.wired.congr same⟩
  · rw [m2s]
    exact careful.1
  · rw [s2m]
    exact careful.2

theorem safe_info (info : RpcInfo) :
    Safe config state (.putRpcInfo info) ↔ Careful config (.putRpcInfo info) := by
  obtain ⟨m2s, s2m, -⟩ := slaveRpcInfoCallback_spec config { state with rpcInfo := info }
  constructor
  · rintro ⟨sized, -⟩
    exact ⟨m2s ▸ sized.m2s, s2m ▸ sized.s2m⟩
  · rintro ⟨first, second⟩
    refine ⟨⟨?_, ?_⟩, fun id member => absurd member List.not_mem_nil⟩
    · rw [m2s]
      exact first
    · rw [s2m]
      exact second

/-- A careful identifier calls the callback of a transaction that is not a core one, if any, and
the table stays. -/
theorem exec_careful (sound : Sound config state)
    (careful : Careful config (.executeRpc state.rpcInfo.transactionId)) :
    ∃ after called, slaveRpcExecCallback config state 1 = .ok (after, called) ∧
      after.table = state.table ∧ ∀ id ∈ called, getRpcRespData config < id := by
  obtain ⟨positive, notInfo, notExec⟩ := careful
  rw [slaveRpcExecCallback]
  split_ifs with below negative
  · exact absurd negative (Int.not_lt.mpr positive)
  · generalize state.rpcInfo.transactionId.toInt = id at *
    have plain : id.toNat ≠ putRpcInfo config ∧ id.toNat ≠ executeRpc config := by omega
    by_cases core : id.toNat ≤ getRpcRespData config
    · rw [sound.wired.core id.toNat core plain.1 plain.2]
      exact ⟨state, [], rfl, rfl, fun other member => absurd member List.not_mem_nil⟩
    · have beyond := Nat.lt_of_not_le core
      rcases sound.wired.others id.toNat beyond with none | ⟨callback, user⟩
      · rw [none]
        exact ⟨state, [], rfl, rfl, fun other member => absurd member List.not_mem_nil⟩
      · rw [user]
        refine ⟨_, _, rfl, rfl, fun other member => ?_⟩
        rw [List.mem_singleton.mp member]
        exact beyond
  · exact ⟨state, [], rfl, rfl, fun other member => absurd member List.not_mem_nil⟩

/-- Any other identifier is looked up in front of the table, or calls a core callback. -/
theorem careful_of_exec (sound : Sound config state)
    (contained : Contained config (slaveRpcExecCallback config state 1)) :
    Careful config (.executeRpc state.rpcInfo.transactionId) := by
  have usable := config.usable
  rw [slaveRpcExecCallback] at contained
  have within (id : ℕ) (core : id ≤ getRpcRespData config) :
      (id : ℤ) < numTotalTransactions config := by
    simp only [getRpcRespData, numTotalTransactions] at core ⊢
    omega
  refine ⟨?_, fun info => ?_, fun exec => ?_⟩
  · by_contra negative
    have below : state.rpcInfo.transactionId.toInt < numTotalTransactions config := by omega
    rw [if_pos below, if_pos (Int.not_le.mp negative)] at contained
    exact contained
  · rw [info, if_pos (within (putRpcInfo config) (Nat.le_add_right _ 3)),
      if_neg (Int.not_lt.mpr (Int.natCast_nonneg _)),
      Int.toNat_natCast, sound.wired.info] at contained
    have called := contained.2 (putRpcInfo config) (List.mem_singleton.mpr rfl)
    simp only [getRpcRespData, putRpcInfo] at called
    omega
  · rw [exec, if_pos (within (executeRpc config) (Nat.le_succ _)),
      if_neg (Int.not_lt.mpr (Int.natCast_nonneg _)),
      Int.toNat_natCast, sound.wired.exec] at contained
    exact contained

theorem safe_iff (sound : Sound config state) (transaction : Transaction) :
    Safe config state transaction ↔ Careful config transaction := by
  cases transaction with
  | putRpcInfo info => exact safe_info info
  | putRpcReqData bytes =>
    refine iff_of_true ?_ trivial
    rw [Safe, receive, receiveBytes, if_pos sound.m2s]
    exact ⟨⟨sound.m2s, sound.s2m⟩, fun id member => absurd member List.not_mem_nil⟩
  | executeRpc transactionId =>
    have received : Sound config
        { state with rpcInfo := { state.rpcInfo with transactionId := transactionId } } :=
      ⟨⟨sound.m2s, sound.s2m⟩, sound.wired⟩
    refine ⟨careful_of_exec received, fun careful => ?_⟩
    obtain ⟨after, called, done, table, users⟩ := exec_careful received careful
    rw [Safe, receive, done]
    refine ⟨⟨?_, ?_⟩, users⟩
    · rw [table]
      exact sound.m2s
    · rw [table]
      exact sound.s2m
  | getRpcRespData =>
    refine iff_of_true ?_ trivial
    rw [Safe, receive, if_pos sound.s2m]
    exact ⟨⟨sound.m2s, sound.s2m⟩, fun id member => absurd member List.not_mem_nil⟩

theorem sound_step (sound : Sound config state) {transaction : Transaction}
    (careful : Careful config transaction) : Sound config (step config state transaction) := by
  cases transaction with
  | putRpcInfo info => exact sound_of_info sound careful
  | putRpcReqData bytes =>
    rw [step, receive, receiveBytes, if_pos sound.m2s]
    exact ⟨⟨sound.m2s, sound.s2m⟩, sound.wired⟩
  | executeRpc transactionId =>
    have received : Sound config
        { state with rpcInfo := { state.rpcInfo with transactionId := transactionId } } :=
      ⟨⟨sound.m2s, sound.s2m⟩, sound.wired⟩
    obtain ⟨after, called, done, table, -⟩ := exec_careful received careful
    rw [step, receive, done]
    refine ⟨⟨?_, ?_⟩, ?_⟩
    · rw [table]
      exact sound.m2s
    · rw [table]
      exact sound.s2m
    · rw [table]
      exact sound.wired
  | getRpcRespData =>
    rw [step, receive, if_pos sound.s2m]
    exact sound

/-- In every run of received transactions, whatever was corrupted, the calls stay in their buffers
and among themselves exactly if the sizes fit and the identifiers name no core callback. -/
theorem contained_iff_careful (config : Config) (coreSizes : ℕ → BitVec 8 × BitVec 8)
    (registered : List (Fin config.user × UserCallback)) (received : List Transaction) :
    Along (step config) (Safe config) (start config coreSizes registered) received ↔
      Along (step config) (fun _ transaction => Careful config transaction)
        (start config coreSizes registered) received :=
  along_congr (fun (state : State) transaction (sound : Sound config state) safe =>
    sound_step sound ((safe_iff sound transaction).mp safe))
    (fun state transaction sound => safe_iff sound transaction)
    (sound_start config coreSizes registered) received

end Receiving

section Sending

variable {config : Config}

/-- What the master sends is careful, where it arrives as it was sent. -/
theorem careful_of_sent {transactionId m2sLength s2mLength : BitVec 8} {bytes : ℕ → BitVec 8}
    {transaction : Transaction}
    (sent : transaction ∈ transactionRpcExec config transactionId m2sLength bytes s2mLength) :
    Careful config transaction := by
  rw [transactionRpcExec] at sent
  split_ifs at sent with core large small
  · cases sent
  · cases sent
  · cases sent
  · simp only [List.mem_cons, List.not_mem_nil, or_false] at sent
    simp only [putRpcInfo, executeRpc, getRpcRespData] at core
    rcases sent with rfl | rfl | rfl | rfl
    · exact ⟨Nat.le_of_not_lt large, Nat.le_of_not_lt small⟩
    · trivial
    · simp only [Careful, putRpcInfo, executeRpc]
      omega
    · trivial

/-- A keyboard with two core transactions and one of its own -/
def smallest : Config := ⟨2, 1, Nat.le_of_ble_eq_true rfl, 32, 32⟩

/-- Nothing is registered and every core transaction is empty. -/
def unregistered : State :=
  start smallest (fun _ => (0, 0)) []

/-- A size that was corrupted, a negative identifier, and that of a core transaction -/
theorem corrupted_info_breaks :
    ¬ Along (step smallest) (Safe smallest) unregistered [.putRpcInfo ⟨6, 255, 0⟩] ∧
      ¬ Along (step smallest) (Safe smallest) unregistered [.executeRpc 0xFF] ∧
      ¬ Along (step smallest) (Safe smallest) unregistered [.executeRpc 2] := by
  refine ⟨?_, ?_, ?_⟩
  · rintro ⟨⟨sized, -⟩, -⟩
    exact absurd sized.m2s (by decide)
  · rintro ⟨outside, -⟩
    exact outside
  · rintro ⟨⟨-, called⟩, -⟩
    exact absurd (called 2 (by decide)) (by decide)

end Sending

end QmkSonix.Split.Rpc
