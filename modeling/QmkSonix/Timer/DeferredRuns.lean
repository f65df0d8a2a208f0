import QmkSonix.Timer.DeferredExec
import QmkSonix.Lib.Wrap

/-! Runs of the deferred executors: the slots mirror the requests that are
outstanding, as long as a callback that cancels its own token leaves its slot free
and due times stay within half the range of the clock. -/

namespace QmkSonix.Timer

open QmkSonix.Lib

section Table

variable {slots : Nat} {Callback Arg : Type*} {s : Executors slots Callback Arg}

theorem slotOf_some (found : s.slotOf token = some i) : (s.executors i).token = token := by
  simpa using List.find?_some found

theorem slotOf_none (missing : s.slotOf token = none) (i : Fin slots) :
    (s.executors i).token ≠ token := by
  simpa using List.find?_eq_none.mp missing i (List.mem_finRange i)

theorem tokenCanBeUsed_iff {token : BitVec 8} :
    s.tokenCanBeUsed token = true ↔
      token ≠ invalidDeferredToken ∧ ∀ i, (s.executors i).token ≠ token := by
  simp [Executors.tokenCanBeUsed]

/-- The loop ends with a token that can be used, or with the invalid one. -/
theorem allocateLoop_usable (first : BitVec 8) (rounds : Nat) (current : BitVec 8)
    (valid : (s.allocateLoop first rounds current).2 ≠ invalidDeferredToken) :
    s.tokenCanBeUsed (s.allocateLoop first rounds current).2 = true ∧
      (s.allocateLoop first rounds current).1 = (s.allocateLoop first rounds current).2 := by
  induction rounds generalizing current with
  | zero => exact absurd rfl valid
  | succ rounds ih =>
    rw [Executors.allocateLoop] at valid ⊢
    by_cases usable : s.tokenCanBeUsed current = true
    · rw [if_pos usable]
      exact ⟨usable, rfl⟩
    · rw [if_neg usable] at valid ⊢
      by_cases back : current + 1 = first
      · rw [if_pos back] at valid
        exact absurd rfl valid
      · rw [if_neg back] at valid ⊢
        exact ih _ valid

/-- The loop that has tried `tried` tokens from `first` on looks at all the others. -/
theorem allocateLoop_searches (first : BitVec 8) (tried rounds : Nat)
    (sum : tried + rounds = 256) (none : (s.allocateLoop first rounds
      (first + BitVec.ofNat 8 tried)).2 = invalidDeferredToken) (offset : Nat)
    (later : tried ≤ offset) (inside : offset < 256) :
    s.tokenCanBeUsed (first + BitVec.ofNat 8 offset) = false := by
  induction rounds generalizing tried with
  | zero => omega
  | succ rounds ih =>
    rw [Executors.allocateLoop] at none
    have next : first + BitVec.ofNat 8 tried + 1 = first + BitVec.ofNat 8 (tried + 1) := by
      rw [BitVec.ofNat_add, BitVec.add_assoc]
      rfl
    by_cases usable : s.tokenCanBeUsed (first + BitVec.ofNat 8 tried) = true
    · rw [if_pos usable] at none
      exact absurd none (tokenCanBeUsed_iff.mp usable).1
    · rw [if_neg usable] at none
      rcases Nat.eq_or_lt_of_le later with here | behind
      · rw [← here]
        exact Bool.eq_false_of_not_eq_true usable
      · have open' : ¬first + BitVec.ofNat 8 tried + 1 = first := by
          bv_omega
        rw [if_neg open', next] at none
        exact ih (tried + 1) (by omega) none behind

/-- `allocate_token` fails only if no token can be used. -/
theorem allocateToken_invalid_iff (s : Executors slots Callback Arg) :
    s.allocateToken.2 = invalidDeferredToken ↔ ∀ token, s.tokenCanBeUsed token = false := by
  constructor
  · intro invalid token
    have searched := allocateLoop_searches (s.currentToken + 1) 0 256 rfl (by
      simpa [Executors.allocateToken] using invalid)
      (token - (s.currentToken + 1)).toNat (Nat.zero_le _) (BitVec.isLt _)
    have here : s.currentToken + 1 + BitVec.ofNat 8 (token - (s.currentToken + 1)).toNat =
        token := by
      rw [BitVec.ofNat_toNat, BitVec.setWidth_eq, BitVec.add_comm, BitVec.sub_add_cancel]
    rwa [here] at searched
  · intro none
    by_contra valid
    have usable := (allocateLoop_usable (s.currentToken + 1) 256 (s.currentToken + 1) valid).1
    rw [none] at usable
    cases usable

/-- What `defer_exec` does: nothing to the slots, or it claims a free one under a
token that no slot has. -/
theorem Executors.deferExec_cases (s : Executors slots Callback Arg) (timer delayMs : BitVec 32) (callback : Option Callback)
    (cbArg : Option Arg) :
    let made := s.deferExec timer delayMs callback cbArg
    made.1.lastDeferredExecCheck = s.lastDeferredExecCheck ∧
      (made.2 = invalidDeferredToken ∧ made.1.executors = s.executors ∨
        ∃ i called, callback = some called ∧
          (s.executors i).token = invalidDeferredToken ∧ made.2 ≠ invalidDeferredToken ∧
          (∀ j, (s.executors j).token ≠ made.2) ∧
          made.1.executors = Function.update s.executors i
            { token := made.2, triggerTime := timer + delayMs, callback := some called,
              cbArg := cbArg }) := by
  intro made
  by_cases ignored : delayMs = 0 ∨ callback.isNone
  · have nothing : made = (s, invalidDeferredToken) := if_pos ignored
    rw [nothing]
    exact ⟨rfl, Or.inl ⟨rfl, rfl⟩⟩
  obtain ⟨called, some⟩ : ∃ called, callback = some called := by
    cases callback with
    | none => exact absurd (Or.inr rfl) ignored
    | some called => exact ⟨called, rfl⟩
  cases free : s.slotOf invalidDeferredToken with
  | none =>
    have nothing : made = (s, invalidDeferredToken) := by
      simp only [made, Executors.deferExec, ignored, free, ↓reduceIte]
    rw [nothing]
    exact ⟨rfl, Or.inl ⟨rfl, rfl⟩⟩
  | some i =>
    by_cases failed : s.allocateToken.2 = invalidDeferredToken
    · have nothing : made = (s.allocateToken.1, invalidDeferredToken) := by
        simp only [made, Executors.deferExec, ignored, free, failed, ↓reduceIte]
      rw [nothing]
      exact ⟨rfl, Or.inl ⟨rfl, rfl⟩⟩
    · obtain ⟨usable, same⟩ := allocateLoop_usable _ _ _ failed
      obtain ⟨valid, fresh⟩ := tokenCanBeUsed_iff.mp usable
      have claimed : made = (s.allocateToken.1.setEntry i {
          token := s.allocateToken.1.currentToken
          triggerTime := timer + delayMs
          callback := callback
          cbArg := cbArg }, s.allocateToken.1.currentToken) := by
        simp only [made, Executors.deferExec, ignored, free, failed, ↓reduceIte]
      have token : made.2 = s.allocateToken.2 := by
        rw [claimed]
        exact same
      refine ⟨by rw [claimed]; rfl, Or.inr ⟨i, called, some, slotOf_some free, ?_, ?_, ?_⟩⟩
      · rw [token]
        exact failed
      · rw [token]
        exact fresh
      · rw [claimed, some]
        rfl

/-- What `extend_deferred_exec` does: nothing, if no slot has the token. -/
theorem Executors.extendDeferredExec_cases (s : Executors slots Callback Arg) (timer : BitVec 32) (token : BitVec 8) (delayMs : BitVec 32) :
    let after := (s.extendDeferredExec timer token delayMs).1
    (after = s ∧ (delayMs = 0 ∨ token = invalidDeferredToken ∨
        ∀ i, (s.executors i).token ≠ token)) ∨
      ∃ i, delayMs ≠ 0 ∧ token ≠ invalidDeferredToken ∧ (s.executors i).token = token ∧
        after = s.setEntry i { s.executors i with triggerTime := timer + delayMs } := by
  intro after
  by_cases ignored : delayMs = 0 ∨ token = invalidDeferredToken
  · left
    refine ⟨?_, ignored.imp_right Or.inl⟩
    simp only [after, Executors.extendDeferredExec, ignored, ↓reduceIte]
  obtain ⟨some, valid⟩ := not_or.mp ignored
  cases found : s.slotOf token with
  | none =>
    left
    refine ⟨?_, Or.inr (Or.inr (slotOf_none found))⟩
    simp only [after, Executors.extendDeferredExec, ignored, found, ↓reduceIte]
  | some i =>
    right
    refine ⟨i, some, valid, slotOf_some found, ?_⟩
    simp only [after, Executors.extendDeferredExec, ignored, found, ↓reduceIte]

/-- What `cancel_deferred_exec` does: nothing, if no slot has the token. -/
theorem Executors.cancelDeferredExec_cases (s : Executors slots Callback Arg) (token : BitVec 8) :
    let after := (s.cancelDeferredExec token).1
    (after = s ∧ (token = invalidDeferredToken ∨ ∀ i, (s.executors i).token ≠ token)) ∨
      ∃ i, token ≠ invalidDeferredToken ∧ (s.executors i).token = token ∧
        after = s.setEntry i {} := by
  intro after
  by_cases ignored : token = invalidDeferredToken
  · left
    refine ⟨?_, Or.inl ignored⟩
    simp only [after, Executors.cancelDeferredExec, ignored, ↓reduceIte]
  cases found : s.slotOf token with
  | none =>
    left
    refine ⟨?_, Or.inr (slotOf_none found)⟩
    simp only [after, Executors.cancelDeferredExec, ignored, found, ↓reduceIte]
  | some i =>
    right
    refine ⟨i, ignored, slotOf_some found, ?_⟩
    simp only [after, Executors.cancelDeferredExec, ignored, found, ↓reduceIte]

end Table

section Mirror

variable {slots : Nat} {Callback Arg : Type*}

/-- The entry holds a request. -/
structure Holds (entry : DeferredExecutor Callback Arg) (request : Request Callback Arg) :
    Prop where
  callback : entry.callback = some request.callback
  cbArg : entry.cbArg = request.cbArg
  triggerTime : entry.triggerTime = BitVec.ofNat 32 request.due

/-- The live slots have distinct tokens and hold the outstanding requests. -/
structure Mirrors (executors : Fin slots → DeferredExecutor Callback Arg)
    (requests : BitVec 8 → Option (Request Callback Arg)) : Prop where
  distinct : ∀ i j, (executors i).token ≠ invalidDeferredToken →
    (executors i).token = (executors j).token → i = j
  held : ∀ token request, requests token = some request →
    token ≠ invalidDeferredToken ∧ ∃ i, (executors i).token = token
  known : ∀ i, (executors i).token ≠ invalidDeferredToken →
    ∃ request, requests (executors i).token = some request ∧ Holds (executors i) request

variable {executors : Fin slots → DeferredExecutor Callback Arg}
  {requests : BitVec 8 → Option (Request Callback Arg)} {token : BitVec 8} {i : Fin slots}
  {entry : DeferredExecutor Callback Arg} {request : Request Callback Arg}

theorem Mirrors.free (mirrors : Mirrors executors requests) :
    requests invalidDeferredToken = none := by
  cases some : requests invalidDeferredToken with
  | none => rfl
  | some request => exact absurd rfl (mirrors.held _ _ some).1

theorem Mirrors.absent (mirrors : Mirrors executors requests)
    (missing : ∀ i, (executors i).token ≠ token) : requests token = none := by
  cases some : requests token with
  | none => rfl
  | some request =>
    obtain ⟨_, i, same⟩ := mirrors.held token request some
    exact absurd same (missing i)

/-- A token that no slot has names no request. -/
theorem Mirrors.forget (mirrors : Mirrors executors requests)
    (missing : token = invalidDeferredToken ∨ ∀ i, (executors i).token ≠ token) :
    requests token = none := by
  rcases missing with rfl | missing
  · exact mirrors.free
  · exact mirrors.absent missing

/-- A slot is claimed for a request, or the request it holds is replaced. -/
theorem Mirrors.store (mirrors : Mirrors executors requests)
    (slot : (executors i).token = invalidDeferredToken ∨ (executors i).token = token)
    (others : ∀ j, j ≠ i → (executors j).token ≠ token) (valid : token ≠ invalidDeferredToken)
    (named : entry.token = token) (holds : Holds entry request) :
    Mirrors (Function.update executors i entry)
      (Function.update requests token (some request)) := by
  constructor
  · intro j k live same
    by_cases atJ : j = i <;> by_cases atK : k = i
    · rw [atJ, atK]
    · subst atJ
      rw [Function.update_self, Function.update_of_ne atK, named] at same
      exact absurd same.symm (others k atK)
    · subst atK
      rw [Function.update_self, Function.update_of_ne atJ, named] at same
      exact absurd same (others j atJ)
    · rw [Function.update_of_ne atJ] at live same
      rw [Function.update_of_ne atK] at same
      exact mirrors.distinct j k live same
  · intro other held stored
    by_cases here : other = token
    · exact ⟨here ▸ valid, i, by rw [Function.update_self, named, here]⟩
    · rw [Function.update_of_ne here] at stored
      obtain ⟨otherValid, j, same⟩ := mirrors.held other held stored
      refine ⟨otherValid, j, ?_⟩
      rw [Function.update_of_ne]
      · exact same
      · rintro rfl
        rcases slot with free | old
        · exact otherValid (same.symm.trans free)
        · exact here (same.symm.trans old)
  · intro j live
    by_cases atJ : j = i
    · subst atJ
      rw [Function.update_self, named, Function.update_self]
      exact ⟨request, rfl, holds⟩
    · rw [Function.update_of_ne atJ] at live ⊢
      rw [Function.update_of_ne (others j atJ)]
      exact mirrors.known j live

/-- A slot is freed together with its request. -/
theorem Mirrors.remove (mirrors : Mirrors executors requests) (slot : (executors i).token = token)
    (valid : token ≠ invalidDeferredToken) (freed : entry.token = invalidDeferredToken) :
    Mirrors (Function.update executors i entry) (Function.update requests token none) := by
  constructor
  · intro j k live same
    by_cases atJ : j = i <;> by_cases atK : k = i
    · rw [atJ, atK]
    · subst atJ
      rw [Function.update_self] at live
      exact absurd freed live
    · subst atK
      rw [Function.update_self, Function.update_of_ne atJ, freed] at same
      rw [Function.update_of_ne atJ] at live
      exact absurd same live
    · rw [Function.update_of_ne atJ] at live same
      rw [Function.update_of_ne atK] at same
      exact mirrors.distinct j k live same
  · intro other held stored
    have away : other ≠ token := by
      rintro rfl
      rw [Function.update_self] at stored
      cases stored
    rw [Function.update_of_ne away] at stored
    obtain ⟨otherValid, j, same⟩ := mirrors.held other held stored
    refine ⟨otherValid, j, ?_⟩
    rw [Function.update_of_ne]
    · exact same
    · rintro rfl
      exact away (same.symm.trans slot)
  · intro j live
    by_cases atJ : j = i
    · subst atJ
      rw [Function.update_self] at live
      exact absurd freed live
    · rw [Function.update_of_ne atJ] at live ⊢
      have away : (executors j).token ≠ token := by
        intro same
        exact atJ (mirrors.distinct j i live (same.trans slot.symm))
      rw [Function.update_of_ne away]
      exact mirrors.known j live

/-- What a free slot holds besides its token does not matter. -/
theorem Mirrors.blank (mirrors : Mirrors executors requests)
    (slot : (executors i).token = invalidDeferredToken)
    (freed : entry.token = invalidDeferredToken) :
    Mirrors (Function.update executors i entry) requests := by
  have tokens : ∀ j, (Function.update executors i entry j).token = (executors j).token := by
    intro j
    by_cases atJ : j = i
    · rw [atJ, Function.update_self, freed, slot]
    · rw [Function.update_of_ne atJ]
  constructor
  · intro j k live same
    rw [tokens] at live same
    rw [tokens] at same
    exact mirrors.distinct j k live same
  · intro other held stored
    obtain ⟨otherValid, j, same⟩ := mirrors.held other held stored
    exact ⟨otherValid, j, (tokens j).trans same⟩
  · intro j live
    rw [tokens] at live ⊢
    obtain ⟨request, stored, holds⟩ := mirrors.known j live
    refine ⟨request, stored, ?_⟩
    rw [Function.update_of_ne]
    · exact holds
    · rintro rfl
      exact live slot

/-- No request of the slots before `i` was waiting already at `began`. -/
def Settled (executors : Fin slots → DeferredExecutor Callback Arg)
    (requests : BitVec 8 → Option (Request Callback Arg)) (began i : Nat) : Prop :=
  ∀ j : Fin slots, j.val < i → ∀ request, requests (executors j).token = some request →
    began ≤ max request.due request.queued

theorem Settled.store {began bound : Nat} (settled : Settled executors requests began bound)
    (named : entry.token = token) (others : ∀ j, j ≠ i → (executors j).token ≠ token)
    (recent : began ≤ max request.due request.queued) :
    Settled (Function.update executors i entry) (Function.update requests token (some request))
      began bound := by
  intro j below held stored
  by_cases atJ : j = i
  · rw [atJ, Function.update_self, named, Function.update_self] at stored
    rw [← Option.some.inj stored]
    exact recent
  · rw [Function.update_of_ne atJ, Function.update_of_ne (others j atJ)] at stored
    exact settled j below held stored

theorem Settled.remove {began bound : Nat} (settled : Settled executors requests began bound)
    (free : requests invalidDeferredToken = none) (freed : entry.token = invalidDeferredToken) :
    Settled (Function.update executors i entry) (Function.update requests token none)
      began bound := by
  intro j below held stored
  by_cases atJ : j = i
  · rw [atJ, Function.update_self, freed] at stored
    by_cases here : invalidDeferredToken = token
    · rw [here, Function.update_self] at stored
      cases stored
    · rw [Function.update_of_ne here, free] at stored
      cases stored
  · rw [Function.update_of_ne atJ] at stored
    by_cases here : (executors j).token = token
    · rw [here, Function.update_self] at stored
      cases stored
    · rw [Function.update_of_ne here] at stored
      exact settled j below held stored

theorem Settled.blank {began bound : Nat} (settled : Settled executors requests began bound)
    (free : requests invalidDeferredToken = none) (freed : entry.token = invalidDeferredToken) :
    Settled (Function.update executors i entry) requests began bound := by
  intro j below held stored
  by_cases atJ : j = i
  · rw [atJ, Function.update_self, freed, free] at stored
    cases stored
  · rw [Function.update_of_ne atJ] at stored
    exact settled j below held stored

/-- The next slot is settled too, when its request is not due before `began`. -/
theorem Settled.next {began : Nat} (settled : Settled executors requests began i)
    (recent : ∀ request, requests (executors i).token = some request →
      began ≤ max request.due request.queued) :
    Settled executors requests began (i + 1) := by
  intro j below held stored
  rcases Nat.lt_succ_iff_lt_or_eq.mp below with before | here
  · exact settled j before held stored
  · obtain rfl : j = i := Fin.ext here
    exact recent held stored

end Mirror

section Steps

variable {slots : Nat} {Callback Arg : Type*}

/-- What holds of the task where it stands. -/
def AtPoint (s : Deferred slots Callback Arg) : TaskPoint slots → Prop
  | .outside => s.table.lastDeferredExecCheck = BitVec.ofNat 32 s.lastCall
  | .atEntry i now began =>
    s.table.lastDeferredExecCheck = BitVec.ofNat 32 began ∧ now = BitVec.ofNat 32 began ∧
      began ≤ s.clock ∧ Settled s.table.executors s.requests began i
  | .inCallback i now began token own =>
    s.table.lastDeferredExecCheck = BitVec.ofNat 32 began ∧ now = BitVec.ofNat 32 began ∧
      began ≤ s.clock ∧ Settled s.table.executors s.requests began i ∧
      (own = true → token ≠ invalidDeferredToken ∧ (s.table.executors i).token = token)

def Invocation.Timely (invocation : Invocation Callback Arg) : Prop :=
  ∃ request, invocation.request = some request ∧
    invocation.callback = some request.callback ∧ invocation.cbArg = request.cbArg ∧
    request.due ≤ invocation.clock

structure Tracked (s : Deferred slots Callback Arg) : Prop where
  mirrors : Mirrors s.table.executors s.requests
  timely : ∀ invocation ∈ s.invocations, invocation.Timely
  prompt : ∀ token request, s.requests token = some request →
    s.lastCall ≤ max request.due request.queued
  called : s.lastCall ≤ s.clock
  point : AtPoint s s.point

variable {s : Deferred slots Callback Arg} {i : Fin slots} {token : BitVec 8}
  {entry : DeferredExecutor Callback Arg} {request : Request Callback Arg}

theorem tracked_start : Tracked ({} : Deferred slots Callback Arg) := by
  refine ⟨⟨?_, ?_, ?_⟩, ?_, ?_, le_rfl, rfl⟩
  · intro i j live
    exact absurd rfl live
  · intro token request stored
    cases stored
  · intro i live
    exact absurd rfl live
  · intro invocation member
    cases member
  · intro token request stored
    cases stored

/-- Time passes. -/
theorem Tracked.wait (tracked : Tracked s) (ms : Nat) :
    Tracked { s with clock := s.clock + ms } := by
  refine ⟨tracked.mirrors, tracked.timely, tracked.prompt,
    tracked.called.trans (Nat.le_add_right _ _), ?_⟩
  have point := tracked.point
  cases here : s.point with
  | outside =>
    rw [here] at point
    exact point
  | atEntry i now began =>
    rw [here] at point
    obtain ⟨check, same, began, settled⟩ := point
    exact ⟨check, same, began.trans (Nat.le_add_right _ _), settled⟩
  | inCallback i now began token own =>
    rw [here] at point
    obtain ⟨check, same, began, settled, running⟩ := point
    exact ⟨check, same, began.trans (Nat.le_add_right _ _), settled, running⟩

/-- A slot is claimed for a request that is due from now on, or holds one that is. -/
theorem Tracked.store (tracked : Tracked s) {table : Executors slots Callback Arg}
    (executors : table.executors = Function.update s.table.executors i entry)
    (check : table.lastDeferredExecCheck = s.table.lastDeferredExecCheck)
    (slot : (s.table.executors i).token = invalidDeferredToken ∨
      (s.table.executors i).token = token)
    (others : ∀ j, j ≠ i → (s.table.executors j).token ≠ token)
    (valid : token ≠ invalidDeferredToken) (named : entry.token = token)
    (holds : Holds entry request) (recent : s.clock ≤ max request.due request.queued) :
    Tracked { s with
      table := table, requests := Function.update s.requests token (some request) } := by
  refine ⟨?_, tracked.timely, ?_, tracked.called, ?_⟩
  · rw [executors]
    exact tracked.mirrors.store slot others valid named holds
  · intro other held stored
    change Function.update s.requests token (some request) other = some held at stored
    by_cases here : other = token
    · rw [here, Function.update_self] at stored
      rw [← Option.some.inj stored]
      exact tracked.called.trans recent
    · rw [Function.update_of_ne here] at stored
      exact tracked.prompt other held stored
  · have point := tracked.point
    cases here : s.point with
    | outside =>
      rw [here] at point
      exact check.trans point
    | atEntry j now began =>
      rw [here] at point
      obtain ⟨last, same, before, settled⟩ := point
      refine ⟨check.trans last, same, before, ?_⟩
      rw [executors]
      exact settled.store named others (before.trans recent)
    | inCallback j now began running own =>
      rw [here] at point
      obtain ⟨last, same, before, settled, owned⟩ := point
      refine ⟨check.trans last, same, before, ?_, fun isOwn => ?_⟩
      · rw [executors]
        exact settled.store named others (before.trans recent)
      · obtain ⟨runs, here⟩ := owned isOwn
        refine ⟨runs, ?_⟩
        rw [executors]
        by_cases atJ : j = i
        · rw [atJ, Function.update_self, named]
          rw [atJ] at here
          rcases slot with free | old
          · exact absurd (here.symm.trans free) runs
          · exact old.symm.trans here
        · rw [Function.update_of_ne atJ]
          exact here

/-- Slots and requests stay as they are. -/
theorem Tracked.retable (tracked : Tracked s) {table : Executors slots Callback Arg}
    (executors : table.executors = s.table.executors)
    (check : table.lastDeferredExecCheck = s.table.lastDeferredExecCheck) :
    Tracked { s with table := table } := by
  refine ⟨by rw [executors]; exact tracked.mirrors, tracked.timely, tracked.prompt,
    tracked.called, ?_⟩
  have point := tracked.point
  cases here : s.point with
  | outside =>
    rw [here] at point
    exact check.trans point
  | atEntry j now began =>
    rw [here] at point
    simp only [AtPoint, executors, check]
    exact point
  | inCallback j now began running own =>
    rw [here] at point
    simp only [AtPoint, executors, check]
    exact point

theorem Tracked.defer (tracked : Tracked s) (delayMs : BitVec 32) (callback : Option Callback)
    (cbArg : Option Arg) : Tracked (s.defer delayMs callback cbArg) := by
  obtain ⟨check, ⟨failed, executors⟩ | ⟨i, called, some, free, valid, fresh, executors⟩⟩ :=
    s.table.deferExec_cases s.timerRead32 delayMs callback cbArg
  · rw [Deferred.defer, if_pos failed]
    exact tracked.retable executors check
  · rw [Deferred.defer, if_neg valid, some]
    rw [some] at executors check valid fresh
    refine tracked.store executors check (Or.inl free) (fun j _ => fresh j) valid rfl
      ⟨rfl, rfl, ?_⟩ ?_
    · simp [Deferred.timerRead32, BitVec.ofNat_add]
    · exact le_max_of_le_right le_rfl

theorem Tracked.extend (tracked : Tracked s) (token : BitVec 8) (delayMs : BitVec 32) :
    Tracked (s.extend token delayMs) := by
  rcases s.table.extendDeferredExec_cases s.timerRead32 token delayMs with
    ⟨same, ignored⟩ | ⟨i, some, valid, slot, after⟩
  · have requests : (s.extend token delayMs).requests = s.requests := by
      rw [Deferred.extend]
      rcases ignored with zero | missing
      · exact if_pos zero
      · have absent := tracked.mirrors.forget missing
        simp only [absent, Option.map_none, ite_eq_left_iff]
        intro _
        rw [← absent, Function.update_eq_self]
    have unchanged : s.extend token delayMs = s := by
      rw [Deferred.extend] at requests ⊢
      rw [same]
      exact congrArg (fun requests => { s with requests := requests }) requests
    rw [unchanged]
    exact tracked
  · obtain ⟨request, stored, holds⟩ := tracked.mirrors.known i (by rw [slot]; exact valid)
    rw [slot] at stored
    rw [Deferred.extend, if_neg some, stored, after]
    refine tracked.store rfl rfl (Or.inr slot) ?_ valid slot ⟨holds.callback, holds.cbArg, ?_⟩ ?_
    · intro j away same
      exact away (tracked.mirrors.distinct j i (by rw [same]; exact valid) (same.trans slot.symm))
    · simp [Deferred.timerRead32, BitVec.ofNat_add]
    · exact le_max_of_le_right le_rfl

theorem Tracked.prompt_removed (tracked : Tracked s) (token other : BitVec 8)
    (held : Request Callback Arg)
    (stored : Function.update s.requests token none other = some held) :
    s.lastCall ≤ max held.due held.queued := by
  by_cases here : other = token
  · rw [here, Function.update_self] at stored
    cases stored
  · rw [Function.update_of_ne here] at stored
    exact tracked.prompt other held stored

theorem Tracked.cancel (tracked : Tracked s) (token : BitVec 8) : Tracked (s.cancel token) := by
  rcases s.table.cancelDeferredExec_cases token with
    ⟨same, missing⟩ | ⟨i, valid, slot, after⟩
  · have absent := tracked.mirrors.forget missing
    have requests : Function.update s.requests token none = s.requests := by
      rw [← absent, Function.update_eq_self]
    rw [Deferred.cancel, same, requests]
    refine ⟨tracked.mirrors, tracked.timely, tracked.prompt, tracked.called, ?_⟩
    have point := tracked.point
    cases here : s.point with
    | outside =>
      rw [here] at point
      exact point
    | atEntry j now began =>
      rw [here] at point
      exact point
    | inCallback j now began running own =>
      rw [here] at point
      obtain ⟨last, same, before, settled, owned⟩ := point
      exact ⟨last, same, before, settled, fun isOwn => owned (Bool.and_elim_left isOwn)⟩
  · rw [Deferred.cancel, after]
    refine ⟨tracked.mirrors.remove slot valid rfl, tracked.timely, tracked.prompt_removed token,
      tracked.called, ?_⟩
    have point := tracked.point
    have free := tracked.mirrors.free
    cases here : s.point with
    | outside =>
      rw [here] at point
      exact point
    | atEntry j now began =>
      rw [here] at point
      obtain ⟨last, same, before, settled⟩ := point
      exact ⟨last, same, before, settled.remove free rfl⟩
    | inCallback j now began running own =>
      rw [here] at point
      obtain ⟨last, same, before, settled, owned⟩ := point
      refine ⟨last, same, before, settled.remove free rfl, fun isOwn => ?_⟩
      obtain ⟨own, other⟩ := (Bool.and_eq_true _ _).mp isOwn
      obtain ⟨runs, here⟩ := owned own
      refine ⟨runs, ?_⟩
      have away : j ≠ i := by
        rintro rfl
        exact absurd (here.symm.trans slot) (by simpa using other)
      simp only [Executors.setEntry, Function.update_of_ne away]
      exact here

theorem Tracked.enterTask (tracked : Tracked s) (regular : s.regular .deferredExecTask) :
    Tracked s.enterTask := by
  have point := tracked.point
  cases here : s.point with
  | outside =>
    rw [here] at point
    have check : s.table.lastDeferredExecCheck = BitVec.ofNat 32 s.lastCall := point
    have near := regular here
    have called := tracked.called
    have diff : (s.timerRead32 - s.table.lastDeferredExecCheck).toInt =
        (s.clock : Int) - s.lastCall := by
      rw [check]
      exact toInt_diff (by omega) near
    by_cases later : 0 < (s.timerRead32 - s.table.lastDeferredExecCheck).toInt
    · simp only [Deferred.enterTask, here, later, ↓reduceIte]
      refine ⟨tracked.mirrors, tracked.timely, tracked.prompt, tracked.called, rfl, rfl, le_rfl, ?_⟩
      intro j below
      exact absurd below (Nat.not_lt_zero _)
    · -- the same millisecond
      have now : s.clock = s.lastCall := by omega
      simp only [Deferred.enterTask, here, later, ↓reduceIte, now]
      refine ⟨tracked.mirrors, tracked.timely, tracked.prompt, le_rfl, ?_⟩
      simpa [here, AtPoint] using check
  | atEntry i now began =>
    simpa only [Deferred.enterTask, here] using tracked
  | inCallback i now began token own =>
    simpa only [Deferred.enterTask, here] using tracked

theorem Tracked.visitEntry (tracked : Tracked s) (regular : s.regular .visitEntry) :
    Tracked s.visitEntry := by
  have point := tracked.point
  cases here : s.point with
  | outside => simpa only [Deferred.visitEntry, here] using tracked
  | inCallback i now began token own => simpa only [Deferred.visitEntry, here] using tracked
  | atEntry i now began =>
    rw [here] at point
    obtain ⟨check, same, before, settled⟩ := point
    by_cases inside : i < slots
    · have window := regular i now began here inside
      by_cases triggers : s.table.triggers now ⟨i, inside⟩ = true
      · simp only [Deferred.visitEntry, here, inside, triggers, ↓reduceDIte, ↓reduceIte]
        have live : (s.table.executors ⟨i, inside⟩).token ≠ invalidDeferredToken ∧
            ((s.table.executors ⟨i, inside⟩).triggerTime - now).toInt ≤ 0 := by
          simpa [Executors.triggers] using triggers
        obtain ⟨request, stored, holds⟩ := tracked.mirrors.known _ live.1
        obtain ⟨behind, ahead⟩ := window request stored
        have due : request.due ≤ began := by
          have sign := live.2
          rw [holds.triggerTime, same, toInt_diff behind ahead] at sign
          omega
        refine ⟨tracked.mirrors, ?_, tracked.prompt, tracked.called, check, same, before, settled,
          fun _ => ⟨live.1, rfl⟩⟩
        intro invocation member
        rcases List.mem_append.mp member with earlier | last
        · exact tracked.timely invocation earlier
        · rw [List.mem_singleton.mp last]
          exact ⟨request, stored, holds.callback, holds.cbArg, due.trans before⟩
      · simp only [Deferred.visitEntry, here, inside, triggers, Bool.false_eq_true, ↓reduceDIte,
          ↓reduceIte]
        refine ⟨tracked.mirrors, tracked.timely, tracked.prompt, tracked.called, check, same, before,
          ?_⟩
        refine Settled.next (i := ⟨i, inside⟩) settled fun request stored => ?_
        have live : (s.table.executors ⟨i, inside⟩).token ≠ invalidDeferredToken :=
          (tracked.mirrors.held _ _ stored).1
        obtain ⟨known, knownStored, holds⟩ := tracked.mirrors.known _ live
        obtain rfl : request = known := Option.some.inj (stored.symm.trans knownStored)
        obtain ⟨behind, ahead⟩ := window request stored
        have waits : ¬((s.table.executors ⟨i, inside⟩).triggerTime - now).toInt ≤ 0 := by
          intro due
          exact triggers (by simpa [Executors.triggers] using And.intro live due)
        rw [holds.triggerTime, same, toInt_diff behind ahead] at waits
        exact le_max_of_le_left (by omega)
    · -- every slot has been visited
      simp only [Deferred.visitEntry, here, inside, ↓reduceDIte]
      refine ⟨tracked.mirrors, tracked.timely, ?_, before, check⟩
      intro token request stored
      obtain ⟨_, j, slot⟩ := tracked.mirrors.held token request stored
      exact settled j (by omega) request (by rw [slot]; exact stored)

theorem Tracked.callbackReturns (tracked : Tracked s) (delayMs : BitVec 32)
    (regular : s.regular (.callbackReturns delayMs)) : Tracked (s.callbackReturns delayMs) := by
  have point := tracked.point
  cases here : s.point with
  | outside => simpa only [Deferred.callbackReturns, here] using tracked
  | atEntry i now began => simpa only [Deferred.callbackReturns, here] using tracked
  | inCallback i now began token own =>
    rw [here] at point
    obtain ⟨check, same, before, settled, owned⟩ := point
    cases own with
    | false =>
      have free := regular i now began token here
      obtain ⟨entry, freed, after⟩ : ∃ entry : DeferredExecutor Callback Arg,
          entry.token = invalidDeferredToken ∧
            s.table.afterCallback i delayMs = s.table.setEntry i entry := by
        by_cases repeats : 0 < delayMs
        · exact ⟨{ s.table.executors i with
            triggerTime := (s.table.executors i).triggerTime + delayMs }, free, if_pos repeats⟩
        · exact ⟨{}, rfl, if_neg repeats⟩
      simp only [Deferred.callbackReturns, here, Bool.false_eq_true, ↓reduceIte, after]
      refine ⟨tracked.mirrors.blank free freed, tracked.timely, tracked.prompt, tracked.called,
        check, same, before, ?_⟩
      refine (settled.blank tracked.mirrors.free freed).next fun request stored => ?_
      simp only [Function.update_self, freed, tracked.mirrors.free] at stored
      cases stored
    | true =>
      obtain ⟨valid, slot⟩ := owned rfl
      obtain ⟨request, stored, holds⟩ := tracked.mirrors.known i (by rw [slot]; exact valid)
      rw [slot] at stored
      have others : ∀ j, j ≠ i → (s.table.executors j).token ≠ token := by
        intro j away named
        exact away (tracked.mirrors.distinct j i (by rw [named]; exact valid)
          (named.trans slot.symm))
      by_cases repeats : 0 < delayMs
      · have after : s.table.afterCallback i delayMs = s.table.setEntry i
            { s.table.executors i with
              triggerTime := (s.table.executors i).triggerTime + delayMs } := if_pos repeats
        have due : (s.table.executors i).triggerTime + delayMs =
            BitVec.ofNat 32 (request.due + delayMs.toNat) := by
          rw [holds.triggerTime, BitVec.ofNat_add, BitVec.ofNat_toNat, BitVec.setWidth_eq]
        let again : Request Callback Arg :=
          { request with due := request.due + delayMs.toNat, queued := s.clock }
        let extended : DeferredExecutor Callback Arg :=
          { s.table.executors i with
            triggerTime := (s.table.executors i).triggerTime + delayMs }
        have holdsAgain : Holds extended again := ⟨holds.callback, holds.cbArg, due⟩
        have recent : s.clock ≤ max again.due again.queued := le_max_of_le_right le_rfl
        have executors : (s.table.setEntry i extended).executors =
            Function.update s.table.executors i extended := rfl
        have requeued := tracked.store executors rfl (Or.inr slot) others valid slot holdsAgain
          recent
        simp only [Deferred.callbackReturns, here, ↓reduceIte, after, repeats, stored,
          Option.map_some]
        refine ⟨requeued.mirrors, requeued.timely, requeued.prompt, requeued.called, check, same,
          before, ?_⟩
        have behind : began ≤ max again.due again.queued := before.trans recent
        have named : extended.token = token := slot
        refine (settled.store named others behind).next fun later found => ?_
        rw [Function.update_self, named, Function.update_self] at found
        rw [← Option.some.inj found]
        exact behind
      · have after : s.table.afterCallback i delayMs = s.table.setEntry i {} := if_neg repeats
        have free := tracked.mirrors.free
        simp only [Deferred.callbackReturns, here, ↓reduceIte, after, repeats]
        refine ⟨tracked.mirrors.remove slot valid rfl, tracked.timely,
          tracked.prompt_removed token, tracked.called, check, same, before, ?_⟩
        refine (settled.remove free rfl).next fun later found => ?_
        have away : invalidDeferredToken ≠ token := Ne.symm valid
        simp only [Function.update_self, Function.update_of_ne away, free] at found
        cases found

theorem Tracked.exec (tracked : Tracked s) (event : DeferredEvent Callback Arg)
    (regular : s.regular event) : Tracked (s.exec event) := by
  cases event with
  | wait ms => exact tracked.wait ms
  | deferExec delayMs callback cbArg => exact tracked.defer delayMs callback cbArg
  | extendDeferredExec token delayMs => exact tracked.extend token delayMs
  | cancelDeferredExec token => exact tracked.cancel token
  | deferredExecTask => exact tracked.enterTask regular
  | visitEntry => exact tracked.visitEntry regular
  | callbackReturns delayMs => exact tracked.callbackReturns delayMs regular

theorem Tracked.honest (tracked : Tracked s) : Honest s := by
  refine ⟨tracked.mirrors.distinct, tracked.timely, tracked.prompt, ?_⟩
  intro token request stored
  obtain ⟨valid, i, slot⟩ := tracked.mirrors.held token request stored
  obtain ⟨known, found, holds⟩ := tracked.mirrors.known i (by rw [slot]; exact valid)
  rw [slot, stored] at found
  obtain rfl : request = known := Option.some.inj found
  exact ⟨valid, i, slot, holds.callback, holds.cbArg⟩

/-- In every run whose steps are regular, the executors are honest in every state. -/
theorem deferred_executors_honest (slots : Nat) (events : List (DeferredEvent Callback Arg))
    (regular : Along Deferred.exec Deferred.regular ({} : Deferred slots Callback Arg) events) :
    Honest (run Deferred.exec ({} : Deferred slots Callback Arg) events) := by
  have keeps (s : Deferred slots Callback Arg) (event : DeferredEvent Callback Arg)
      (tracked : Tracked s) (fine : s.regular event) : Tracked (s.exec event) :=
    tracked.exec event fine
  exact (run_invariant keeps tracked_start regular).honest

/-- One executor, deferred, run when it is due, and done. -/
theorem deferred_executors_honest_once :
    Honest (run Deferred.exec ({} : Deferred 1 Unit Unit)
      [.wait 1, .deferExec 5 (some ()) none, .wait 6, .deferredExecTask, .visitEntry,
        .callbackReturns 0]) := by
  apply deferred_executors_honest
  refine ⟨trivial, trivial, trivial, fun _ => by decide, ?_, ?_, trivial⟩
  · intro i now began here inside request stored
    have point : TaskPoint.atEntry 0 (7 : BitVec 32) 7 = TaskPoint.atEntry i now began := here
    injection point with first _ start
    subst first start
    have due : some ({ callback := (), cbArg := none, due := 6, queued := 1 } : Request Unit Unit) =
        some request := stored
    rw [← Option.some.inj due]
    decide
  · intro i now began token here
    have point : TaskPoint.inCallback (0 : Fin 1) (7 : BitVec 32) 7 (1 : BitVec 8) true =
        TaskPoint.inCallback i now began token false := here
    injection point with _ _ _ _ own
    cases own

/-- A callback cancels its own token and defers another executor into the slot this
frees. The task then clears the slot, and the new token is lost. -/
theorem refilled_slot_is_cleared :
    ¬Honest (run Deferred.exec ({} : Deferred 8 Bool Unit)
      [.wait 1, .deferExec 1 (some true) none, .wait 1, .deferredExecTask, .visitEntry,
        .cancelDeferredExec 1, .deferExec 5 (some false) none, .callbackReturns 0]) := by
  intro honest
  obtain ⟨_, i, named, _⟩ := honest.valid 2
    { callback := false, cbArg := none, due := 7, queued := 2 } rfl
  revert i
  decide

/-- A delay in the upper half of the range has elapsed at once. -/
example : ¬Honest (run Deferred.exec ({} : Deferred 1 Unit Unit)
    [.wait 1, .deferExec 0x80000001 (some ()) none, .wait 1, .deferredExecTask, .visitEntry]) := by
  intro honest
  obtain ⟨request, found, _, _, due⟩ := honest.timely _ List.mem_cons_self
  rw [← Option.some.inj found] at due
  exact absurd due (by decide)

end Steps

end QmkSonix.Timer
