import Mathlib
import QmkSonix.Lib.Run

/-! The deferred executors of `deferred_exec.c`: a table of slots named by 8-bit
tokens, and a task that runs over it while the callbacks defer, extend and cancel. -/

namespace QmkSonix.Timer

open QmkSonix.Lib

/-- `INVALID_DEFERRED_TOKEN` -/
def invalidDeferredToken : BitVec 8 := 0

/-- `deferred_executor_t` -/
structure DeferredExecutor (Callback Arg : Type*) where
  token : BitVec 8 := invalidDeferredToken
  triggerTime : BitVec 32 := 0
  callback : Option Callback := none
  cbArg : Option Arg := none

/-- The static variables of `deferred_exec.c`, with `MAX_DEFERRED_EXECUTORS` slots. -/
structure Executors (slots : Nat) (Callback Arg : Type*) where
  executors : Fin slots → DeferredExecutor Callback Arg := fun _ => {}
  currentToken : BitVec 8 := 0
  lastDeferredExecCheck : BitVec 32 := 0

namespace Executors

variable {slots : Nat} {Callback Arg : Type*} (s : Executors slots Callback Arg)

/-- `token_can_be_used` -/
def tokenCanBeUsed (token : BitVec 8) : Bool :=
  token ≠ invalidDeferredToken ∧ ∀ i, (s.executors i).token ≠ token

/-- The loop of `allocate_token`, which ends at the latest when the counter is back
at `first`. -/
def allocateLoop (first : BitVec 8) : Nat → BitVec 8 → BitVec 8 × BitVec 8
  | 0, current => (current, invalidDeferredToken)
  | rounds + 1, current =>
    if s.tokenCanBeUsed current then (current, current)
    else if current + 1 = first then (current + 1, invalidDeferredToken)
    else allocateLoop first rounds (current + 1)

/-- `allocate_token` -/
def allocateToken : Executors slots Callback Arg × BitVec 8 :=
  let first := s.currentToken + 1
  let allocated := s.allocateLoop first 256 first
  ({ s with currentToken := allocated.1 }, allocated.2)

/-- The first slot with the given token. -/
def slotOf (token : BitVec 8) : Option (Fin slots) :=
  (List.finRange slots).find? fun i => (s.executors i).token = token

def setEntry (i : Fin slots) (entry : DeferredExecutor Callback Arg) :
    Executors slots Callback Arg :=
  { s with executors := Function.update s.executors i entry }

/-- `defer_exec`, with what `timer_read32` returns. -/
def deferExec (timer delayMs : BitVec 32) (callback : Option Callback) (cbArg : Option Arg) :
    Executors slots Callback Arg × BitVec 8 :=
  if delayMs = 0 ∨ callback.isNone then (s, invalidDeferredToken)
  else match s.slotOf invalidDeferredToken with
    | some i =>
      let allocated := s.allocateToken
      if allocated.2 = invalidDeferredToken then (allocated.1, invalidDeferredToken)
      else
        (allocated.1.setEntry i {
          token := allocated.1.currentToken
          triggerTime := timer + delayMs
          callback := callback
          cbArg := cbArg }, allocated.1.currentToken)
    | none => (s, invalidDeferredToken)

/-- `extend_deferred_exec` -/
def extendDeferredExec (timer : BitVec 32) (token : BitVec 8) (delayMs : BitVec 32) :
    Executors slots Callback Arg × Bool :=
  if delayMs = 0 ∨ token = invalidDeferredToken then (s, false)
  else match s.slotOf token with
    | some i => (s.setEntry i { s.executors i with triggerTime := timer + delayMs }, true)
    | none => (s, false)

/-- `cancel_deferred_exec` -/
def cancelDeferredExec (token : BitVec 8) : Executors slots Callback Arg × Bool :=
  if token = invalidDeferredToken then (s, false)
  else match s.slotOf token with
    | some i => (s.setEntry i {}, true)
    | none => (s, false)

/-- The test of `deferred_exec_task` for an entry to execute. -/
def triggers (now : BitVec 32) (i : Fin slots) : Bool :=
  (s.executors i).token ≠ invalidDeferredToken ∧ ((s.executors i).triggerTime - now).toInt ≤ 0

/-- What `deferred_exec_task` does with the entry after its callback. -/
def afterCallback (i : Fin slots) (delayMs : BitVec 32) : Executors slots Callback Arg :=
  if 0 < delayMs then
    s.setEntry i { s.executors i with triggerTime := (s.executors i).triggerTime + delayMs }
  else s.setEntry i {}

end Executors

/-- What the caller of `defer_exec` asked for: the callback, and, on a clock that
does not wrap, when it is due and when it was queued last. -/
structure Request (Callback Arg : Type*) where
  callback : Callback
  cbArg : Option Arg
  due : Nat
  queued : Nat

/-- A callback that the task has run, its arguments, and the request of its token
at the time. -/
structure Invocation (Callback Arg : Type*) where
  callback : Option Callback
  triggerTime : BitVec 32
  cbArg : Option Arg
  request : Option (Request Callback Arg)
  clock : Nat

/-- Where `deferred_exec_task` is: not running, before the entry `i` of its loop, or
in the callback of the entry `i`. `began` is the clock behind its `now`, and `own`
tells whether the token that is being run is still outstanding. -/
inductive TaskPoint (slots : Nat) where
  | outside
  | atEntry (i : Nat) (now : BitVec 32) (began : Nat)
  | inCallback (i : Fin slots) (now : BitVec 32) (began : Nat) (token : BitVec 8) (own : Bool)
  deriving DecidableEq

def TaskPoint.cancelled {slots : Nat} (cancelledToken : BitVec 8) :
    TaskPoint slots → TaskPoint slots
  | .inCallback i now began token own =>
    .inCallback i now began token (own && token != cancelledToken)
  | point => point

/-- The executors on a running clock, with the requests that are outstanding, the
invocations so far and the time of the last call of the task that has ended. -/
structure Deferred (slots : Nat) (Callback Arg : Type*) where
  table : Executors slots Callback Arg := {}
  clock : Nat := 0
  point : TaskPoint slots := .outside
  requests : BitVec 8 → Option (Request Callback Arg) := fun _ => none
  invocations : List (Invocation Callback Arg) := []
  lastCall : Nat := 0

/-- Time passes, a function of `deferred_exec.c` is called, from outside or from a
callback, or the task goes on: to its next entry, or behind a callback that has returned. -/
inductive DeferredEvent (Callback Arg : Type*) where
  | wait (ms : Nat)
  | deferExec (delayMs : BitVec 32) (callback : Option Callback) (cbArg : Option Arg)
  | extendDeferredExec (token : BitVec 8) (delayMs : BitVec 32)
  | cancelDeferredExec (token : BitVec 8)
  | deferredExecTask
  | visitEntry
  | callbackReturns (delayMs : BitVec 32)

namespace Deferred

variable {slots : Nat} {Callback Arg : Type*} (s : Deferred slots Callback Arg)

/-- `timer_read32` -/
def timerRead32 : BitVec 32 := BitVec.ofNat 32 s.clock

def defer (delayMs : BitVec 32) (callback : Option Callback) (cbArg : Option Arg) :
    Deferred slots Callback Arg :=
  let made := s.table.deferExec s.timerRead32 delayMs callback cbArg
  { s with
    table := made.1
    requests :=
      if made.2 = invalidDeferredToken then s.requests
      else Function.update s.requests made.2 (callback.map fun callback =>
        { callback := callback, cbArg := cbArg, due := s.clock + delayMs.toNat,
          queued := s.clock }) }

def extend (token : BitVec 8) (delayMs : BitVec 32) : Deferred slots Callback Arg :=
  { s with
    table := (s.table.extendDeferredExec s.timerRead32 token delayMs).1
    requests :=
      if delayMs = 0 then s.requests
      else Function.update s.requests token ((s.requests token).map fun request =>
        { request with due := s.clock + delayMs.toNat, queued := s.clock }) }

def cancel (token : BitVec 8) : Deferred slots Callback Arg :=
  { s with
    table := (s.table.cancelDeferredExec token).1
    requests := Function.update s.requests token none
    point := s.point.cancelled token }

/-- `deferred_exec_task` up to its loop. -/
def enterTask : Deferred slots Callback Arg :=
  match s.point with
  | .outside =>
    let now := s.timerRead32
    if 0 < (now - s.table.lastDeferredExecCheck).toInt then
      { s with
        table := { s.table with lastDeferredExecCheck := now }
        point := .atEntry 0 now s.clock }
    else { s with lastCall := s.clock }
  | _ => s

/-- One round of the loop up to the call of a callback, or the end of the loop. -/
def visitEntry : Deferred slots Callback Arg :=
  match s.point with
  | .atEntry i now began =>
    if inside : i < slots then
      let entry := s.table.executors ⟨i, inside⟩
      if s.table.triggers now ⟨i, inside⟩ then
        { s with
          point := .inCallback ⟨i, inside⟩ now began entry.token true
          invocations := s.invocations ++
            [{ callback := entry.callback, triggerTime := entry.triggerTime,
               cbArg := entry.cbArg, request := s.requests entry.token, clock := s.clock }] }
      else { s with point := .atEntry (i + 1) now began }
    else { s with point := .outside, lastCall := began }
  | _ => s

/-- The rest of a round, behind a callback. Its own request, if it is still
outstanding, is over or due again. -/
def callbackReturns (delayMs : BitVec 32) : Deferred slots Callback Arg :=
  match s.point with
  | .inCallback i now began token own =>
    { s with
      table := s.table.afterCallback i delayMs
      requests :=
        if own then Function.update s.requests token
          (if 0 < delayMs then (s.requests token).map fun request =>
            { request with due := request.due + delayMs.toNat, queued := s.clock }
          else none)
        else s.requests
      point := .atEntry (i + 1) now began }
  | _ => s

def exec : DeferredEvent Callback Arg → Deferred slots Callback Arg
  | .wait ms => { s with clock := s.clock + ms }
  | .deferExec delayMs callback cbArg => s.defer delayMs callback cbArg
  | .extendDeferredExec token delayMs => s.extend token delayMs
  | .cancelDeferredExec token => s.cancel token
  | .deferredExecTask => s.enterTask
  | .visitEntry => s.visitEntry
  | .callbackReturns delayMs => s.callbackReturns delayMs

/-- The task is called within 2^31 ms of its last call; an executor that it looks at
is due less than 2^31 ms ahead and at most as far behind the start of the call; a
callback that has cancelled its own token leaves its slot free. -/
def regular : DeferredEvent Callback Arg → Prop
  | .deferredExecTask => s.point = .outside → s.clock < s.lastCall + 2 ^ 31
  | .visitEntry => ∀ i now began, s.point = .atEntry i now began → ∀ inside : i < slots,
      ∀ request, s.requests (s.table.executors ⟨i, inside⟩).token = some request →
        began ≤ request.due + 2 ^ 31 ∧ request.due < began + 2 ^ 31
  | .callbackReturns _ => ∀ i now began token, s.point = .inCallback i now began token false →
      (s.table.executors i).token = invalidDeferredToken
  | _ => True

end Deferred

/-- Live tokens are distinct and not 0; no callback has run before it was due; no
call of the task, made in a later millisecond than a request was due or queued, has
left the request waiting; and every outstanding token is valid. -/
structure Honest {slots : Nat} {Callback Arg : Type*} (s : Deferred slots Callback Arg) : Prop where
  distinct : ∀ i j, (s.table.executors i).token ≠ invalidDeferredToken →
    (s.table.executors i).token = (s.table.executors j).token → i = j
  timely : ∀ invocation ∈ s.invocations, ∃ request, invocation.request = some request ∧
    invocation.callback = some request.callback ∧ invocation.cbArg = request.cbArg ∧
    request.due ≤ invocation.clock
  prompt : ∀ token request, s.requests token = some request →
    s.lastCall ≤ max request.due request.queued
  valid : ∀ token request, s.requests token = some request → token ≠ invalidDeferredToken ∧
    ∃ i, (s.table.executors i).token = token ∧
      (s.table.executors i).callback = some request.callback ∧
      (s.table.executors i).cbArg = request.cbArg

end QmkSonix.Timer
