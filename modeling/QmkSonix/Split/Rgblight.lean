import Mathlib
import QmkSonix.Split.Send

/-! Keeping the RGB lights of the slave in step: `rgblight_handlers_master` and
`rgblight_handlers_slave` of `transactions.c` over the flags of `rgblight.c`. -/

namespace QmkSonix.Split

open QmkSonix.Lib

/-- `rgblight_syncinfo_t`: the configuration and status values, the change flags,
and, for the record, how many changes the master had made when it was read. -/
structure SyncInfo (Values : Type*) where
  values : Values
  changeFlags : BitVec 8
  age : ℕ
  deriving DecidableEq

/-- The lights of the master, the slot of `split_shmem` on both sides, what has
been passed to `rgblight_update_sync`, and what the slave's slot has received
since its last poll. -/
structure Lights (Values : Type*) where
  values : Values
  changeFlags : BitVec 8 := 0
  age : ℕ := 0
  link : Link (SyncInfo Values)
  updates : List (SyncInfo Values) := []
  unpolled : List (SyncInfo Values) := []

/-- A change of the lights on the master, which sets change flags, a call of
`rgblight_handlers_master` with the clock before and after its transaction, or a
poll of the slave. -/
inductive LightEvent (Values : Type*) where
  | change (flags : BitVec 8) (values : Values)
  | sync (now later : BitVec 32)
  | poll
  deriving DecidableEq

namespace Lights

variable {Values : Type*} (lights : Lights Values)

/-- `rgblight_get_syncinfo` -/
def rgblightGetSyncinfo : SyncInfo Values :=
  { values := lights.values, changeFlags := lights.changeFlags, age := lights.age }

/-- `rgblight_handlers_master` starts a transaction. -/
def sends (now : BitVec 32) : Bool :=
  forcedSyncThrottleMs ≤ now - lights.link.lastUpdate ∨ lights.changeFlags ≠ 0

/-- `rgblight_handlers_master`, with a transaction that succeeds if there is one. -/
def rgblightHandlersMaster (now later : BitVec 32) : Lights Values :=
  let rgblightSync := lights.rgblightGetSyncinfo
  let sent := sendIfCondition lights.link (rgblightSync.changeFlags ≠ 0)
    { source := rgblightSync, now := now, later := later, outcome := .delivered }
  let received :=
    if lights.sends now then lights.unpolled ++ [rgblightSync] else lights.unpolled
  { lights with
    link := sent.1
    unpolled := received
    changeFlags := if sent.2 then 0 else lights.changeFlags }

/-- `rgblight_handlers_slave` -/
def rgblightHandlersSlave : Lights Values :=
  let slot := lights.link.slave
  if slot.changeFlags ≠ 0 then
    { lights with
      updates := lights.updates ++ [slot]
      link := { lights.link with slave := { slot with changeFlags := 0 } }
      unpolled := [] }
  else { lights with unpolled := [] }

def exec : LightEvent Values → Lights Values
  | .change flags values =>
    { lights with
      values := values, changeFlags := lights.changeFlags ||| flags, age := lights.age + 1 }
  | .sync now later => lights.rgblightHandlersMaster now later
  | .poll => lights.rgblightHandlersSlave

/-- A poll finds every flag in the slot that was written there since the last. -/
def findsAll (event : LightEvent Values) : Prop :=
  event = .poll → ∀ info ∈ lights.unpolled,
    info.changeFlags &&& lights.link.slave.changeFlags = info.changeFlags

end Lights

/-- The master and the slave before any change. -/
def darkLights {Values : Type*} (values : Values) : Lights Values :=
  let blank : SyncInfo Values := { values := values, changeFlags := 0, age := 0 }
  { values := values, link := { shmem := blank, slave := blank } }

section Runs

variable {Values : Type*}

/-- Every flag that a change sets is passed to `rgblight_update_sync`, with values
no older than the change, once a call of `rgblight_handlers_master` and a poll
have come after it. -/
def NoneLost (start : Lights Values) (events : List (LightEvent Values)) : Prop :=
  ∀ before flags values between now later rest after,
    events = before ++ .change flags values ::
      (between ++ .sync now later :: (rest ++ .poll :: after)) →
    let changed := run Lights.exec start (before ++ [.change flags values])
    let polled := run Lights.exec changed (between ++ .sync now later :: (rest ++ [.poll]))
    ∀ bit, flags.getLsbD bit = true →
      ∃ info ∈ polled.updates.drop changed.updates.length,
        info.changeFlags.getLsbD bit = true ∧ changed.age ≤ info.age

variable {lights : Lights Values} {now later : BitVec 32}

theorem exec_change (flags : BitVec 8) (values : Values) :
    lights.exec (.change flags values) =
      { lights with
        values := values, changeFlags := lights.changeFlags ||| flags, age := lights.age + 1 } :=
  rfl

theorem sync_sends (sends : lights.sends now = true) :
    lights.exec (.sync now later) =
      { lights with
        link := { shmem := lights.rgblightGetSyncinfo, slave := lights.rgblightGetSyncinfo,
                  lastUpdate := later }
        unpolled := lights.unpolled ++ [lights.rgblightGetSyncinfo]
        changeFlags := 0 } := by
  have condition : forcedSyncThrottleMs ≤ now - lights.link.lastUpdate ∨
      decide (lights.rgblightGetSyncinfo.changeFlags ≠ 0) = true := by
    rw [decide_eq_true_iff]
    exact of_decide_eq_true sends
  simp only [Lights.exec, Lights.rgblightHandlersMaster, sendIfCondition, condition, sends,
    transportWrite, ↓reduceIte]

theorem idle_unflagged (idle : lights.sends now = false) : lights.changeFlags = 0 :=
  of_not_not fun flagged => of_decide_eq_false idle (Or.inr flagged)

theorem sync_idle (idle : lights.sends now = false) :
    lights.exec (.sync now later) = lights := by
  have quiet : ¬(forcedSyncThrottleMs ≤ now - lights.link.lastUpdate ∨
      decide (lights.rgblightGetSyncinfo.changeFlags ≠ 0) = true) := by
    rw [decide_eq_true_iff]
    exact of_decide_eq_false idle
  simp only [Lights.exec, Lights.rgblightHandlersMaster, sendIfCondition, if_neg quiet, idle,
    Bool.false_eq_true, ↓reduceIte]
  rw [← idle_unflagged idle]

theorem poll_passes (flagged : lights.link.slave.changeFlags ≠ 0) :
    lights.exec .poll =
      { lights with
        updates := lights.updates ++ [lights.link.slave]
        link := { lights.link with slave := { lights.link.slave with changeFlags := 0 } }
        unpolled := [] } :=
  if_pos flagged

theorem poll_idle (blank : lights.link.slave.changeFlags = 0) :
    lights.exec .poll = { lights with unpolled := [] } :=
  if_neg (not_not.mpr blank)

theorem flagged_of_bit {flags : BitVec 8} {bit : Nat} (set : flags.getLsbD bit = true) :
    flags ≠ 0 := by
  rintro rfl
  simp at set

/-- The updates that the slave has passed on since it had passed on `count`, the
last of them behind a poll. -/
theorem mem_drop_append {updates : List (SyncInfo Values)} {slot info : SyncInfo Values}
    {count : Nat} (member : info ∈ (updates ++ [slot]).drop count) :
    info ∈ updates.drop count ∨ info = slot := by
  rw [List.drop_append] at member
  rcases List.mem_append.mp member with earlier | last
  · exact Or.inl earlier
  · exact Or.inr (List.mem_singleton.mp (List.mem_of_mem_drop last))

end Runs

section Loss

variable {Values : Type*} {bit age count : Nat} {lights : Lights Values}

/-- A flag waits on the master. -/
structure Held (bit age count : Nat) (lights : Lights Values) : Prop where
  flag : lights.changeFlags.getLsbD bit = true
  old : age ≤ lights.age
  passed : count ≤ lights.updates.length

/-- A flag was sent since the last poll, and what is in the slot is new enough. -/
structure Sent (bit age count : Nat) (lights : Lights Values) : Prop where
  info : ∃ info ∈ lights.unpolled, info.changeFlags.getLsbD bit = true
  old : age ≤ lights.age
  slot : age ≤ lights.link.slave.age
  passed : count ≤ lights.updates.length

/-- A flag was passed to `rgblight_update_sync` with values that are new enough. -/
def Passed (bit age count : Nat) (lights : Lights Values) : Prop :=
  ∃ info ∈ lights.updates.drop count, info.changeFlags.getLsbD bit = true ∧ age ≤ info.age

/-- The next call of the handler sends it. -/
theorem Held.sync (held : Held bit age count lights) (now later : BitVec 32) :
    Sent bit age count (lights.exec (.sync now later)) := by
  have sends : lights.sends now = true := decide_eq_true (Or.inr (flagged_of_bit held.flag))
  rw [sync_sends sends]
  exact ⟨⟨lights.rgblightGetSyncinfo, by simp, held.flag⟩, held.old, held.old, held.passed⟩

theorem Held.step (held : Held bit age count lights) (event : LightEvent Values) :
    Held bit age count (lights.exec event) ∨ Sent bit age count (lights.exec event) := by
  cases event with
  | change flags values =>
    left
    rw [exec_change]
    refine ⟨?_, held.old.trans (Nat.le_succ _), held.passed⟩
    rw [BitVec.getLsbD_or, held.flag, Bool.true_or]
  | sync now later => exact Or.inr (held.sync now later)
  | poll =>
    left
    by_cases blank : lights.link.slave.changeFlags = 0
    · rw [poll_idle blank]
      exact ⟨held.flag, held.old, held.passed⟩
    · rw [poll_passes blank]
      exact ⟨held.flag, held.old, held.passed.trans (by simp)⟩

/-- What was sent is passed on by a poll that finds every flag. -/
theorem Sent.poll (sent : Sent bit age count lights) (finds : lights.findsAll .poll) :
    Passed bit age count (lights.exec .poll) := by
  obtain ⟨info, unpolled, flag⟩ := sent.info
  have found : lights.link.slave.changeFlags.getLsbD bit = true := by
    have kept := flag
    rw [← finds rfl info unpolled, BitVec.getLsbD_and, flag, Bool.true_and] at kept
    exact kept
  rw [poll_passes (flagged_of_bit found)]
  refine ⟨lights.link.slave, ?_, found, sent.slot⟩
  rw [List.drop_append_of_le_length sent.passed]
  simp

theorem Sent.step (sent : Sent bit age count lights) {event : LightEvent Values}
    (finds : lights.findsAll event) :
    Sent bit age count (lights.exec event) ∨ Passed bit age count (lights.exec event) := by
  cases event with
  | change flags values =>
    left
    rw [exec_change]
    exact ⟨sent.info, sent.old.trans (Nat.le_succ _), sent.slot, sent.passed⟩
  | sync now later =>
    left
    cases sends : lights.sends now with
    | true =>
      obtain ⟨info, unpolled, flag⟩ := sent.info
      rw [sync_sends sends]
      exact ⟨⟨info, List.mem_append_left _ unpolled, flag⟩, sent.old, sent.old, sent.passed⟩
    | false => rwa [sync_idle sends]
  | poll => exact Or.inr (sent.poll finds)

theorem Passed.step (passed : Passed bit age count lights) (event : LightEvent Values) :
    Passed bit age count (lights.exec event) := by
  obtain ⟨info, member, flag, old⟩ := passed
  cases event with
  | change flags values => exact ⟨info, member, flag, old⟩
  | sync now later =>
    cases sends : lights.sends now with
    | true =>
      rw [sync_sends sends]
      exact ⟨info, member, flag, old⟩
    | false =>
      rw [sync_idle sends]
      exact ⟨info, member, flag, old⟩
  | poll =>
    by_cases blank : lights.link.slave.changeFlags = 0
    · rw [poll_idle blank]
      exact ⟨info, member, flag, old⟩
    · rw [poll_passes blank, Passed, List.drop_append]
      exact ⟨info, List.mem_append_left _ member, flag, old⟩

/-- The flag has left the master. -/
def OffMaster (bit age count : Nat) (lights : Lights Values) : Prop :=
  Sent bit age count lights ∨ Passed bit age count lights

/-- The flag is on its way or has arrived. -/
def Travels (bit age count : Nat) (lights : Lights Values) : Prop :=
  Held bit age count lights ∨ OffMaster bit age count lights

theorem OffMaster.step (off : OffMaster bit age count lights) {event : LightEvent Values}
    (finds : lights.findsAll event) : OffMaster bit age count (lights.exec event) := by
  rcases off with sent | passed
  · exact sent.step finds
  · exact Or.inr (passed.step event)

theorem Travels.step (travels : Travels bit age count lights) {event : LightEvent Values}
    (finds : lights.findsAll event) : Travels bit age count (lights.exec event) := by
  rcases travels with held | off
  · exact (held.step event).imp_right Or.inl
  · exact Or.inr (off.step finds)

/-- If every poll finds every flag, no update is lost. -/
theorem noneLost_of_findsAll {start : Lights Values} {events : List (LightEvent Values)}
    (along : Along Lights.exec Lights.findsAll start events) : NoneLost start events := by
  intro before flags values between now later rest after split changed polled bit flag
  have pieces : events = (before ++ [.change flags values]) ++
      (between ++ ([.sync now later] ++ (rest ++ ([.poll] ++ after)))) := by simp [split]
  rw [pieces, along_append, along_append, along_append, along_append, along_append] at along
  obtain ⟨_, alongBetween, _, alongRest, finds, _⟩ := along
  have set : Travels bit changed.age changed.updates.length changed := by
    refine Or.inl ⟨?_, le_rfl, le_rfl⟩
    simp only [changed, run_append, run_cons, run_nil, exec_change, BitVec.getLsbD_or, flag,
      Bool.or_true]
  have waiting : Travels bit changed.age changed.updates.length (run Lights.exec changed between) :=
    run_invariant (fun _ _ travels finds => travels.step finds) set alongBetween
  have off : OffMaster bit changed.age changed.updates.length
      (run Lights.exec changed (between ++ [.sync now later])) := by
    rw [run_append, run_cons, run_nil]
    rcases waiting with held | off
    · exact Or.inl (held.sync now later)
    · exact off.step (fun poll => nomatch poll)
  have offRest : OffMaster bit changed.age changed.updates.length
      (run Lights.exec changed (between ++ [.sync now later] ++ rest)) := by
    rw [run_append]
    rw [← run_append] at alongRest
    exact run_invariant (fun _ _ off finds => off.step finds) off alongRest
  have ended : polled =
      (run Lights.exec changed (between ++ [.sync now later] ++ rest)).exec .poll := by
    simp [polled, run_append]
  rw [ended]
  rcases offRest with sent | passed
  · refine sent.poll ?_
    simpa [changed, run_append] using finds
  · exact passed.step .poll

/-- Nothing that the slave has passed on since a change is as new as the change. -/
def PassedBefore (start : Lights Values) (change : List (LightEvent Values))
    (lights : Lights Values) : Prop :=
  ∀ info ∈ lights.updates.drop (run Lights.exec start change).updates.length,
    info.age < (run Lights.exec start change).age

theorem PassedBefore.poll {start : Lights Values} {change : List (LightEvent Values)}
    (before : PassedBefore start change lights)
    (slot : lights.link.slave.age < (run Lights.exec start change).age) :
    PassedBefore start change (lights.exec .poll) := by
  by_cases blank : lights.link.slave.changeFlags = 0
  · rw [poll_idle blank]
    exact before
  · rw [poll_passes blank]
    intro info member
    rcases mem_drop_append member with earlier | rfl
    · exact before info earlier
    · exact slot

/-- Where the flags of a state come from: a flag of the master from its last
change, and a flag sent since the last poll from the last change before that call. -/
structure Origins (start : Lights Values) (events : List (LightEvent Values)) : Prop where
  slot : (run Lights.exec start events).link.slave.age ≤ (run Lights.exec start events).age
  held : ∀ bit, (run Lights.exec start events).changeFlags.getLsbD bit = true →
    ∃ before flags values between, events = before ++ .change flags values :: between ∧
      flags.getLsbD bit = true ∧
      PassedBefore start (before ++ [.change flags values]) (run Lights.exec start events) ∧
      (run Lights.exec start events).link.slave.age <
        (run Lights.exec start (before ++ [.change flags values])).age
  sent : ∀ info ∈ (run Lights.exec start events).unpolled, ∀ bit,
    info.changeFlags.getLsbD bit = true →
    ∃ before flags values between now later rest,
      events = before ++ .change flags values :: (between ++ .sync now later :: rest) ∧
      flags.getLsbD bit = true ∧
      PassedBefore start (before ++ [.change flags values]) (run Lights.exec start events)

theorem origins_change {start : Lights Values} {events : List (LightEvent Values)}
    (origins : Origins start events) (flags : BitVec 8) (values : Values) :
    Origins start (events ++ [.change flags values]) := by
  have last : run Lights.exec start (events ++ [.change flags values]) =
      (run Lights.exec start events).exec (.change flags values) := by
    rw [run_append, run_cons, run_nil]
  refine ⟨?_, ?_, ?_⟩
  · rw [last]
    exact origins.slot.trans (Nat.le_succ _)
  · intro bit flag
    by_cases fresh : flags.getLsbD bit = true
    · refine ⟨events, flags, values, [], rfl, fresh, ?_, ?_⟩
      · intro info member
        rw [List.drop_length] at member
        exact absurd member List.not_mem_nil
      · rw [last]
        exact Nat.lt_succ_of_le origins.slot
    · have old : (run Lights.exec start events).changeFlags.getLsbD bit = true := by
        rw [last, exec_change, BitVec.getLsbD_or, Bool.or_eq_true] at flag
        exact flag.resolve_right fresh
      obtain ⟨before, set, was, between, split, bitSet, passed, slot⟩ := origins.held bit old
      refine ⟨before, set, was, between ++ [.change flags values], by simp [split], bitSet, ?_⟩
      rw [last]
      exact ⟨passed, slot⟩
  · intro info unpolled bit flag
    rw [last] at unpolled ⊢
    obtain ⟨before, set, was, between, now, later, rest, split, bitSet, passed⟩ :=
      origins.sent info unpolled bit flag
    exact ⟨before, set, was, between, now, later, rest ++ [.change flags values], by simp [split],
      bitSet, passed⟩

theorem origins_sync {start : Lights Values} {events : List (LightEvent Values)}
    (origins : Origins start events) (now later : BitVec 32) :
    Origins start (events ++ [.sync now later]) := by
  have last : run Lights.exec start (events ++ [.sync now later]) =
      (run Lights.exec start events).exec (.sync now later) := by
    rw [run_append, run_cons, run_nil]
  cases sends : (run Lights.exec start events).sends now with
  | true =>
    rw [sync_sends sends] at last
    refine ⟨?_, ?_, ?_⟩
    · rw [last]
      exact le_rfl
    · intro bit flag
      rw [last] at flag
      simp at flag
    · intro info unpolled bit flag
      rw [last] at unpolled ⊢
      rcases List.mem_append.mp unpolled with earlier | sent
      · obtain ⟨before, set, was, between, called, ended, rest, split, bitSet, passed⟩ :=
          origins.sent info earlier bit flag
        exact ⟨before, set, was, between, called, ended, rest ++ [.sync now later],
          by simp [split], bitSet, passed⟩
      · rw [List.mem_singleton.mp sent] at flag
        obtain ⟨before, set, was, between, split, bitSet, passed, _⟩ := origins.held bit flag
        exact ⟨before, set, was, between, now, later, [], by simp [split], bitSet, passed⟩
  | false =>
    rw [sync_idle sends] at last
    refine ⟨?_, ?_, ?_⟩
    · rw [last]
      exact origins.slot
    · intro bit flag
      rw [last, idle_unflagged sends] at flag
      simp at flag
    · intro info unpolled bit flag
      rw [last] at unpolled ⊢
      obtain ⟨before, set, was, between, called, ended, rest, split, bitSet, passed⟩ :=
        origins.sent info unpolled bit flag
      exact ⟨before, set, was, between, called, ended, rest ++ [.sync now later],
        by simp [split], bitSet, passed⟩

theorem origins_poll {start : Lights Values} {events : List (LightEvent Values)}
    (origins : Origins start events) : Origins start (events ++ [.poll]) := by
  have last : run Lights.exec start (events ++ [.poll]) =
      (run Lights.exec start events).exec .poll := by
    rw [run_append, run_cons, run_nil]
  have kept : (run Lights.exec start (events ++ [.poll])).link.slave.age =
        (run Lights.exec start events).link.slave.age ∧
      (run Lights.exec start (events ++ [.poll])).age = (run Lights.exec start events).age ∧
      (run Lights.exec start (events ++ [.poll])).changeFlags =
        (run Lights.exec start events).changeFlags ∧
      (run Lights.exec start (events ++ [.poll])).unpolled = [] := by
    rw [last]
    by_cases blank : (run Lights.exec start events).link.slave.changeFlags = 0
    · rw [poll_idle blank]
      exact ⟨rfl, rfl, rfl, rfl⟩
    · rw [poll_passes blank]
      exact ⟨rfl, rfl, rfl, rfl⟩
  obtain ⟨slotAge, age, changeFlags, unpolled⟩ := kept
  refine ⟨?_, ?_, ?_⟩
  · rw [slotAge, age]
    exact origins.slot
  · intro bit flag
    rw [changeFlags] at flag
    obtain ⟨before, set, was, between, split, bitSet, passed, slot⟩ := origins.held bit flag
    refine ⟨before, set, was, between ++ [.poll], by simp [split], bitSet, ?_, ?_⟩
    · rw [last]
      exact passed.poll slot
    · rw [slotAge]
      exact slot
  · intro info member
    rw [unpolled] at member
    exact absurd member List.not_mem_nil

theorem origins_run (values : Values) (events : List (LightEvent Values)) :
    Origins (darkLights values) events := by
  induction events using List.reverseRecOn with
  | nil =>
    refine ⟨le_rfl, ?_, ?_⟩
    · intro bit flag
      simp [darkLights] at flag
    · intro info member
      exact absurd member List.not_mem_nil
  | append_singleton earlier event origins =>
    cases event with
    | change flags values => exact origins_change origins flags values
    | sync now later => exact origins_sync origins now later
    | poll => exact origins_poll origins

/-- If no update is lost, every poll finds every flag. -/
theorem findsAll_of_noneLost (values : Values) {events : List (LightEvent Values)}
    (noneLost : NoneLost (darkLights values) events) :
    Along Lights.exec Lights.findsAll (darkLights values) events := by
  rw [along_iff_earlier]
  rintro earlier event ⟨after, split⟩ rfl info unpolled
  apply BitVec.eq_of_getLsbD_eq
  intro bit _
  rw [BitVec.getLsbD_and]
  cases flag : info.changeFlags.getLsbD bit with
  | false => rfl
  | true =>
    obtain ⟨before, flags, was, between, now, later, rest, source, set, passed⟩ :=
      (origins_run values earlier).sent info unpolled bit flag
    have whole : events = before ++ .change flags was ::
        (between ++ .sync now later :: (rest ++ .poll :: after)) := by
      simp [← split, source]
    obtain ⟨update, member, found, recent⟩ :=
      noneLost before flags was between now later rest after whole bit set
    have ended : run Lights.exec (run Lights.exec (darkLights values)
        (before ++ [.change flags was])) (between ++ .sync now later :: (rest ++ [.poll])) =
        (run Lights.exec (darkLights values) earlier).exec .poll := by
      rw [source]
      simp [run_append]
    rw [ended] at member
    by_cases blank : (run Lights.exec (darkLights values) earlier).link.slave.changeFlags = 0
    · rw [poll_idle blank] at member
      exact absurd (passed update member) (Nat.not_lt.mpr recent)
    · rw [poll_passes blank] at member
      rcases mem_drop_append member with old | rfl
      · exact absurd (passed update old) (Nat.not_lt.mpr recent)
      · simpa using found

/-- No update of the lights is lost in a run exactly when each poll of the slave
finds in the slot every flag that was sent since the poll before. -/
theorem rgblight_updates_iff (values : Values) (events : List (LightEvent Values)) :
    NoneLost (darkLights values) events ↔
      Along Lights.exec Lights.findsAll (darkLights values) events :=
  ⟨findsAll_of_noneLost values, noneLost_of_findsAll⟩

/-- The forced transaction, with no flags left, overwrites a change before the
slave has polled it. -/
theorem forced_sync_overwrites :
    ¬NoneLost (darkLights (0 : BitVec 8)) [.change 1 7, .sync 0 0, .sync 100 100, .poll] := by
  intro noneLost
  obtain ⟨info, member, _⟩ := noneLost [] 1 7 [] 0 0 [.sync 100 100] [] rfl 0 rfl
  exact absurd member List.not_mem_nil

end Loss

end QmkSonix.Split
