import QmkSonix.AutoShift.Ends

/-! Whether Auto Shift types a key once, and by the time for which that key is held,
where keys do not repeat. -/

namespace QmkSonix.AutoShift

open Lib

variable {World : Type*} {cfg : Config} {host : Host World} {s : State World}
  {keycode : BitVec 16} {left : Bool} {timeout time : BitVec 16} {base : List (BitVec 16 × Bool)}

/-! ### From a press to the next one -/

/-- A key has been pressed and is not decided. `time` is that of its press, or of the last
release of another key. -/
structure Pending (keycode : BitVec 16) (left : Bool) (timeout time : BitVec 16)
    (base : List (BitVec 16 × Bool)) (s : State World) : Prop where
  inProgress : s.inProgress = true
  lastkey : s.lastkey = keycode
  lastshifted : s.lastshifted = left
  timeout : s.timeout = timeout
  time : s.time = time
  calls : s.calls = base
  enabled : s.enabled = true

/-- No key is pending, and these are the calls so far. -/
structure Idle (calls : List (BitVec 16 × Bool)) (s : State World) : Prop where
  rests : s.inProgress = false
  calls : s.calls = calls

/-- What a key that is decided now is typed as. -/
def Pending.typed (keycode : BitVec 16) (left : Bool) (timeout time : BitVec 16)
    (base : List (BitVec 16 × Bool)) (now : BitVec 16) : List (BitVec 16 × Bool) :=
  base ++ [(keycode, left || decide (timeout ≤ now - time))]

theorem Pending.decided {after : State World} {now : BitVec 16}
    (pending : Pending keycode left timeout time base s) (decides : Decides s after now) :
    Idle (Pending.typed keycode left timeout time base now) after := by
  refine ⟨decides.rests, ?_⟩
  rw [decides.calls, pending.calls, pending.lastkey, pending.lastshifted, pending.timeout,
    pending.time]
  rfl

theorem Pending.processAction (pending : Pending keycode left timeout time base s)
    (key : BitVec 16) (pressed : Bool) :
    Pending keycode left timeout time base (processAction host s key pressed) := by
  obtain ⟨mods, oneshotMods, world, is⟩ := processAction_keeps host s key pressed
  rw [is]
  exact ⟨pending.inProgress, pending.lastkey, pending.lastshifted, pending.timeout, pending.time,
    pending.calls, pending.enabled⟩

theorem Idle.processAction {calls : List (BitVec 16 × Bool)} (idle : Idle calls s)
    (key : BitVec 16) (pressed : Bool) : Idle calls (processAction host s key pressed) := by
  obtain ⟨mods, oneshotMods, world, is⟩ := processAction_keeps host s key pressed
  rw [is]
  exact ⟨idle.rests, idle.calls⟩

/-- The keys whose release decides a pending key: its own, and those that can be held for
something else. -/
def Decider (cfg : Config) (keycode key : BitVec 16) : Prop :=
  (isRetro key ∧ cfg.ignoreModTapInterrupt = false) ∨
    (¬isRetro key ∧ cfg.getAutoShiftedKey key = true ∧ (key = keycode ∨ key = kcNo))

instance (cfg : Config) (keycode key : BitVec 16) : Decidable (Decider cfg keycode key) :=
  inferInstanceAs (Decidable ((_ ∧ _) ∨ (_ ∧ _ ∧ (_ ∨ _))))

/-- A release decides the pending key, or moves its timer, or leaves it alone. -/
theorem Pending.release (pending : Pending keycode left timeout time base s) (cfg : Config)
    (host : Host World) (now : Nat) (key : BitVec 16) :
    if Decider cfg keycode key then
      Idle (Pending.typed keycode left timeout time base (BitVec.ofNat 16 now))
        (step cfg host s (.key now key false))
    else
      Pending keycode left timeout
        (if ¬isRetro key ∧ cfg.getAutoShiftedKey key = true then BitVec.ofNat 16 now else time)
        base (step cfg host s (.key now key false)) := by
  have never : ¬(cfg.autoShiftRepeat = true ∧ ¬cfg.autoShiftNoAutoRepeat = true ∧
      false = true) := by simp
  by_cases retro : isRetro key
  · rw [step_release_retro s now retro, if_neg (fun both : ¬isRetro key ∧ _ => both.1 retro)]
    by_cases taps : cfg.ignoreModTapInterrupt = false
    · rw [if_pos (show Decider cfg keycode key from .inl ⟨retro, taps⟩),
        if_pos ⟨pending.inProgress, taps⟩]
      exact (pending.decided
        (autoshiftEnd_decides host pending.inProgress (.inr rfl) never)).processAction key false
    · rw [if_neg (by simp [Decider, retro, taps]), if_neg (by simp [taps])]
      exact pending.processAction key false
  · have forgotten : Pending keycode left timeout time base (forgetShift s key) := by
      obtain ⟨cancelLeft, cancelRight, forgets⟩ := forgetShift_keeps s key
      rw [forgets]
      exact ⟨pending.inProgress, pending.lastkey, pending.lastshifted, pending.timeout,
        pending.time, pending.calls, pending.enabled⟩
    by_cases auto : cfg.getAutoShiftedKey key = true
    · rw [step_release_auto now retro pending.enabled auto]
      by_cases same : key = keycode ∨ key = kcNo
      · rw [if_pos (show Decider cfg keycode key from .inr ⟨retro, auto, same⟩)]
        exact forgotten.decided (autoshiftEnd_decides host forgotten.inProgress
          (forgotten.lastkey ▸ same) never)
      · have released : Releases (forgetShift s key)
            (autoshiftEnd cfg host (forgetShift s key) key (BitVec.ofNat 16 now) false) key
            (BitVec.ofNat 16 now) :=
          autoshiftEnd_releases host fun both => same (forgotten.lastkey ▸ both.2)
        rw [if_neg (by simp [Decider, retro, same]), if_pos ⟨retro, auto⟩]
        exact ⟨released.inProgress.trans forgotten.inProgress,
          released.lastkey.trans forgotten.lastkey,
          released.lastshifted.trans forgotten.lastshifted,
          released.timeout.trans forgotten.timeout, released.time,
          released.calls.trans forgotten.calls, released.enabled.trans forgotten.enabled⟩
    · rw [step_release_other s now retro (fun both => auto both.2),
        if_neg (by simp [Decider, retro, auto]), if_neg (by simp [auto])]
      exact forgotten.processAction key false

theorem Idle.release {calls : List (BitVec 16 × Bool)} (idle : Idle calls s) (now : Nat)
    (key : BitVec 16) : Idle calls (step cfg host s (.key now key false)) := by
  by_cases retro : isRetro key
  · rw [step_release_retro s now retro, if_neg (by simp [idle.rests])]
    exact idle.processAction key false
  · have forgotten : Idle calls (forgetShift s key) := by
      obtain ⟨cancelLeft, cancelRight, forgets⟩ := forgetShift_keeps s key
      rw [forgets]
      exact ⟨idle.rests, idle.calls⟩
    by_cases auto : s.enabled = true ∧ cfg.getAutoShiftedKey key = true
    · have released : Releases (forgetShift s key)
          (autoshiftEnd cfg host (forgetShift s key) key (BitVec.ofNat 16 now) false) key
          (BitVec.ofNat 16 now) :=
        autoshiftEnd_releases host fun both => by simp [forgotten.rests] at both
      rw [step_release_auto now retro auto.1 auto.2]
      exact ⟨released.inProgress.trans forgotten.rests, released.calls.trans forgotten.calls⟩
    · rw [step_release_other s now retro auto]
      exact forgotten.processAction key false

/-- A scan decides the pending key once the timer says so. -/
theorem Pending.scan (pending : Pending keycode left timeout time base s) (host : Host World)
    (once : cfg.autoShiftRepeat = false) (now : Nat) :
    if timeout ≤ BitVec.ofNat 16 now - time then
      Idle (Pending.typed keycode left timeout time base (BitVec.ofNat 16 now))
        (step cfg host s (.scan now))
    else Pending keycode left timeout time base (step cfg host s (.scan now)) := by
  have same : step cfg host s (.scan now) =
      if timeout ≤ BitVec.ofNat 16 now - time then
        autoshiftEnd cfg host s s.lastkey (BitVec.ofNat 16 now) true
      else s := by
    rw [← pending.timeout, ← pending.time]
    simp [step, autoshiftMatrixScan, pending.inProgress]
  rw [same]
  split
  · exact pending.decided
      (autoshiftEnd_decides host pending.inProgress (.inl rfl) (by simp [once]))
  · exact pending

theorem Idle.scan {calls : List (BitVec 16 × Bool)} (idle : Idle calls s) (now : Nat) :
    Idle calls (step cfg host s (.scan now)) := by
  have same : step cfg host s (.scan now) = s := if_neg (by simp [idle.rests])
  rw [same]
  exact idle

/-- The head of `process_auto_shift` decides the pending key. -/
theorem Pending.settle (pending : Pending keycode left timeout time base s) (host : Host World)
    (now : BitVec 16) :
    Idle (Pending.typed keycode left timeout time base now) (settle cfg host s now) := by
  unfold AutoShift.settle
  rw [if_pos pending.inProgress]
  exact pending.decided (autoshiftEnd_decides host pending.inProgress (.inr rfl) (by simp))

theorem Idle.settle {calls : List (BitVec 16 × Bool)} (idle : Idle calls s) (now : BitVec 16) :
    Idle calls (settle cfg host s now) := by
  unfold AutoShift.settle
  rw [if_neg (by simp [idle.rests])]
  exact idle

/-! ### A press -/

/-- No shift is away. -/
structure Calm (s : State World) : Prop where
  left : s.cancellingLshift = false
  right : s.cancellingRshift = false

theorem Calm.cancelled (calm : Calm s) : s.cancelled = 0 := by
  simp [State.cancelled, calm.left, calm.right]

theorem Calm.autoshiftEnd (calm : Calm s) (host : Host World) (once : cfg.autoShiftRepeat = false)
    (key now : BitVec 16) (matrixTrigger : Bool) :
    Calm (autoshiftEnd cfg host s key now matrixTrigger) := by
  by_cases decides : s.inProgress = true ∧ (key = s.lastkey ∨ key = kcNo)
  · have decided : Decides s (AutoShift.autoshiftEnd cfg host s key now matrixTrigger) now :=
      autoshiftEnd_decides host decides.1 decides.2 (by simp [once])
    exact ⟨decided.left, decided.right⟩
  · have released : Releases s (AutoShift.autoshiftEnd cfg host s key now matrixTrigger) key now :=
      autoshiftEnd_releases host decides
    have shifts := released.shifts
    split at shifts
    · exact ⟨shifts.2.1, shifts.2.2⟩
    · exact ⟨shifts.2.1.trans calm.left, shifts.2.2.trans calm.right⟩

theorem Calm.settle (calm : Calm s) (host : Host World) (once : cfg.autoShiftRepeat = false)
    (now : BitVec 16) : Calm (settle cfg host s now) := by
  unfold AutoShift.settle
  split
  · exact calm.autoshiftEnd host once kcNo now false
  · exact calm

theorem Calm.changeSettings (calm : Calm s) (host : Host World) (key : BitVec 16) :
    Calm (changeSettings host s key) := by
  rcases (changeSettings_sets host s key).shifts with ⟨-, left, right, -⟩ | ⟨-, left, right⟩
  · exact ⟨left.trans calm.left, right.trans calm.right⟩
  · exact ⟨left, right⟩

theorem Calm.processAction (calm : Calm s) (key : BitVec 16) (pressed : Bool) :
    Calm (processAction host s key pressed) := by
  obtain ⟨mods, oneshotMods, world, is⟩ := processAction_keeps host s key pressed
  rw [is]
  exact ⟨calm.left, calm.right⟩

theorem Calm.forgetShift (calm : Calm s) (key : BitVec 16) : Calm (forgetShift s key) := by
  unfold AutoShift.forgetShift
  split_ifs
  · exact ⟨rfl, calm.right⟩
  · exact ⟨calm.left, rfl⟩
  · exact calm

theorem Calm.autoshiftPress (calm : Calm s) (host : Host World) (once : cfg.autoShiftRepeat = false)
    (key now : BitVec 16) : Calm (autoshiftPress cfg host s key now) := by
  have never : ¬repeats cfg s key now := by simp [repeats, once]
  unfold AutoShift.autoshiftPress
  rw [if_neg never]
  split
  · exact ⟨calm.left, calm.right⟩
  · exact ⟨calm.left, calm.right⟩

theorem Calm.step (calm : Calm s) (host : Host World) (once : cfg.autoShiftRepeat = false)
    (event : Event) : Calm (step cfg host s event) := by
  cases event with
  | scan now =>
    unfold AutoShift.step autoshiftMatrixScan
    dsimp only
    split
    · exact calm.autoshiftEnd host once _ _ _
    · exact calm
  | key now key pressed =>
    cases pressed with
    | false =>
      by_cases retro : isRetro key
      · rw [step_release_retro s now retro]
        refine Calm.processAction ?_ key false
        split
        · exact calm.autoshiftEnd host once _ _ _
        · exact calm
      · by_cases auto : s.enabled = true ∧ cfg.getAutoShiftedKey key = true
        · rw [step_release_auto now retro auto.1 auto.2]
          exact (calm.forgetShift key).autoshiftEnd host once _ _ _
        · rw [step_release_other s now retro auto]
          exact (calm.forgetShift key).processAction key false
    | true =>
      have set := (calm.settle host once (BitVec.ofNat 16 now)).changeSettings host key
      have cleared : Calm ({ AutoShift.changeSettings host
          (AutoShift.settle cfg host s (BitVec.ofNat 16 now)) key with lastkey := kcNo }) :=
        ⟨set.left, set.right⟩
      rw [step_press]
      dsimp only
      split_ifs
      · exact cleared.processAction key true
      · exact set.processAction key true
      · exact set.autoshiftPress host once key _
      · exact cleared.processAction key true

theorem calm_run (host : Host World) (once : cfg.autoShiftRepeat = false) (world : World)
    (events : List Event) : Calm (run (step cfg host) (State.start cfg world) events) :=
  run_keeps Calm (fun _ event calm => calm.step host once event) ⟨rfl, rfl⟩ events

/-- What a press of another key leaves as it was. -/
structure Same (s after : State World) : Prop where
  mods : after.mods = s.mods
  oneshotMods : after.oneshotMods = s.oneshotMods
  enabled : after.enabled = s.enabled
  timeout : after.timeout = s.timeout

theorem settle_same (calm : Calm s) (host : Host World) (now : BitVec 16) :
    Same s (settle cfg host s now) := by
  unfold settle
  split
  · next pending =>
    have decides : Decides s (autoshiftEnd cfg host s kcNo now false) now :=
      autoshiftEnd_decides host pending (.inr rfl) (by simp)
    refine ⟨?_, decides.oneshotMods, decides.enabled, decides.timeout⟩
    rw [decides.mods, calm.cancelled]
    exact BitVec.or_zero
  · exact ⟨rfl, rfl, rfl, rfl⟩

theorem changeSettings_congr {after : State World} (host : Host World) (key : BitVec 16)
    (enabled : after.enabled = s.enabled) (timeout : after.timeout = s.timeout) :
    (changeSettings host after key).enabled = (changeSettings host s key).enabled ∧
      (changeSettings host after key).timeout = (changeSettings host s key).timeout := by
  have flush (t : State World) : (flushShift host t).enabled = t.enabled ∧
      (flushShift host t).timeout = t.timeout := by
    obtain ⟨world, is⟩ := flushShift_eq host t
    rw [is]
    exact ⟨rfl, rfl⟩
  unfold changeSettings
  split_ifs
  · rw [(flush _).1, (flush _).2, (flush _).1, (flush _).2, enabled, timeout]
    exact ⟨rfl, rfl⟩
  · exact ⟨rfl, timeout⟩
  · rw [(flush _).1, (flush _).2, (flush _).1, (flush _).2, timeout]
    exact ⟨rfl, rfl⟩
  · exact ⟨enabled, by rw [timeout]⟩
  · exact ⟨enabled, by rw [timeout]⟩
  · exact ⟨enabled, timeout⟩
  · exact ⟨enabled, timeout⟩

/-- The press of an auto-shift key, with Auto Shift on and no other modifier active. -/
structure Accepted (cfg : Config) (host : Host World) (s : State World) (keycode : BitVec 16) :
    Prop where
  enabled : (changeSettings host s keycode).enabled = true
  auto : cfg.getAutoShiftedKey keycode = true
  plain : ¬isRetro keycode
  alone : s.otherMods = 0

/-- Such a key is pending behind its press. -/
theorem Accepted.press (accepted : Accepted cfg host s keycode) (calm : Calm s)
    (once : cfg.autoShiftRepeat = false) (now : Nat) :
    Pending keycode s.leftActive (changeSettings host s keycode).timeout (BitVec.ofNat 16 now)
      (settle cfg host s (BitVec.ofNat 16 now)).calls
      (step cfg host s (.key now keycode true)) := by
  have same : Same s (settle cfg host s (BitVec.ofNat 16 now)) :=
    settle_same calm host (BitVec.ofNat 16 now)
  have sets := changeSettings_sets host (settle cfg host s (BitVec.ofNat 16 now)) keycode
  have calmly := (calm.settle host once (BitVec.ofNat 16 now)).cancelled
  obtain ⟨enabled, timeout⟩ := changeSettings_congr host keycode same.enabled same.timeout
  generalize settled : settle cfg host s (BitVec.ofNat 16 now) = t at *
  have mods : (changeSettings host t keycode).mods = s.mods := by
    rcases sets.shifts with ⟨kept, -⟩ | ⟨kept, -⟩
    · exact kept.trans same.mods
    · rw [kept, calmly, same.mods]
      exact BitVec.or_zero
  have oneshotMods : (changeSettings host t keycode).oneshotMods = s.oneshotMods :=
    sets.oneshotMods.trans same.oneshotMods
  have alone : (changeSettings host t keycode).otherMods = 0 := by
    rw [State.otherMods, mods, oneshotMods]
    exact accepted.alone
  have active : (changeSettings host t keycode).leftActive = s.leftActive := by
    rw [State.leftActive, mods, oneshotMods, State.leftActive]
  have never : ¬repeats cfg (changeSettings host t keycode) keycode (BitVec.ofNat 16 now) := by
    simp [repeats, once]
  rw [step_press, settled]
  dsimp only
  rw [if_neg accepted.plain, if_neg (by simp [enabled, accepted.enabled]), if_pos accepted.auto]
  rw [autoshiftPress, if_neg (by simp [alone]), if_neg never]
  exact ⟨rfl, rfl, active, timeout, rfl, sets.calls, enabled.trans accepted.enabled⟩

/-! ### From the press to the decision -/

/-- When a key is decided at the latest: at its release, or at the next press. -/
def decidedAt (keycode : BitVec 16) (next : Option Nat) : List Event → Option Nat
  | [] => next
  | .scan _ :: rest => decidedAt keycode next rest
  | .key now key _ :: rest => if key = keycode then some now else decidedAt keycode next rest

/-- Whether the timer of a pending key, which the release of another auto-shift key starts
again, reaches the timeout at a scan or where the key is decided. -/
def reaches (cfg : Config) (keycode timeout : BitVec 16) (next : Option Nat) :
    BitVec 16 → List Event → Bool
  | time, [] => next.any fun now => timeout ≤ BitVec.ofNat 16 now - time
  | time, .scan now :: rest =>
    timeout ≤ BitVec.ofNat 16 now - time || reaches cfg keycode timeout next time rest
  | time, .key now key _ :: rest =>
    if Decider cfg keycode key then timeout ≤ BitVec.ofNat 16 now - time
    else reaches cfg keycode timeout next
      (if ¬isRetro key ∧ cfg.getAutoShiftedKey key = true then BitVec.ofNat 16 now else time) rest

/-- Behind some events, and the head of `process_auto_shift` for the next press. -/
def settled (cfg : Config) (host : Host World) (s : State World) : Option Nat → State World
  | none => s
  | some now => settle cfg host s (BitVec.ofNat 16 now)

theorem Idle.settled {calls : List (BitVec 16 × Bool)} (idle : Idle calls s) (host : Host World)
    {events : List Event} (quiet : ∀ now key, .key now key true ∉ events) (next : Option Nat) :
    (settled cfg host (run (step cfg host) s events) next).calls = calls := by
  have idle : Idle calls (run (step cfg host) s events) := by
    induction events generalizing s with
    | nil => exact idle
    | cons event rest ih =>
      have later : ∀ now key, .key now key true ∉ rest :=
        fun now key member => quiet now key (List.mem_cons_of_mem event member)
      cases event with
      | scan now => exact ih (idle.scan now) later
      | key now key pressed =>
        cases pressed with
        | true => exact absurd List.mem_cons_self (quiet now key)
        | false => exact ih (idle.release now key) later
  cases next with
  | none => exact idle.calls
  | some now => exact (idle.settle (BitVec.ofNat 16 now)).calls

/-- A key is typed once, and its timer says how. -/
theorem Pending.run_typed (pending : Pending keycode left timeout time base s) (host : Host World)
    (once : cfg.autoShiftRepeat = false) (auto : cfg.getAutoShiftedKey keycode = true)
    (plain : ¬isRetro keycode) {events : List Event} (quiet : ∀ now key, .key now key true ∉ events)
    {next : Option Nat} {decided : Nat} (decides : decidedAt keycode next events = some decided) :
    (settled cfg host (run (step cfg host) s events) next).calls =
      base ++ [(keycode, left || reaches cfg keycode timeout next time events)] := by
  induction events generalizing s time with
  | nil =>
    obtain rfl : next = some decided := decides
    exact (pending.settle host (BitVec.ofNat 16 decided)).calls
  | cons event rest ih =>
    have later : ∀ now key, .key now key true ∉ rest :=
      fun now key member => quiet now key (List.mem_cons_of_mem event member)
    rw [run_cons]
    cases event with
    | scan now =>
      have scanned := pending.scan host once now
      split at scanned
      · next late =>
        rw [scanned.settled host later next]
        simp [Pending.typed, reaches, late]
      · next early =>
        rw [ih scanned later decides]
        simp [reaches, early]
    | key now key pressed =>
      cases pressed with
      | true => exact absurd List.mem_cons_self (quiet now key)
      | false =>
        have released := pending.release cfg host now key
        split at released
        · next decider =>
          rw [released.settled host later next]
          simp [Pending.typed, reaches, decider]
        · next other =>
          have apart : key ≠ keycode := by
            rintro rfl
            exact other (.inr ⟨plain, auto, .inl rfl⟩)
          rw [decidedAt, if_neg apart] at decides
          rw [ih released later decides]
          simp [reaches, other]

theorem le_of_decidedAt {next : Option Nat} {events : List Event} {decided earlier : Nat}
    (decides : decidedAt keycode next events = some decided)
    (later : ∀ now ∈ events.map Event.now ++ next.toList, earlier ≤ now) : earlier ≤ decided := by
  induction events with
  | nil =>
    obtain rfl : next = some decided := decides
    exact later decided (by simp)
  | cons event rest ih =>
    have rests : ∀ now ∈ rest.map Event.now ++ next.toList, earlier ≤ now :=
      fun now member => later now (List.mem_cons_of_mem _ member)
    cases event with
    | scan now => exact ih decides rests
    | key now key pressed =>
      unfold decidedAt at decides
      split at decides
      · obtain rfl := Option.some.inj decides
        exact later now List.mem_cons_self
      · exact ih decides rests

theorem le_of_elapsed {timeout : BitVec 16} {earlier now : Nat} (later : earlier ≤ now)
    (elapsed : timeout ≤ BitVec.ofNat 16 now - BitVec.ofNat 16 earlier) :
    timeout.toNat ≤ now - earlier := by
  rw [BitVec.le_def, BitVec.toNat_sub, BitVec.toNat_ofNat, BitVec.toNat_ofNat] at elapsed
  omega

/-- The timer of a key never runs ahead of the time since its press. -/
theorem le_of_reaches (auto : cfg.getAutoShiftedKey keycode = true) (plain : ¬isRetro keycode)
    {next : Option Nat} {events : List Event} {pressed earlier decided : Nat}
    (after : pressed ≤ earlier)
    (ordered : (earlier :: (events.map Event.now ++ next.toList)).Pairwise (· ≤ ·))
    (decides : decidedAt keycode next events = some decided)
    (reached : reaches cfg keycode timeout next (BitVec.ofNat 16 earlier) events = true) :
    timeout.toNat ≤ decided - pressed := by
  induction events generalizing earlier with
  | nil =>
    obtain rfl : next = some decided := decides
    have later : earlier ≤ decided := (List.pairwise_cons.mp ordered).1 decided (by simp)
    have elapsed := le_of_elapsed later (of_decide_eq_true reached)
    omega
  | cons event rest ih =>
    have first : earlier ≤ event.now :=
      (List.pairwise_cons.mp ordered).1 event.now List.mem_cons_self
    rw [List.map_cons, List.cons_append] at ordered
    have fromEvent := (List.pairwise_cons.mp ordered).2
    have fromEarlier : (earlier :: (rest.map Event.now ++ next.toList)).Pairwise (· ≤ ·) :=
      ordered.sublist ((List.sublist_cons_self _ _).cons_cons earlier)
    cases event with
    | scan now =>
      have upto : now ≤ decided :=
        le_of_decidedAt (show decidedAt keycode next rest = some decided from decides)
          (List.pairwise_cons.mp fromEvent).1
      unfold reaches at reached
      rcases Bool.or_eq_true_iff.mp reached with late | further
      · have elapsed := le_of_elapsed first (of_decide_eq_true late)
        change earlier ≤ now at first
        change timeout.toNat ≤ now - earlier at elapsed
        omega
      · exact ih after fromEarlier decides further
    | key now key up =>
      change earlier ≤ now at first
      unfold reaches at reached
      split at reached
      · have upto : now ≤ decided := by
          unfold decidedAt at decides
          split at decides
          · exact (Option.some.inj decides).le
          · exact le_of_decidedAt decides (List.pairwise_cons.mp fromEvent).1
        have elapsed := le_of_elapsed first (of_decide_eq_true reached)
        omega
      · next other =>
        have apart : key ≠ keycode := by
          rintro rfl
          exact other (.inr ⟨plain, auto, .inl rfl⟩)
        rw [decidedAt, if_neg apart] at decides
        split at reached
        · exact ih (Nat.le_trans after first) fromEvent decides reached
        · exact ih after fromEarlier decides reached

/-- An auto-shift key that is pressed alone is typed exactly once, before the next press is
processed, and shifted exactly if left shift was active or the key was held for the timeout,
if and only if left shift was active, or the key was not held for the timeout, or its timer
says so too: the timer wraps, starts again with each release of another auto-shift key, and
is read early where a key that can be held for something else is released. -/
theorem typed_by_own_time_iff (host : Host World) (once : cfg.autoShiftRepeat = false)
    {world : World} {history : List Event}
    (reached : run (step cfg host) (State.start cfg world) history = s)
    (accepted : Accepted cfg host s keycode) {pressed decided : Nat} {between : List Event}
    {next : Option Nat} (quiet : ∀ now key, .key now key true ∉ between)
    (ordered : (pressed :: (between.map Event.now ++ next.toList)).Pairwise (· ≤ ·))
    (decides : decidedAt keycode next between = some decided) :
    (settled cfg host (run (step cfg host) s (.key pressed keycode true :: between)) next).calls =
        (settle cfg host s (BitVec.ofNat 16 pressed)).calls ++
          [(keycode, s.leftActive ||
            decide ((changeSettings host s keycode).timeout.toNat ≤ decided - pressed))] ↔
      s.leftActive = true ∨ decided - pressed < (changeSettings host s keycode).timeout.toNat ∨
        reaches cfg keycode (changeSettings host s keycode).timeout next
          (BitVec.ofNat 16 pressed) between = true := by
  have calm : Calm s := reached ▸ calm_run host once world history
  have typed := (accepted.press calm once pressed).run_typed host once accepted.auto accepted.plain
    quiet decides
  have ahead (timed : reaches cfg keycode (changeSettings host s keycode).timeout next
      (BitVec.ofNat 16 pressed) between = true) :
      (changeSettings host s keycode).timeout.toNat ≤ decided - pressed :=
    le_of_reaches accepted.auto accepted.plain le_rfl ordered decides timed
  rw [run_cons, typed, List.append_cancel_left_eq, List.cons.injEq, Prod.mk.injEq]
  cases active : s.leftActive with
  | true => simp
  | false =>
    cases timed : reaches cfg keycode (changeSettings host s keycode).timeout next
        (BitVec.ofNat 16 pressed) between with
    | true => simp [ahead timed]
    | false => simp [Nat.not_le]

/-! ### Two keys that overlap -/

/-- The default options, with no keys of the user's own. -/
def plainConfig : Config where
  autoShiftRepeat := false
  autoShiftNoAutoRepeat := false
  ignoreModTapInterrupt := false
  autoShiftTimeout := 175
  getTappingTerm _ := 200
  getCustomAutoShiftedKey _ := false
  notMod := none_custom

/-- `KC_A` is down. -/
def holdingA : State Unit :=
  step plainConfig silent (State.start plainConfig ()) (.key 0 0x04 true)

theorem accepted_b : Accepted plainConfig silent holdingA 0x05 :=
  ⟨rfl, rfl, by decide, by decide⟩

/-- `KC_B` is pressed while `KC_A` is down, and held for 200 ms. -/
theorem held_key_typed :
    (settled plainConfig silent (run (step plainConfig silent) holdingA
        [.key 100 0x05 true, .key 120 0x04 false, .scan 299, .key 300 0x05 false]) none).calls =
      [(0x04, false), (0x05, true)] := by
  have quiet : ∀ now key, .key now key true ∉
      [Event.key 120 0x04 false, .scan 299, .key 300 0x05 false] := by
    simp
  have typed := (typed_by_own_time_iff silent rfl
    (rfl : run (step plainConfig silent) (State.start plainConfig ()) [.key 0 0x04 true] = holdingA)
    accepted_b quiet (by decide : (100 :: ([120, 299, 300] ++ none.toList)).Pairwise (· ≤ ·))
    (rfl : decidedAt 0x05 none _ = some 300)).mpr (by decide)
  exact typed.trans (by decide)

/-- The same, with `KC_A` released later: that starts the timer of `KC_B` again. -/
theorem late_release_unshifts :
    Accepted plainConfig silent holdingA 0x05 ∧
      (run (step plainConfig silent) holdingA
        [.key 100 0x05 true, .key 150 0x04 false, .key 300 0x05 false]).calls =
      [(0x04, false), (0x05, false)] ∧ 175 ≤ 300 - 100 :=
  ⟨accepted_b, by decide, by decide⟩

end QmkSonix.AutoShift
