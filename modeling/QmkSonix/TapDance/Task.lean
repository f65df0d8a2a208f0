import QmkSonix.Lib.Rounds
import QmkSonix.TapDance.Runs

/-! When `tap_dance_task` returns, and which dances it leaves behind. -/

namespace QmkSonix.TapDance

open Lib

variable {World : Type*} {host : Host World} {terms : Terms} {s after : State World}
  {index : Nat} {history : List Event} {event : Event}

/-! ### The loop -/

section Loop

variable (host : Host World) (terms : Terms) (now : BitVec 16)

/-- A round of the loop of `tap_dance_task`, whose counter is a `uint8_t`, with the dance
it looks at. `highest_td` is -1 before the first event of a dance. -/
def taskRound (point : BitVec 8 × State World) : Round (BitVec 8 × State World) Nat (State World) :=
  match point.2.highestTd with
  | none => ⟨[], .leave point.2⟩
  | some highest =>
    if point.1.toNat ≤ highest then
      ⟨[point.1.toNat],
        .again (point.1 + 1, expireDance host terms now point.2 point.1.toNat)⟩
    else ⟨[], .leave point.2⟩

/-- `tap_dance_task`, for a number of rounds. -/
def tapDanceTaskFor (rounds : Nat) (s : State World) : Option (State World) :=
  (loop (taskRound host terms now) rounds (0, s)).map Prod.snd

end Loop

theorem expireDance_highestTd (now : BitVec 16) (s : State World) (index : Nat) :
    (expireDance host terms now s index).highestTd = s.highestTd :=
  (expireDance_visited host terms now s index).highestTd

/-- A counter of eight bits stays below 256. -/
theorem loop_hangs (host : Host World) (terms : Terms) (now : BitVec 16)
    (highest : s.highestTd = some 255) (rounds : Nat) (counter : BitVec 8) :
    loop (taskRound host terms now) rounds (counter, s) = none := by
  induction rounds generalizing counter s with
  | zero => rfl
  | succ rounds ih =>
    have below : counter.toNat ≤ 255 := Nat.le_of_lt_succ counter.isLt
    have kept : (expireDance host terms now s counter.toNat).highestTd = some 255 :=
      (expireDance_highestTd now s _).trans highest
    have next := ih kept (counter + 1)
    simp only [loop, taskRound, highest, below, ↓reduceIte, next, Option.map_none]

theorem toNat_counter {counter : Nat} (small : counter ≤ 255) :
    (BitVec.ofNat 8 counter).toNat = counter := by
  rw [BitVec.toNat_ofNat]
  exact Nat.mod_eq_of_lt (by omega)

theorem loop_returns (host : Host World) (terms : Terms) (now : BitVec 16) {highest : Nat}
    (is : s.highestTd = some highest) (small : highest < 255) {counter left : Nat} (sum : counter + left = highest + 1) :
    (loop (taskRound host terms now) (left + 1) (BitVec.ofNat 8 counter, s)).map Prod.snd =
      some ((List.range' counter left).foldl (expireDance host terms now) s) := by
  have value : (BitVec.ofNat 8 counter).toNat = counter := toNat_counter (by omega)
  induction left generalizing counter s with
  | zero =>
    have beyond : ¬counter ≤ highest := by omega
    simp [loop, taskRound, is, value, beyond]
  | succ left ih =>
    have below : counter ≤ highest := by omega
    have next : BitVec.ofNat 8 counter + 1 = BitVec.ofNat 8 (counter + 1) := (BitVec.ofNat_add ..).symm
    have kept : (expireDance host terms now s counter).highestTd = some highest :=
      (expireDance_highestTd now s counter).trans is
    have later := ih kept (show counter + 1 + left = highest + 1 by omega)
      (toNat_counter (by omega))
    rw [loop]
    simp only [taskRound, is, value, below, ↓reduceIte, next]
    rw [Option.map_map]
    exact later

/-- The loop ends where `highest_td` is not the largest counter, and does what
`tapDanceTask` says. -/
theorem tapDanceTaskFor_iff (bounded : ∀ highest, s.highestTd = some highest → highest ≤ 255)
    (now : BitVec 16) :
    (∃ rounds, tapDanceTaskFor host terms now rounds s = some after) ↔
      tapDanceTask host terms s now = some after := by
  have only {rounds : Nat} {result : State World}
      (ends : tapDanceTaskFor host terms now rounds s = some result) :
      (∃ rounds, tapDanceTaskFor host terms now rounds s = some after) ↔
        some result = some after := by
    constructor
    · rintro ⟨others, endsToo⟩
      obtain ⟨done, looped, rfl⟩ := Option.map_eq_some_iff.mp ends
      obtain ⟨other, loopedToo, rfl⟩ := Option.map_eq_some_iff.mp endsToo
      rw [loop_unique looped loopedToo]
    · rintro same
      exact ⟨rounds, ends.trans same⟩
  cases is : s.highestTd with
  | none =>
    have rests : tapDanceTaskFor host terms now 1 s = some s := by
      simp [tapDanceTaskFor, loop, taskRound, is]
    have same : tapDanceTask host terms s now = some s := by
      simp [tapDanceTask, State.used, is]
    rw [only rests, same]
  | some highest =>
    by_cases largest : highest = 255
    · subst largest
      simp [tapDanceTaskFor, tapDanceTask, loop_hangs host terms now is, is]
    · have upto := bounded highest is
      have ends := loop_returns host terms now is (by omega) (Nat.zero_add (highest + 1))
      have same : tapDanceTask host terms s now =
          some ((List.range' 0 (highest + 1)).foldl (expireDance host terms now) s) := by
        rw [tapDanceTask, is, if_neg fun full => largest (Option.some.inj full),
          ← List.range_eq_range']
        simp only [State.used, is]
      rw [same]
      exact only ends

/-! ### One call -/

/-- What a call makes of a dance it looks at. -/
def expired (terms : Terms) (now : BitVec 16) (index : Nat) (dance : Dance) : Dance :=
  if dance.count ≠ 0 ∧ terms.term index dance.keycode < now - dance.timer then dance.ended
  else dance

theorem expireDance_dances (now : BitVec 16) (s : State World) (index : Nat) :
    (expireDance host terms now s index).dances =
      Function.update s.dances index (expired terms now index (s.dances index)) := by
  unfold expireDance expired
  dsimp only
  split
  · exact endDance_dances s index
  · rw [Function.update_eq_self]

theorem expireDance_locally (host : Host World) (terms : Terms) (now : BitVec 16) :
    Locally (fun s : State World => s.dances) (expireDance host terms now) (expired terms now) where
  here s index := by
    rw [expireDance_dances, Function.update_self]
  elsewhere s index other apart := by
    rw [expireDance_dances, Function.update_of_ne apart]

theorem used_nodup (s : State World) : s.used.Nodup := by
  unfold State.used
  split
  · exact List.nodup_nil
  · exact List.nodup_range

/-- A call takes every dance up to `highest_td` to what one visit makes of it, and the
others rest already. -/
theorem tapDanceTask_dance (tidy : Tidy s) {now : BitVec 16}
    (returns : tapDanceTask host terms s now = some after) (index : Nat) :
    after.dances index = expired terms now index (s.dances index) := by
  obtain rfl : s.used.foldl (expireDance host terms now) s = after := by
    unfold tapDanceTask at returns
    split at returns
    · cases returns
    · exact Option.some.inj returns
  have locally := expireDance_locally host terms now
  by_cases used : index ∈ s.used
  · exact locally.foldl_here (used_nodup s) used s
  · have rests : (s.dances index).count = 0 := by
      by_contra counts
      exact used (tidy index counts).2.2
    rw [locally.foldl_elsewhere used s, expired, if_neg fun expires => expires.1 rests]

/-- A dance that is not held runs on behind a call exactly if its timer is within its
term. -/
theorem expired_runs_iff {now : BitVec 16} {dance : Dance} (up : dance.pressed = false) :
    (expired terms now index dance).count ≠ 0 ↔
      dance.count ≠ 0 ∧ ¬terms.term index dance.keycode < now - dance.timer := by
  unfold expired
  by_cases expires : dance.count ≠ 0 ∧ terms.term index dance.keycode < now - dance.timer
  · rw [if_pos expires]
    simp [Dance.ended, up, expires.2]
  · rw [if_neg expires]
    tauto

/-! ### What a history leaves -/

/-- Whether an event presses or releases a key. -/
def Event.moves (index : Nat) : Event → Option Bool
  | .key _ keycode pressed => if keycode = td index then some pressed else none
  | .task _ => none

/-- The key went down last. -/
def Held (index : Nat) (history : List Event) : Prop :=
  (history.filterMap (Event.moves index)).getLast? = some true

/-- The time of the last press of a key. -/
def lastPress (index : Nat) (history : List Event) : Option Nat :=
  (tapTimes index history).getLast?

theorem held_append_of_none (still : event.moves index = none) :
    Held index (history ++ [event]) ↔ Held index history := by
  simp [Held, still]

theorem held_append_of_some {pressed : Bool} (moves : event.moves index = some pressed) :
    Held index (history ++ [event]) ↔ pressed = true := by
  simp [Held, moves]

theorem lastPress_append_of_none (still : event.tap index = none) :
    lastPress index (history ++ [event]) = lastPress index history := by
  simp [lastPress, tapTimes, still]

theorem lastPress_append_of_some {time : Nat} (tap : event.tap index = some time) :
    lastPress index (history ++ [event]) = some time := by
  simp [lastPress, tapTimes, tap]

/-- Nothing that happens to a dance between two of its key's events moves its key or its
timer, or starts it. -/
structure Kept (dance after : Dance) : Prop where
  pressed : after.pressed = dance.pressed
  timer : after.timer = dance.timer
  rests : dance.count = 0 → after.count = 0

theorem Kept.refl (dance : Dance) : Kept dance dance := ⟨rfl, rfl, id⟩

theorem Kept.trans {dance later last : Dance} (kept : Kept dance later) (more : Kept later last) :
    Kept dance last :=
  ⟨more.pressed.trans kept.pressed, more.timer.trans kept.timer,
    fun rests => more.rests (kept.rests rests)⟩

theorem Visited.kept {place : Nat} (visited : Visited place s after) (index : Nat) :
    Kept (s.dances index) (after.dances index) := by
  by_cases same : index = place
  · subst same
    rcases visited with rfl | ⟨marked, ended⟩
    · exact .refl _
    · obtain ⟨-, pressed, timer⟩ := Dance.ended_keeps marked
      rw [ended.dance]
      exact ⟨pressed.trans ended.pressed, timer.trans ended.timer,
        fun rests => absurd rests ended.counts⟩
  · rw [visited.dances_of_ne same]
    exact .refl _

theorem foldl_kept {visit : State World → Nat → State World}
    (visits : ∀ s place, Visited place s (visit s place)) (s : State World) (places : List Nat)
    (index : Nat) : Kept (s.dances index) ((places.foldl visit s).dances index) :=
  List.foldlRecOn (motive := fun now => Kept (s.dances index) (now.dances index)) places visit
    (.refl _) fun now kept place _ => kept.trans ((visits now place).kept index)

theorem releaseDance_kept (s : State World) (index : Nat) :
    Kept { s.dances index with pressed := false } ((releaseDance host s index).dances index) := by
  have released : (s.update index fun dance => { dance with pressed := false }).dances index =
      { s.dances index with pressed := false } := by
    simp [State.update]
  unfold releaseDance
  dsimp only
  split
  · rw [resetTapDance_dances, Function.update_self, released]
    exact ⟨rfl, rfl, fun _ => rfl⟩
  · rw [released]
    exact .refl _

/-- Events that leave a key alone keep its dance. -/
theorem step_kept (host : Host World) (terms : Terms) (still : event.moves index = none)
    (s : State World) :
    Kept (s.dances index) ((step host terms s event).dances index) := by
  cases event with
  | task now => exact foldl_kept (expireDance_visited host terms _) s s.used index
  | key now keycode pressed =>
    have apart {place : Nat} (found : danceOf keycode = some place) : index ≠ place := by
      rintro rfl
      obtain ⟨-, rfl⟩ := eq_td_of_danceOf found
      simp [Event.moves] at still
    cases pressed with
    | false =>
      rw [step_release]
      cases found : danceOf keycode with
      | none => exact .refl _
      | some place =>
        dsimp only
        rw [(releaseDance_effect host _ place).1 index (apart found)]
        exact .refl _
    | true =>
      have looped : Kept (s.dances index) ((interrupted host keycode s).dances index) :=
        foldl_kept (interruptDance_visited host keycode) s s.used index
      rw [step_press]
      cases found : danceOf keycode with
      | none => exact looped
      | some place =>
        dsimp only
        rw [(tapDance_effect host _ place keycode _).1 index (apart found)]
        exact looped

theorem step_tapped (host : Host World) (terms : Terms) (inside : index < 256) (now : Nat)
    (s : State World) :
    ((step host terms s (.key now (td index) true)).dances index).pressed = true ∧
      ((step host terms s (.key now (td index) true)).dances index).timer = BitVec.ofNat 16 now := by
  rw [step_press, danceOf_td inside]
  dsimp only
  obtain ⟨-, ⟨finished, dance, -⟩, -⟩ := tapDance_effect host
    { interrupted host (td index) s with
      highestTd := raise (interrupted host (td index) s).highestTd index } index (td index)
    (BitVec.ofNat 16 now)
  rw [dance]
  exact ⟨rfl, rfl⟩

theorem step_released (host : Host World) (terms : Terms) (inside : index < 256) (now : Nat)
    (s : State World) :
    Kept { s.dances index with pressed := false }
      ((step host terms s (.key now (td index) false)).dances index) := by
  rw [step_release, danceOf_td inside]
  exact releaseDance_kept { s with highestTd := raise s.highestTd index } index

/-- What the dances know of the events so far. -/
structure Recalls (history : List Event) (s : State World) : Prop where
  tidy : Tidy s
  bounded : ∀ highest, s.highestTd = some highest → highest ≤ 255
  largest : s.highestTd = some 255 ↔ ∃ now pressed, .key now (td 255) pressed ∈ history
  pressed : ∀ index < 256, (s.dances index).pressed = true ↔ Held index history
  timer : ∀ index < 256, ∀ last, lastPress index history = some last →
    (s.dances index).timer = BitVec.ofNat 16 last
  rests : ∀ index < 256, lastPress index history = none → (s.dances index).count = 0

theorem recalls_start (world : World) : Recalls [] ({ world := world } : State World) where
  tidy := tidy_start world
  bounded _ none := by cases none
  largest := by simp
  pressed _ _ := by simp [Held]
  timer _ _ _ never := by cases never
  rests _ _ _ := rfl

theorem raise_bounded {highest : Option Nat} {place : Nat} (inside : place < 256)
    (bounded : ∀ value, highest = some value → value ≤ 255) :
    (∀ value, raise highest place = some value → value ≤ 255) ∧
      (raise highest place = some 255 ↔ highest = some 255 ∨ place = 255) := by
  cases highest with
  | none =>
    refine ⟨?_, by simp [raise]⟩
    rintro value same
    obtain rfl := Option.some.inj same
    omega
  | some other =>
    have upto := bounded other rfl
    refine ⟨?_, ?_⟩
    · rintro value same
      obtain rfl := Option.some.inj same
      omega
    · simp only [raise, Option.some.injEq]
      omega

theorem Recalls.highest_after (recalls : Recalls history s) (event : Event) :
    (∀ value, highestAfter s.highestTd event = some value → value ≤ 255) ∧
      (highestAfter s.highestTd event = some 255 ↔
        ∃ now pressed, .key now (td 255) pressed ∈ history ++ [event]) := by
  have before : (∃ now pressed, .key now (td 255) pressed ∈ history ++ [event]) ↔
      s.highestTd = some 255 ∨ ∃ now pressed, event = .key now (td 255) pressed := by
    simp only [recalls.largest, List.mem_append, List.mem_singleton, exists_or]
    simp only [eq_comm]
  rw [before]
  cases event with
  | task now => exact ⟨recalls.bounded, by simp [highestAfter]⟩
  | key now keycode pressed =>
    cases found : danceOf keycode with
    | none =>
      have other : keycode ≠ td 255 := by
        rintro rfl
        rw [danceOf_td (by decide)] at found
        cases found
      simp only [highestAfter, found]
      exact ⟨recalls.bounded, by simp [other]⟩
    | some place =>
      obtain ⟨inside, rfl⟩ := eq_td_of_danceOf found
      obtain ⟨bounded, largest⟩ := raise_bounded inside recalls.bounded
      simp only [highestAfter, found]
      refine ⟨bounded, largest.trans (or_congr_right ?_)⟩
      constructor
      · rintro rfl
        exact ⟨now, pressed, rfl⟩
      · rintro ⟨_, _, same⟩
        injection same with _ same _
        exact td_inj inside (by decide) same

theorem eq_key_of_moves {pressed : Bool} (moves : event.moves index = some pressed) :
    ∃ now, event = .key now (td index) pressed := by
  cases event with
  | task now => cases moves
  | key now keycode down =>
    simp only [Event.moves, Option.ite_none_right_eq_some, Option.some.injEq] at moves
    obtain ⟨rfl, rfl⟩ := moves
    exact ⟨now, rfl⟩

theorem tap_of_moves (still : event.moves index = none) : event.tap index = none := by
  cases tap : event.tap index with
  | none => rfl
  | some time =>
    unfold Event.tap at tap
    split at tap
    · simp_all [Event.moves]
    · cases tap

theorem Recalls.dance (recalls : Recalls history s) (inside : index < 256) (event : Event) :
    (((step host terms s event).dances index).pressed = true ↔ Held index (history ++ [event])) ∧
      (∀ last, lastPress index (history ++ [event]) = some last →
        ((step host terms s event).dances index).timer = BitVec.ofNat 16 last) ∧
      (lastPress index (history ++ [event]) = none →
        ((step host terms s event).dances index).count = 0) := by
  have pressed := recalls.pressed index inside
  have timer := recalls.timer index inside
  have rests := recalls.rests index inside
  cases moves : event.moves index with
  | none =>
    have kept := step_kept host terms moves s
    rw [held_append_of_none moves, lastPress_append_of_none (tap_of_moves moves), kept.pressed,
      kept.timer]
    exact ⟨pressed, timer, fun never => kept.rests (rests never)⟩
  | some down =>
    rw [held_append_of_some moves]
    obtain ⟨now, rfl⟩ := eq_key_of_moves moves
    cases down with
    | true =>
      obtain ⟨tapped, started⟩ := step_tapped host terms inside now s
      have tap : (Event.key now (td index) true).tap index = some now := by simp [Event.tap]
      rw [lastPress_append_of_some tap, tapped, started]
      refine ⟨Iff.rfl, ?_, fun never => by cases never⟩
      rintro last same
      rw [Option.some.inj same]
    | false =>
      have kept := step_released host terms inside now s
      rw [lastPress_append_of_none rfl, kept.pressed, kept.timer]
      exact ⟨Iff.rfl, timer, fun never => kept.rests (rests never)⟩

theorem Recalls.step (recalls : Recalls history s) (event : Event) :
    Recalls (history ++ [event]) (TapDance.step host terms s event) := by
  obtain ⟨bounded, largest⟩ := recalls.highest_after event
  have highest := @step_highestTd World host terms s event
  rw [← highest] at bounded largest
  exact
    { tidy := recalls.tidy.step event
      bounded := bounded
      largest := largest
      pressed := fun index inside => (recalls.dance inside event).1
      timer := fun index inside => (recalls.dance inside event).2.1
      rests := fun index inside => (recalls.dance inside event).2.2 }

theorem run_recalls (host : Host World) (terms : Terms) (world : World) (history : List Event) :
    Recalls history (run (TapDance.step host terms) { world := world } history) := by
  induction history using List.reverseRecOn with
  | nil => exact recalls_start world
  | append_singleton earlier event ih =>
    rw [run_append, run_cons, run_nil]
    exact ih.step event

/-! ### The dances left running -/

/-- No dance of a key that is not held runs whose last press is older than its term. -/
def Complete (terms : Terms) (history : List Event) (now : Nat) (s : State World) : Prop :=
  ∀ index < 256, ∀ last, lastPress index history = some last → ¬Held index history →
    (s.dances index).count ≠ 0 → now - last ≤ (terms.term index (td index)).toNat

/-- No dance of a key that is not held is older than its term and still young on the
timer, which counts up to 65535. -/
def Visible (terms : Terms) (history : List Event) (now : Nat) (s : State World) : Prop :=
  ∀ index < 256, ∀ last, lastPress index history = some last → ¬Held index history →
    (s.dances index).count ≠ 0 → (terms.term index (td index)).toNat < now - last →
      (terms.term index (td index)).toNat < (now - last) % 65536

theorem Recalls.complete_iff (recalls : Recalls history s) {now : Nat}
    (returns : tapDanceTask host terms s (BitVec.ofNat 16 now) = some after) :
    Complete terms history now after ↔ Visible terms history now s := by
  refine forall₅_congr fun index inside last pressed up => ?_
  have released : (s.dances index).pressed = false := by
    rw [Bool.eq_false_iff]
    exact fun down => up ((recalls.pressed index inside).mp down)
  rw [tapDanceTask_dance recalls.tidy returns, expired_runs_iff released, and_imp]
  refine imp_congr_right fun runs => ?_
  rw [(recalls.tidy index runs).1, recalls.timer index inside last pressed]
  have elapsed (later : last ≤ now) :
      (BitVec.ofNat 16 now - BitVec.ofNat 16 last).toNat = (now - last) % 65536 := by
    rw [BitVec.toNat_sub, BitVec.toNat_ofNat, BitVec.toNat_ofNat]
    omega
  rw [BitVec.lt_def]
  by_cases later : last ≤ now
  · rw [elapsed later]
    omega
  · have early : now - last = 0 := by omega
    simp [early]

theorem Recalls.unused_iff (recalls : Recalls history s) :
    (∀ time pressed, .key time (td 255) pressed ∉ history) ↔ s.highestTd ≠ some 255 := by
  rw [Ne, recalls.largest]
  simp only [not_exists]

theorem Recalls.returns_complete_iff (recalls : Recalls history s) (host : Host World)
    (terms : Terms) (now : Nat) :
    (∃ rounds after, tapDanceTaskFor host terms (BitVec.ofNat 16 now) rounds s = some after ∧
        Complete terms history now after) ↔
      (∀ time pressed, .key time (td 255) pressed ∉ history) ∧ Visible terms history now s := by
  rw [recalls.unused_iff]
  constructor
  · rintro ⟨rounds, after, ends, complete⟩
    have returns := (tapDanceTaskFor_iff recalls.bounded _).mp ⟨rounds, ends⟩
    refine ⟨fun hangs => ?_, (recalls.complete_iff returns).mp complete⟩
    rw [tapDanceTask, if_pos hangs] at returns
    cases returns
  · rintro ⟨moves, visible⟩
    obtain ⟨after, returns⟩ : ∃ after, tapDanceTask host terms s (BitVec.ofNat 16 now) = some after :=
      ⟨_, if_neg moves⟩
    obtain ⟨rounds, ends⟩ := (tapDanceTaskFor_iff recalls.bounded _).mpr returns
    exact ⟨rounds, after, ends, (recalls.complete_iff returns).mpr visible⟩

/-- The firmware gets through every event while dance 255 is left alone. -/
theorem runs_of_unused (world : World)
    (unused : ∀ time pressed, .key time (td 255) pressed ∉ history) :
    runs host terms { world := world } history =
      some (run (step host terms) { world := world } history) := by
  induction history using List.reverseRecOn with
  | nil => rfl
  | append_singleton earlier event ih =>
    have before : ∀ time pressed, .key time (td 255) pressed ∉ earlier := fun time pressed member =>
      unused time pressed (List.mem_append_left _ member)
    have recalls := run_recalls host terms world earlier
    have next : runs host terms { world := world } (earlier ++ [event]) =
        (runs host terms { world := world } earlier).bind fun s => exec host terms s event := by
      simp [runs]
    rw [next, ih before, run_append, run_cons, run_nil]
    cases event with
    | key now keycode pressed => rfl
    | task now => exact if_neg (recalls.unused_iff.mp before)

/-- Every call of `tap_dance_task` in a run returns, and leaves no dance of a key that is
not held running beyond its term, exactly when the last key of the range is not used
before it, and there is no such dance beyond its term while its timer, which has come
round, is not. -/
theorem tasks_return_complete_iff (host : Host World) (terms : Terms) (world : World)
    (events : List Event) :
    (∀ earlier now, earlier ++ [.task now] <+: events →
        ∃ s, runs host terms { world := world } earlier = some s ∧
          ∃ rounds after, tapDanceTaskFor host terms (BitVec.ofNat 16 now) rounds s = some after ∧
            Complete terms earlier now after) ↔
      ∀ earlier now, earlier ++ [.task now] <+: events →
        (∀ time pressed, .key time (td 255) pressed ∉ earlier) ∧
          Visible terms earlier now (run (step host terms) { world := world } earlier) := by
  refine forall₃_congr fun earlier now called => ?_
  have recalls := run_recalls host terms world earlier
  rw [← recalls.returns_complete_iff host]
  constructor
  · rintro ⟨s, reached, does⟩
    obtain ⟨-, rfl⟩ := (runs_eq_some_iff _ earlier).mp reached
    exact does
  · intro does
    have unused := ((recalls.returns_complete_iff host terms now).mp does).1
    exact ⟨_, runs_of_unused world unused, does⟩

/-- A press of the last key of the range, and the loop never ends. -/
theorem last_dance_hangs :
    ¬∀ earlier now, earlier ++ [.task now] <+: [.key 0 (td 255) true, .task 1] →
      ∃ s, runs silent {} { world := () } earlier = some s ∧
        ∃ rounds after, tapDanceTaskFor silent {} (BitVec.ofNat 16 now) rounds s = some after ∧
          Complete {} earlier now after := by
  intro all
  obtain ⟨s, reached, rounds, after, ends, -⟩ := all [.key 0 (td 255) true] 1 List.prefix_rfl
  obtain ⟨-, rfl⟩ := (runs_eq_some_iff _ _).mp reached
  have highest : (run (step silent {}) { world := () } [.key 0 (td 255) true]).highestTd = some 255 :=
    rfl
  rw [tapDanceTaskFor, loop_hangs silent {} _ highest] at ends
  cases ends

end QmkSonix.TapDance
