import QmkSonix.TapDance.Task

/-! The calls of `on_each_tap`, `on_dance_finished` and `on_reset` that each dance makes,
in their order. -/

namespace QmkSonix.TapDance

open Lib

/-! ### The protocol -/

inductive Call where
  | onEachTap
  | onDanceFinished
  | onReset
  deriving DecidableEq

/-- Where the calls of a dance stand. A dance starts with a tap and ends with its reset. -/
inductive Phase where
  | resting
  | tapped
  | finished
  deriving DecidableEq

/-- A dance may be reset without a call of `on_dance_finished`, for `on_each_tap` may
have marked it as finished. -/
def Phase.next : Phase → Call → Option Phase
  | .finished, .onEachTap => some .finished
  | _, .onEachTap => some .tapped
  | .tapped, .onDanceFinished => some .finished
  | .tapped, .onReset | .finished, .onReset => some .resting
  | _, _ => none

/-- Where the calls so far have led, if they were right. -/
def phase (calls : List Call) : Option Phase :=
  calls.foldlM Phase.next .resting

theorem phase_append {calls more : List Call} {before : Phase} (is : phase calls = some before) :
    phase (calls ++ more) = more.foldlM Phase.next before := by
  rw [phase, List.foldlM_append]
  exact congrArg (· >>= fun now => more.foldlM Phase.next now) is

/-- Nothing rests right behind a tap. -/
theorem phase_tapped {calls : List Call} {now : Phase}
    (is : phase (calls ++ [.onEachTap]) = some now) : now ≠ .resting := by
  rw [phase, List.foldlM_append] at is
  obtain ⟨before, -, tap⟩ := Option.bind_eq_some_iff.mp is
  rintro rfl
  cases before <;> simp [Phase.next] at tap

theorem finishes_of_finished {calls : List Call} {now : Phase} (unreset : .onReset ∉ calls)
    (is : calls.foldlM Phase.next .finished = some now) : .onDanceFinished ∉ calls := by
  induction calls with
  | nil => simp
  | cons call rest ih =>
    obtain ⟨next, does, later⟩ := Option.bind_eq_some_iff.mp is
    rw [List.mem_cons, not_or] at unreset ⊢
    cases call with
    | onEachTap =>
      obtain rfl := Option.some.inj does
      exact ⟨by simp, ih unreset.2 later⟩
    | onDanceFinished => cases does
    | onReset => exact absurd rfl unreset.1

theorem finishes_of_tapped {calls : List Call} {now : Phase} (unreset : .onReset ∉ calls)
    (is : calls.foldlM Phase.next .tapped = some now) : calls.count .onDanceFinished ≤ 1 := by
  induction calls with
  | nil => simp
  | cons call rest ih =>
    obtain ⟨next, does, later⟩ := Option.bind_eq_some_iff.mp is
    rw [List.mem_cons, not_or] at unreset
    cases call with
    | onEachTap =>
      obtain rfl := Option.some.inj does
      simpa using ih unreset.2 later
    | onDanceFinished =>
      obtain rfl := Option.some.inj does
      simp [List.count_eq_zero.mpr (finishes_of_finished unreset.2 later)]
    | onReset => exact absurd rfl unreset.1

/-- The calls between two resets start with a tap, and finish the dance at most once. -/
theorem phase_dance {earlier dance : List Call} {now : Phase}
    (starts : phase earlier = some .resting) (unreset : .onReset ∉ dance)
    (is : phase (earlier ++ dance ++ [.onReset]) = some now) :
    now = .resting ∧ dance.head? = some .onEachTap ∧ dance.count .onDanceFinished ≤ 1 := by
  rw [List.append_assoc, phase_append starts, List.foldlM_append] at is
  obtain ⟨last, dances, resets⟩ := Option.bind_eq_some_iff.mp is
  have rests : now = .resting := by
    cases last <;> simp [Phase.next] at resets
    · exact resets.symm
    · exact resets.symm
  refine ⟨rests, ?_⟩
  cases dance with
  | nil =>
    obtain rfl := Option.some.inj dances
    cases resets
  | cons call rest =>
    obtain ⟨next, does, later⟩ := Option.bind_eq_some_iff.mp dances
    rw [List.mem_cons, not_or] at unreset
    cases call with
    | onEachTap =>
      obtain rfl := Option.some.inj does
      exact ⟨rfl, by simpa using finishes_of_tapped unreset.2 later⟩
    | onDanceFinished => cases does
    | onReset => cases does

/-! ### Dances that record their calls -/

variable {World : Type*}

/-- The same dances, with a record of the calls. -/
def Host.recorded (host : Host World) : Host (World × List (Nat × Call)) where
  getOneshotMods w := host.getOneshotMods w.1
  getMods w := host.getMods w.1
  getWeakMods w := host.getWeakMods w.1
  addMods w mods := (host.addMods w.1 mods, w.2)
  delMods w mods := (host.delMods w.1 mods, w.2)
  addWeakMods w mods := (host.addWeakMods w.1 mods, w.2)
  delWeakMods w mods := (host.delWeakMods w.1 mods, w.2)
  clearWeakMods w := (host.clearWeakMods w.1, w.2)
  sendKeyboardReport w := (host.sendKeyboardReport w.1, w.2)
  onEachTap index dance w :=
    (((host.onEachTap index dance w.1).1, w.2 ++ [(index, .onEachTap)]),
      (host.onEachTap index dance w.1).2)
  onDanceFinished index dance w :=
    (host.onDanceFinished index dance w.1, w.2 ++ [(index, .onDanceFinished)])
  onReset index dance w := (host.onReset index dance w.1, w.2 ++ [(index, .onReset)])

/-- The calls that one dance has made. -/
def State.called (s : State (World × List (Nat × Call))) (index : Nat) : List Call :=
  (s.world.2.filter (·.1 = index)).map (·.2)

variable {host : Host World} {terms : Terms} {s after : State (World × List (Nat × Call))}
  {index : Nat}

/-! ### The calls of a visit -/

/-- What `endDance` calls. -/
def Dance.endCalls (dance : Dance) : List Call :=
  (if dance.finished then [] else [.onDanceFinished]) ++ if dance.pressed then [] else [.onReset]

theorem actionOnDanceFinished_log (s : State (World × List (Nat × Call))) (index : Nat) :
    (actionOnDanceFinished host.recorded s index).world.2 = s.world.2 ++
      if (s.dances index).finished then [] else [(index, .onDanceFinished)] := by
  unfold actionOnDanceFinished
  split
  · rw [List.append_nil]
  · rfl

theorem resetTapDance_log (own : (s.dances index).keycode = td index) (inside : index < 256) :
    (resetTapDance host.recorded s index).world.2 = s.world.2 ++
      if (s.dances index).pressed then [] else [(index, .onReset)] := by
  have place : ((s.dances index).keycode - qkTapDance).toNat = index := by
    have found := danceOf_td inside
    rw [danceOf, ← own] at found
    split at found
    · exact Option.some.inj found
    · cases found
  unfold resetTapDance
  split
  · rw [List.append_nil]
  · dsimp only
    rw [place]
    rfl

theorem endDance_log (own : (s.dances index).keycode = td index) (inside : index < 256) :
    (endDance host.recorded s index).world.2 =
      s.world.2 ++ (s.dances index).endCalls.map fun call => (index, call) := by
  have dances := @actionOnDanceFinished_dances _ host.recorded s index
  have same : ((actionOnDanceFinished host.recorded s index).dances index).pressed =
      (s.dances index).pressed := by
    rw [dances, Function.update_self]
  rw [endDance, resetTapDance_log _ inside, same, actionOnDanceFinished_log, List.append_assoc]
  · unfold Dance.endCalls
    split <;> split <;> rfl
  · rw [dances, Function.update_self]
    exact own

/-- A visit of one of the loops, with what it calls. -/
def Calling (index : Nat) (s after : State (World × List (Nat × Call))) : Prop :=
  after.dances = s.dances ∧ after.world.2 = s.world.2 ∨
    ∃ marked, Ended marked index s after ∧
      after.world.2 = s.world.2 ++ (s.dances index).endCalls.map fun call => (index, call)

theorem interruptDance_calling (tidy : Tidy s) (keycode : BitVec 16) (index : Nat) :
    Calling index s (interruptDance host.recorded keycode s index) := by
  by_cases rests : (s.dances index).count = 0
  · rw [interruptDance_eq, if_pos rests]
    exact .inl ⟨rfl, rfl⟩
  · by_cases again : keycode = (s.dances index).keycode ∧ keycode = s.lastTd
    · rw [interruptDance_eq, if_neg rests, if_pos again]
      exact .inl ⟨rfl, rfl⟩
    · refine .inr ⟨_, interruptDance_ends host.recorded rests again, ?_⟩
      obtain ⟨own, inside, -⟩ := tidy index rests
      have same : (s.update index fun dance =>
          { dance with interrupted := true, interruptingKeycode := keycode }).dances index =
          { s.dances index with interrupted := true, interruptingKeycode := keycode } := by
        simp [State.update]
      rw [interruptDance_eq, if_neg rests, if_neg again]
      show (endDance host.recorded (s.update index _) index).world.2 = _
      rw [endDance_log _ inside, same]
      · rfl
      · rw [same]
        exact own

theorem expireDance_calling (tidy : Tidy s) (now : BitVec 16) (index : Nat) :
    Calling index s (expireDance host.recorded terms now s index) := by
  by_cases expires : (s.dances index).count ≠ 0 ∧
      terms.term index (s.dances index).keycode < now - (s.dances index).timer
  · obtain ⟨own, inside, -⟩ := tidy index expires.1
    refine .inr ⟨_, expireDance_ends host.recorded expires.1 expires.2, ?_⟩
    have ends : expireDance host.recorded terms now s index = endDance host.recorded s index :=
      if_pos expires
    rw [ends, endDance_log own inside]
  · have same : expireDance host.recorded terms now s index = s := if_neg expires
    rw [same]
    exact .inl ⟨rfl, rfl⟩

/-! ### What a loop calls -/

/-- A dance whose calls have been right, with the count that belongs to them. -/
def InStep (calls : List Call) (dance : Dance) : Prop :=
  ∃ now, phase calls = some now ∧ (now = .resting ↔ dance.count = 0) ∧
    (now = .finished → dance.finished = true)

theorem InStep.ended {calls : List Call} {dance marked : Dance} (inStep : InStep calls dance)
    (counts : dance.count ≠ 0) (count : marked.count = dance.count)
    (pressed : marked.pressed = dance.pressed) :
    InStep (calls ++ dance.endCalls) marked.ended := by
  obtain ⟨now, is, resting, finished⟩ := inStep
  have awake : now ≠ .resting := fun rests => counts (resting.mp rests)
  have goes : dance.endCalls.foldlM Phase.next now =
      some (if dance.pressed then if dance.finished then now else .finished else .resting) := by
    unfold Dance.endCalls
    cases now with
    | resting => exact absurd rfl awake
    | tapped =>
      cases dance.finished <;> cases dance.pressed <;> rfl
    | finished =>
      rw [finished rfl]
      cases dance.pressed <;> rfl
  refine ⟨_, (phase_append is).trans goes, ?_⟩
  unfold Dance.ended
  rw [pressed]
  cases dance.pressed with
  | false => simp
  | true =>
    simp only [↓reduceIte, count, counts, iff_false, implies_true, and_true]
    split
    · exact awake
    · simp

/-- Between two events of its key a dance calls no tap, is not reset while its key is
down, and stays in step. -/
structure Between (index : Nat) (s after : State (World × List (Nat × Call))) : Prop where
  pressed : (after.dances index).pressed = (s.dances index).pressed
  calls : ∃ calls, after.called index = s.called index ++ calls ∧ .onEachTap ∉ calls ∧
    (.onReset ∈ calls → (s.dances index).pressed = false)
  inStep : InStep (s.called index) (s.dances index) →
    InStep (after.called index) (after.dances index)

theorem Between.of_same (dance : after.dances index = s.dances index)
    (called : after.called index = s.called index) : Between index s after where
  pressed := congrArg Dance.pressed dance
  calls := ⟨[], by simp [called], by simp, by simp⟩
  inStep inStep := by rwa [dance, called]

theorem Between.trans {later : State (World × List (Nat × Call))} (first : Between index s after)
    (second : Between index after later) : Between index s later where
  pressed := second.pressed.trans first.pressed
  calls := by
    obtain ⟨calls, called, untapped, resets⟩ := first.calls
    obtain ⟨more, calledMore, untappedMore, resetsMore⟩ := second.calls
    refine ⟨calls ++ more, by rw [calledMore, called, List.append_assoc], ?_, ?_⟩
    · rw [List.mem_append, not_or]
      exact ⟨untapped, untappedMore⟩
    · intro reset
      rcases List.mem_append.mp reset with early | late
      · exact resets early
      · exact first.pressed ▸ resetsMore late
  inStep inStep := second.inStep (first.inStep inStep)

theorem called_of_log {added : List (Nat × Call)} (log : after.world.2 = s.world.2 ++ added)
    (index : Nat) :
    after.called index = s.called index ++ (added.filter (·.1 = index)).map (·.2) := by
  rw [State.called, log, List.filter_append, List.map_append]
  rfl

theorem Calling.between {place : Nat} (calling : Calling place s after) (index : Nat) :
    Between index s after := by
  rcases calling with ⟨dances, log⟩ | ⟨marked, ended, log⟩
  · exact .of_same (by rw [dances]) (by rw [State.called, log]; rfl)
  · have called := called_of_log log index
    by_cases here : index = place
    · subst here
      have added : ((s.dances index).endCalls.map fun call => (index, call)).filter (·.1 = index) =
          (s.dances index).endCalls.map fun call => (index, call) := by
        rw [List.filter_eq_self]
        simp
      rw [added, List.map_map] at called
      have calls : after.called index = s.called index ++ (s.dances index).endCalls :=
        called.trans (by simp)
      refine ⟨?_, ⟨_, calls, ?_, ?_⟩, fun inStep => ?_⟩
      · rw [ended.dance, (Dance.ended_keeps marked).2.1, ended.pressed]
      · unfold Dance.endCalls
        split <;> split <;> simp
      · unfold Dance.endCalls
        cases (s.dances index).pressed <;> split <;> simp
      · rw [calls, ended.dance]
        exact inStep.ended ended.counts ended.count ended.pressed
    · have other : place ≠ index := Ne.symm here
      refine .of_same ?_ (called.trans ?_)
      · rw [ended.dances, Function.update_of_ne here]
      · simp [List.filter_map, other]

theorem foldl_between {visit : State (World × List (Nat × Call)) → Nat →
      State (World × List (Nat × Call))}
    (calling : ∀ s place, Tidy s → Calling place s (visit s place) ∧ Tidy (visit s place))
    (tidy : Tidy s) (places : List Nat) (index : Nat) :
    Between index s (places.foldl visit s) := by
  have both : Tidy (places.foldl visit s) ∧ Between index s (places.foldl visit s) :=
    List.foldlRecOn (motive := fun now => Tidy now ∧ Between index s now) places visit
      ⟨tidy, .of_same rfl rfl⟩ fun now kept place _ =>
        ⟨(calling now place kept.1).2, kept.2.trans ((calling now place kept.1).1.between index)⟩
  exact both.2

/-! ### The calls of an event -/

theorem task_between (tidy : Tidy s) (now : BitVec 16) (index : Nat) :
    Between index s (s.used.foldl (expireDance host.recorded terms now) s) :=
  foldl_between (fun _ place tidy => ⟨expireDance_calling tidy now place,
    tidy.visited (expireDance_visited _ _ now _ place)⟩) tidy s.used index

theorem interrupted_between (host : Host World) (tidy : Tidy s) (keycode : BitVec 16)
    (index : Nat) :
    Between index s (interrupted host.recorded keycode s) :=
  foldl_between (fun _ place tidy => ⟨interruptDance_calling tidy keycode place,
    tidy.visited (interruptDance_visited _ keycode _ place)⟩) tidy s.used index

/-- A tap is called once, and takes the dance a count further. -/
theorem tapDance_called (s : State (World × List (Nat × Call))) (index : Nat)
    (keycode now : BitVec 16) (other : Nat) :
    (tapDance host.recorded s index keycode now).called other =
      s.called other ++ if other = index then [.onEachTap] else [] := by
  have log : (tapDance host.recorded s index keycode now).world.2 =
      s.world.2 ++ [(index, .onEachTap)] := rfl
  rw [called_of_log log other]
  by_cases same : other = index
  · simp [same]
  · simp [same, Ne.symm same]

theorem InStep.tapped {calls : List Call} {dance after : Dance} (inStep : InStep calls dance)
    (count : after.count = dance.count + 1) (finished : dance.finished = true → after.finished = true)
    (room : dance.count ≠ 255) : InStep (calls ++ [.onEachTap]) after := by
  obtain ⟨now, is, -, marked⟩ := inStep
  have counts : after.count ≠ 0 := by
    rw [count]
    bv_omega
  have awake {next : Phase} (moves : next ≠ .resting) : next = .resting ↔ after.count = 0 :=
    ⟨fun rests => absurd rests moves, fun zero => absurd zero counts⟩
  cases now with
  | resting => exact ⟨.tapped, phase_append is, awake (by decide), by simp⟩
  | tapped => exact ⟨.tapped, phase_append is, awake (by decide), by simp⟩
  | finished =>
    exact ⟨.finished, phase_append is, awake (by decide), fun _ => finished (marked rfl)⟩

/-- A release calls no tap, and the reset of a dance that has finished. -/
theorem releaseDance_calls (host : Host World) (tidy : Tidy s) (place index : Nat) :
    (∃ calls, (releaseDance host.recorded s place).called index = s.called index ++ calls ∧
        .onEachTap ∉ calls ∧ (.onReset ∈ calls → index = place)) ∧
      (InStep (s.called index) (s.dances index) →
        InStep ((releaseDance host.recorded s place).called index)
          ((releaseDance host.recorded s place).dances index)) := by
  have released : (s.update place fun dance => { dance with pressed := false }).dances place =
      { s.dances place with pressed := false } := by
    simp [State.update]
  by_cases resets : (s.dances place).count ≠ 0 ∧ (s.dances place).finished = true
  · obtain ⟨own, inside, -⟩ := tidy place resets.1
    have does : releaseDance host.recorded s place = resetTapDance host.recorded
        (s.update place fun dance => { dance with pressed := false }) place := by
      unfold releaseDance
      dsimp only
      rw [released]
      exact if_pos resets
    have log : (releaseDance host.recorded s place).world.2 = s.world.2 ++ [(place, .onReset)] := by
      rw [does, resetTapDance_log _ inside, released]
      · rfl
      · rw [released]
        exact own
    have called := called_of_log log index
    by_cases here : index = place
    · subst here
      have calls : (releaseDance host.recorded s index).called index =
          s.called index ++ [.onReset] := by
        rw [called]
        simp
      refine ⟨⟨_, calls, by simp, fun _ => rfl⟩, ?_⟩
      rintro ⟨now, is, resting, -⟩
      rw [calls, does, resetTapDance_dances, Function.update_self, released]
      refine ⟨.resting, (phase_append is).trans ?_, by simp, by simp⟩
      cases now with
      | resting => exact absurd (resting.mp rfl) resets.1
      | tapped => rfl
      | finished => rfl
    · have same : (releaseDance host.recorded s place).called index = s.called index := by
        rw [called]
        simp [Ne.symm here]
      rw [same, (releaseDance_effect _ s place).1 index here]
      exact ⟨⟨[], by simp, by simp, by simp⟩, id⟩
  · have does : releaseDance host.recorded s place =
        s.update place fun dance => { dance with pressed := false } := by
      unfold releaseDance
      dsimp only
      rw [released]
      exact if_neg resets
    rw [does]
    refine ⟨⟨[], by simp [State.called, State.update], by simp, by simp⟩, ?_⟩
    rintro ⟨now, is, resting, finished⟩
    refine ⟨now, is, ?_⟩
    by_cases here : index = place
    · subst here
      rw [released]
      exact ⟨resting, finished⟩
    · have same : (s.update place fun dance => { dance with pressed := false }).dances index =
          s.dances index := by
        simp [State.update, here]
      rw [same]
      exact ⟨resting, finished⟩

/-! ### The last key -/

/-- While a key is the last one, the other dances under way are held and have finished. -/
def Alone {World : Type*} (s : State World) : Prop :=
  ∀ index < 256, s.lastTd = td index → ∀ other ≠ index, Put other s

section Alone

variable {World : Type*} {host : Host World} {terms : Terms} {s after : State World} {index : Nat}

theorem Alone.visited (alone : Alone s) {place : Nat} (visited : Visited place s after) :
    Alone after := by
  intro index inside last other apart
  rcases visited.lastTd with same | zero
  · exact (alone index inside (same ▸ last) other apart).visited visited
  · exact absurd (last.symm.trans zero) (td_ne_zero inside)

theorem Alone.loop (alone : Alone s) {visit : State World → Nat → State World}
    (visits : ∀ s place, Visited place s (visit s place)) (places : List Nat) :
    Alone (places.foldl visit s) :=
  List.foldlRecOn places visit alone fun _ alone place _ => alone.visited (visits _ place)

/-- A press settles every dance but that of its key. -/
theorem interrupted_put (tidy : Tidy s) {keycode : BitVec 16} {other : Nat}
    (apart : keycode ≠ td other) : Put other (interrupted host keycode s) := by
  obtain ⟨settled, put⟩ := foldl_establishes (fun now : State World => Tidy now ∧ now.used = s.used)
    (fun place now => keycode ≠ td place → Put place now)
    (fun now place keeps =>
      ⟨keeps.1.visited (interruptDance_visited host keycode now place),
        (interruptDance_visited host keycode now place).used.trans keeps.2⟩)
    (fun now place keeps apart => by
      by_cases counts : (now.dances place).count = 0
      · rw [interruptDance_eq, if_pos counts]
        exact fun nonzero => absurd counts nonzero
      · refine Put.ended (interruptDance_ends host counts ?_)
        rintro ⟨same, -⟩
        exact apart (same.trans (keeps.1 place counts).1))
    (fun now place _ _ done apart =>
      (done apart).visited (interruptDance_visited host keycode now place))
    s.used ⟨tidy, rfl⟩
  intro counts
  have used : other ∈ s.used := settled.2 ▸ (settled.1 other counts).2.2
  exact put other used apart counts

theorem Alone.step (alone : Alone s) (tidy : Tidy s) (event : Event) :
    Alone (TapDance.step host terms s event) := by
  cases event with
  | task now => exact alone.loop (expireDance_visited host terms _) s.used
  | key now keycode pressed =>
    cases pressed with
    | true =>
      have looped : Alone (interrupted host keycode s) :=
        alone.loop (interruptDance_visited host keycode) s.used
      rw [step_press]
      cases found : danceOf keycode with
      | none => exact looped
      | some place =>
        obtain ⟨inside, rfl⟩ := eq_td_of_danceOf found
        dsimp only
        obtain ⟨others, -, last, -⟩ := tapDance_effect host
          { interrupted host (td place) s with
            highestTd := raise (interrupted host (td place) s).highestTd place } place (td place)
          (BitVec.ofNat 16 now)
        intro index within same other apart
        rw [last] at same
        obtain rfl := td_inj inside within same
        unfold Put
        rw [others other apart]
        by_cases small : other < 256
        · exact interrupted_put tidy fun same => apart (td_inj inside small same).symm
        · have looped : Tidy (interrupted host (td place) s) :=
            List.foldlRecOn (motive := Tidy) s.used _ tidy fun now tidy place _ =>
              tidy.visited (interruptDance_visited host _ now place)
          exact fun counts => absurd (looped other counts).2.1 small
    | false =>
      rw [step_release]
      cases found : danceOf keycode with
      | none => exact alone
      | some place =>
        dsimp only
        obtain ⟨others, -, -, effect⟩ := releaseDance_effect host
          { s with highestTd := raise s.highestTd place } place
        intro index within same other apart
        split at effect
        · exact absurd (same.symm.trans effect.2) (td_ne_zero within)
        · next kept =>
          have put := alone index within (effect.2 ▸ same) other apart
          by_cases here : other = place
          · subst here
            intro counts
            rw [effect.1] at counts
            exact absurd ⟨counts, (put counts).2⟩ kept
          · unfold Put
            rw [others other here]
            exact put

/-- A dance that is full rests behind its key's press if the key is not the last one any
more, and up. -/
theorem interrupted_room (tidy : Tidy s)
    (room : (s.dances index).count = 255 → s.lastTd ≠ td index ∧ (s.dances index).pressed = false)
    (inside : index < 256) :
    ((interrupted host (td index) s).dances index).count ≠ 255 := by
  have visits := interruptDance_visited host (td index)
  by_cases full : (s.dances index).count = 255
  · obtain ⟨last, up⟩ := room full
    have counts : (s.dances index).count ≠ 0 := by
      rw [full]
      decide
    have ended := (foldl_establishes
      (fun now : State World => now.lastTd ≠ td index ∧ (now.dances index).pressed = false)
      (fun place now => place = index → (now.dances index).count = 0)
      (fun now place keeps => by
        refine ⟨?_, ((visits now place).keeps index).2.1.trans keeps.2⟩
        rcases (visits now place).lastTd with same | zero
        · exact same ▸ keeps.1
        · exact fun same => td_ne_zero inside (same.symm.trans zero))
      (fun now place keeps here => by
        subst here
        by_cases rests : (now.dances place).count = 0
        · rw [interruptDance_eq, if_pos rests]
          exact rests
        · rw [(interruptDance_ends host rests fun same => keeps.1 same.2.symm).dance, Dance.ended,
            if_neg (by simp [keeps.2])])
      (fun now place other _ done here => by
        rcases ((visits now place).keeps index).2.2 with same | ⟨zero, -⟩
        · exact same.trans (done here)
        · exact zero)
      s.used ⟨last, up⟩).2 index (tidy index counts).2.2 rfl
    rw [interrupted, ended]
    decide
  · have kept : ((interrupted host (td index) s).dances index).count = (s.dances index).count ∨
        ((interrupted host (td index) s).dances index).count = 0 :=
      List.foldlRecOn (motive := fun now : State World =>
        (now.dances index).count = (s.dances index).count ∨
        (now.dances index).count = 0) s.used _ (.inl rfl) fun now kept place _ => by
          rcases ((visits now place).keeps index).2.2 with same | ⟨zero, -⟩
          · rw [same]
            exact kept
          · exact .inr zero
    rcases kept with same | zero
    · exact same ▸ full
    · rw [zero]
      decide

/-- A dance that is full is still so behind its key's press if the key is the last one, or
down. -/
theorem interrupted_full (tidy : Tidy s) (alone : Alone s) (inside : index < 256)
    (full : (s.dances index).count = 255)
    (stays : s.lastTd = td index ∨ (s.dances index).pressed = true) :
    ((interrupted host (td index) s).dances index).count = 255 := by
  have visits := interruptDance_visited host (td index)
  have counts : (s.dances index).count ≠ 0 := by
    rw [full]
    decide
  rcases stays with last | down
  · have kept : (interrupted host (td index) s).dances index = s.dances index :=
      (List.foldlRecOn (motive := fun now => now.dances index = s.dances index ∧
        now.lastTd = td index ∧ ∀ other ≠ index, Put other now) s.used _
        ⟨rfl, last, alone index inside last⟩ fun now kept place _ => by
          obtain ⟨same, still, put⟩ := kept
          by_cases here : place = index
          · subst here
            have skips : interruptDance host (td place) now place = now := by
              rw [interruptDance_eq, if_neg (by rwa [same]), same, (tidy place counts).1,
                if_pos ⟨rfl, still.symm⟩]
            rw [skips]
            exact ⟨same, still, put⟩
          · refine ⟨((visits now place).dances_of_ne (Ne.symm here)).trans same, ?_,
              fun other apart => (put other apart).visited (visits now place)⟩
            rcases visits now place with idle | ⟨marked, ended⟩
            · rw [idle]
              exact still
            · rw [ended.lastTd, if_pos (put place here ended.counts).1]
              exact still).1
    rw [kept, full]
  · exact (List.foldlRecOn (motive := fun now : State World => (now.dances index).count = 255 ∧
      (now.dances index).pressed = true) s.used _ ⟨full, down⟩ fun now kept place _ => by
        obtain ⟨-, pressed, count⟩ := (visits now place).keeps index
        refine ⟨?_, pressed.trans kept.2⟩
        rcases count with same | ⟨-, up⟩
        · exact same.trans kept.1
        · rw [kept.2] at up
          cases up).1

end Alone

/-! ### The calls of a step -/

/-- What an event may make a dance call, and where that has to leave it: a tap for each
press of its key, behind the other calls, no reset while the key is held, and calls in
their order, from a tap to a reset, with the count at 0 between a reset and a tap. -/
structure Proper (index : Nat) (held : Prop) (event : Event)
    (before after : State (World × List (Nat × Call))) : Prop where
  calls : ∃ calls, after.called index = before.called index ++ calls ++
      (if event.moves index = some true then [.onEachTap] else []) ∧
    .onEachTap ∉ calls ∧ (.onReset ∈ calls → held → event.moves index = some false)
  order : ∃ now, phase (after.called index) = some now ∧
    (now = .resting ↔ (after.dances index).count = 0)

/-- A state in which every dance is in step. -/
structure Orderly (s : State (World × List (Nat × Call))) : Prop where
  tidy : Tidy s
  alone : Alone s
  inStep : ∀ index < 255, InStep (s.called index) (s.dances index)

/-- A press of a key finds room in its dance's counter, or its dance over: the key is up,
and not the last one any more. -/
def Roomy {World : Type*} (s : State World) : Event → Prop
  | .key _ keycode true => ∀ index < 255, keycode = td index → (s.dances index).count = 255 →
    s.lastTd ≠ td index ∧ (s.dances index).pressed = false
  | _ => True

variable {event : Event}

/-- What a step calls, and how it leaves a dance that is in step. -/
structure Moved (index : Nat) (event : Event) (s after : State (World × List (Nat × Call))) :
    Prop where
  calls : ∃ calls, after.called index = s.called index ++ calls ++
      (if event.moves index = some true then [.onEachTap] else []) ∧
    .onEachTap ∉ calls ∧
    (.onReset ∈ calls → (s.dances index).pressed = true → event.moves index = some false)
  inStep : Roomy s event → InStep (s.called index) (s.dances index) →
    InStep (after.called index) (after.dances index)

theorem Between.moved (between : Between index s after) (still : event.moves index = none) :
    Moved index event s after where
  calls := by
    obtain ⟨calls, called, untapped, resets⟩ := between.calls
    refine ⟨calls, by simp [called, still], untapped, fun reset down => ?_⟩
    rw [resets reset] at down
    cases down
  inStep _ := between.inStep

theorem Tidy.raised (tidy : Tidy s) (place : Nat) :
    Tidy { s with highestTd := raise s.highestTd place } := by
  intro other counts
  obtain ⟨own, inside, used⟩ := tidy other counts
  exact ⟨own, inside, mem_used_raise used⟩

theorem step_moved (host : Host World) (terms : Terms) (tidy : Tidy s) (inside : index < 255)
    (event : Event) :
    Moved index event s (step host.recorded terms s event) := by
  cases event with
  | task now => exact (task_between tidy _ index).moved rfl
  | key now keycode pressed =>
    have other {place : Nat} (found : danceOf keycode = some place) (here : index ≠ place) :
        (Event.key now keycode pressed).moves index = none := by
      obtain ⟨within, rfl⟩ := eq_td_of_danceOf found
      have apart : td place ≠ td index := fun same => here (td_inj within (by omega) same).symm
      simp [Event.moves, apart]
    have foreign (found : danceOf keycode = none) :
        (Event.key now keycode pressed).moves index = none := by
      have apart : keycode ≠ td index := by
        rintro rfl
        rw [danceOf_td (by omega)] at found
        cases found
      simp [Event.moves, apart]
    cases pressed with
    | false =>
      rw [step_release]
      cases found : danceOf keycode with
      | none => exact (Between.of_same rfl rfl).moved (foreign found)
      | some place =>
        dsimp only
        obtain ⟨⟨calls, called, untapped, resets⟩, inStep⟩ :=
          releaseDance_calls host (tidy.raised place) place index
        have released : (Event.key now keycode false).moves index ≠ some true := by
          simp [Event.moves]
        refine ⟨⟨calls, ?_, untapped, fun reset _ => ?_⟩, fun _ => inStep⟩
        · rw [called, if_neg released, List.append_nil]
          rfl
        · obtain ⟨-, rfl⟩ := eq_td_of_danceOf found
          simp [Event.moves, resets reset]
    | true =>
      have looped := interrupted_between host tidy keycode index
      rw [step_press]
      cases found : danceOf keycode with
      | none => exact looped.moved (foreign found)
      | some place =>
        dsimp only
        by_cases here : index = place
        · subst here
          obtain ⟨within, rfl⟩ := eq_td_of_danceOf found
          obtain ⟨-, ⟨finished, dance, -⟩, -⟩ := tapDance_effect host.recorded
            { interrupted host.recorded (td index) s with
              highestTd := raise (interrupted host.recorded (td index) s).highestTd index } index
            (td index) (BitVec.ofNat 16 now)
          have tapped : (Event.key now (td index) true).moves index = some true := by
            simp [Event.moves]
          obtain ⟨calls, called, untapped, resets⟩ := looped.calls
          refine ⟨⟨calls, ?_, untapped, fun reset down => ?_⟩, fun roomy inStep => ?_⟩
          · rw [tapDance_called, if_pos rfl, if_pos tapped, ← called]
            rfl
          · rw [resets reset] at down
            cases down
          · rw [tapDance_called, if_pos rfl, dance]
            refine (looped.inStep inStep).tapped rfl (fun set => ?_)
              (interrupted_room tidy (roomy index inside rfl) within)
            simp [set]
        · refine (looped.trans (.of_same ?_ ?_)).moved (other found here)
          · exact (tapDance_effect _ _ place keycode _).1 index here
          · rw [tapDance_called, if_neg here, List.append_nil]
            rfl

theorem Orderly.step (orderly : Orderly s) (roomy : Roomy s event) :
    Orderly (TapDance.step host.recorded terms s event) where
  tidy := orderly.tidy.step event
  alone := orderly.alone.step orderly.tidy event
  inStep index inside :=
    (step_moved host terms orderly.tidy inside event).inStep roomy (orderly.inStep index inside)

/-- A tap of a full counter leaves a dance that has just been tapped with a count of 0. -/
theorem not_proper_of_full (tidy : Tidy s) (alone : Alone s) (inside : index < 255) {now : Nat}
    (full : (s.dances index).count = 255)
    (stays : s.lastTd = td index ∨ (s.dances index).pressed = true) {held : Prop} :
    ¬Proper index held (.key now (td index) true) s
      (TapDance.step host.recorded terms s (.key now (td index) true)) := by
  rintro ⟨⟨calls, called, -⟩, ⟨now, is, resting⟩⟩
  have tapped : ∀ time, (Event.key time (td index) true).moves index = some true := by
    simp [Event.moves]
  rw [called, if_pos (tapped _)] at is
  refine phase_tapped is (resting.mpr ?_)
  have within : index < 256 := by omega
  obtain ⟨-, ⟨finished, dance, -⟩, -⟩ := tapDance_effect host.recorded
    { interrupted host.recorded (td index) s with
      highestTd := raise (interrupted host.recorded (td index) s).highestTd index } index
    (td index) (BitVec.ofNat 16 _)
  rw [step_tap within, dance]
  dsimp only
  rw [interrupted_full tidy alone within full stays]
  decide

theorem Orderly.proper_iff (orderly : Orderly s) :
    (∀ index < 255, Proper index ((s.dances index).pressed = true) event s
        (TapDance.step host.recorded terms s event)) ↔ Roomy s event := by
  constructor
  · intro proper
    unfold Roomy
    split
    · rintro index inside rfl full
      by_contra stays
      refine not_proper_of_full orderly.tidy orderly.alone inside full ?_ (proper index inside)
      rw [not_and_or, not_not, Bool.not_eq_false] at stays
      exact stays
    · trivial
  · intro roomy index inside
    have moved := step_moved host terms orderly.tidy inside event
    obtain ⟨now, is, resting, -⟩ := moved.inStep roomy (orderly.inStep index inside)
    exact ⟨moved.calls, now, is, resting⟩

theorem orderly_start (world : World) :
    Orderly ({ world := (world, []) } : State (World × List (Nat × Call))) where
  tidy := tidy_start _
  alone index inside last := absurd last.symm (td_ne_zero inside)
  inStep _ _ := ⟨.resting, rfl, by simp, by simp⟩

theorem along_proper_iff (world : World) (events : List Event) :
    Along (step host.recorded terms)
        (fun s event => ∀ index < 255, Proper index ((s.dances index).pressed = true) event s
          (step host.recorded terms s event)) { world := (world, []) } events ↔
      Along (step host.recorded terms) Roomy { world := (world, []) } events :=
  along_congr (fun _ _ orderly proper => Orderly.step orderly (orderly.proper_iff.mp proper))
    (fun _ _ orderly => orderly.proper_iff) (orderly_start world) events

theorem exec_of_unused {history : List Event} (recalls : Recalls history s)
    (unused : ∀ time pressed, .key time (td 255) pressed ∉ history) (event : Event) :
    exec host.recorded terms s event = some (step host.recorded terms s event) := by
  cases event with
  | key now keycode pressed => rfl
  | task now => exact if_neg (recalls.unused_iff.mp unused)

/-- The keys that are held are those whose dances say so. -/
theorem proper_at_iff (host : Host World) (terms : Terms) (world : World) {earlier : List Event}
    (unused : ∀ time pressed, .key time (td 255) pressed ∉ earlier) (event : Event) :
    (∃ before after, runs host.recorded terms { world := (world, []) } earlier = some before ∧
        exec host.recorded terms before event = some after ∧
        ∀ index < 255, Proper index (Held index earlier) event before after) ↔
      ∀ index < 255, Proper index
        (((run (step host.recorded terms) { world := (world, []) } earlier).dances index).pressed = true)
        event (run (step host.recorded terms) { world := (world, []) } earlier)
        (step host.recorded terms (run (step host.recorded terms) { world := (world, []) } earlier)
          event) := by
  have recalls := run_recalls host.recorded terms (world, []) earlier
  have ran := @runs_of_unused _ host.recorded terms _ (world, []) unused
  have steps := @exec_of_unused _ host terms _ _ recalls unused event
  constructor
  · rintro ⟨now, after, here, does, proper⟩ index inside
    obtain rfl := Option.some.inj (ran.symm.trans here)
    obtain rfl := Option.some.inj (steps.symm.trans does)
    rw [recalls.pressed index (by omega)]
    exact proper index inside
  · intro proper
    refine ⟨_, _, ran, steps, fun index inside => ?_⟩
    rw [← recalls.pressed index (by omega)]
    exact proper index inside

/-- In a run that leaves dance 255 alone every event makes each dance call what it should
exactly when no press finds a count of 255 with its key the last one, or down. -/
theorem callbacks_proper_iff (host : Host World) (terms : Terms) (world : World)
    (events : List Event) (unused : ∀ time pressed, .key time (td 255) pressed ∉ events) :
    (∀ earlier event, earlier ++ [event] <+: events →
        ∃ before after, runs host.recorded terms { world := (world, []) } earlier = some before ∧
          exec host.recorded terms before event = some after ∧
          ∀ index < 255, Proper index (Held index earlier) event before after) ↔
      ∀ earlier event, earlier ++ [event] <+: events →
        Roomy (run (step host.recorded terms) { world := (world, []) } earlier) event := by
  rw [← along_iff_earlier, ← along_proper_iff, along_iff_earlier]
  refine forall₃_congr fun earlier event reached => proper_at_iff host terms world ?_ event
  exact fun time pressed member =>
    unused time pressed (reached.subset (List.mem_append_left _ member))

/-- A tap, its release, and the end of the term. -/
def oneTap : List Event := [.key 0 (td 0) true, .key 10 (td 0) false, .task 300]

theorem one_tap_proper :
    ∃ before after,
      runs silent.recorded {} { world := ((), []) } [.key 0 (td 0) true, .key 10 (td 0) false] =
          some before ∧
        exec silent.recorded {} before (.task 300) = some after ∧
        ∀ index < 255, Proper index
          (Held index [.key 0 (td 0) true, .key 10 (td 0) false]) (.task 300) before after := by
  have unused : ∀ time pressed, Event.key time (td 255) pressed ∉ oneTap := by
    intro time pressed member
    have apart : td 255 ≠ td 0 := by decide
    simp [oneTap, apart] at member
  have roomy : Along (step silent.recorded {}) Roomy { world := ((), []) } oneTap :=
    ⟨fun _ _ _ (full : (0 : BitVec 8) = 255) => absurd full (by decide), trivial, trivial, trivial⟩
  exact (callbacks_proper_iff silent {} () oneTap unused).mpr
    ((along_iff_earlier _ _).mp roomy) _ _ List.prefix_rfl

/-! ### A dance of 256 taps -/

/-- Taps of dance 0 at once. -/
def quickTaps : Nat → List Event
  | 0 => []
  | taps + 1 => .key 0 (td 0) true :: .key 0 (td 0) false :: quickTaps taps

theorem quickTaps_continues (term taps : Nat) : Continues 0 term 0 (quickTaps taps) := by
  induction taps with
  | zero => trivial
  | succ taps ih => exact ⟨rfl, ih⟩

theorem quickTaps_spares (held : Nat → Prop) (taps : Nat) : Spares held 0 (quickTaps taps) := by
  induction taps with
  | zero => exact fun _ _ member => absurd member List.not_mem_nil
  | succ taps ih =>
    intro now keycode member b other found
    rcases List.mem_cons.mp member with same | member
    · cases same
    · rcases List.mem_cons.mp member with same | member
      · cases same
        exact absurd (Option.some.inj found).symm other
      · exact ih now keycode member b other found

theorem quickTaps_times (taps : Nat) : (tapTimes 0 (quickTaps taps)).length = taps := by
  induction taps with
  | zero => rfl
  | succ taps ih =>
    rw [quickTaps, tapTimes_press, tapTimes_release, List.length_cons, ih]

theorem quickTaps_unused (taps : Nat) :
    ∀ time pressed, Event.key time (td 255) pressed ∉ quickTaps taps := by
  have apart : td 255 ≠ td 0 := by decide
  induction taps with
  | zero => simp [quickTaps]
  | succ taps ih => simp [quickTaps, apart, ih]

theorem quickTaps_succ (taps : Nat) :
    quickTaps (taps + 1) = quickTaps taps ++ [.key 0 (td 0) true, .key 0 (td 0) false] := by
  induction taps with
  | zero => rfl
  | succ taps ih =>
    show _ :: _ :: quickTaps (taps + 1) = (_ :: _ :: quickTaps taps) ++ _
    rw [ih]
    rfl

/-- The 256th tap takes the count back to 0, and the dance is never reset. -/
theorem many_taps_improper :
    ¬∀ earlier event, earlier ++ [event] <+: quickTaps 256 →
      ∃ before after, runs silent.recorded {} { world := ((), []) } earlier = some before ∧
        exec silent.recorded {} before event = some after ∧
        ∀ index < 255, Proper index (Held index earlier) event before after := by
  intro proper
  have next : quickTaps 255 ++ [.key 0 (td 0) true] <+: quickTaps 256 := by
    rw [quickTaps_succ 255]
    exact ⟨[.key 0 (td 0) false], by simp⟩
  have first : Tidy ({ world := ((), []) } : State (Unit × List (Nat × Call))) := tidy_start _
  have begun : Dancing 0 1 0 [] _
      (step silent.recorded {} { world := ((), []) } (.key 0 (td 0) true)) :=
    first.first_tap (by decide) (fun _ _ => rfl) rfl rfl 0
  have continues (term : Nat) : Continues 0 term 0 (.key 0 (td 0) false :: quickTaps 254) :=
    quickTaps_continues term 254
  have split : quickTaps 255 =
      .key 0 (td 0) true :: .key 0 (td 0) false :: quickTaps 254 := by
    rw [quickTaps]
  have counted : Dancing 0 _ _ [] _ (run (step silent.recorded {})
      (step silent.recorded {} { world := ((), []) } (.key 0 (td 0) true))
      (.key 0 (td 0) false :: quickTaps 254)) :=
    begun.run_counts (by decide) (fun _ _ => rfl) (continues _)
      fun now keycode member =>
        quickTaps_spares _ 255 now keycode (split ▸ List.mem_cons_of_mem _ member)
  rw [tapTimes_release, quickTaps_times, ← run_cons, ← split] at counted
  refine not_proper_of_full counted.tidy ?_ (by decide) counted.count (.inl counted.last)
    ((proper_at_iff silent {} () (quickTaps_unused 255) _).mp (proper _ _ next) 0 (by decide))
  intro index inside last other apart
  obtain rfl := td_inj (by decide) inside (counted.last.symm.trans last)
  exact counted.others other apart

end QmkSonix.TapDance
