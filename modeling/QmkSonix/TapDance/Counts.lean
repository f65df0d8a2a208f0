import QmkSonix.TapDance.Phases

/-! Whether a dance counts the taps of its key. -/

namespace QmkSonix.TapDance

open Lib

variable {World : Type*} {host : Host World} {terms : Terms} {s : State World}
  {a i t : Nat} {base calls : List (BitVec 8)} {held : Nat → Prop}

/-! ### One event -/

theorem mem_used_raise {index other : Nat} (used : index ∈ s.used) :
    index ∈ { s with highestTd := raise s.highestTd other }.used := by
  obtain ⟨highest, is, upto⟩ := mem_used.mp used
  rw [mem_used]
  exact ⟨max highest other, by rw [is, raise], le_max_of_le_left upto⟩

theorem mem_used_raise_self (s : State World) (index : Nat) :
    index ∈ { s with highestTd := raise s.highestTd index }.used := by
  rw [mem_used]
  cases is : s.highestTd with
  | none => exact ⟨index, rfl, le_rfl⟩
  | some highest => exact ⟨max highest index, rfl, le_max_right _ _⟩

theorem step_release (s : State World) (now : Nat) (keycode : BitVec 16) :
    step host terms s (.key now keycode false) =
      match danceOf keycode with
      | none => s
      | some index => releaseDance host { s with highestTd := raise s.highestTd index } index := by
  unfold step processTapDance preprocessTapDance
  rfl

/-- The loop of `preprocess_tap_dance`. -/
def interrupted (host : Host World) (keycode : BitVec 16) (s : State World) : State World :=
  s.used.foldl (interruptDance host keycode) s

theorem step_press (s : State World) (now : Nat) (keycode : BitVec 16) :
    step host terms s (.key now keycode true) =
      match danceOf keycode with
      | none => interrupted host keycode s
      | some index =>
        tapDance host { interrupted host keycode s with
          highestTd := raise (interrupted host keycode s).highestTd index } index keycode
          (BitVec.ofNat 16 now) := by
  unfold step processTapDance preprocessTapDance
  rfl

theorem Tidy.release (tidy : Tidy s) (now : Nat) (keycode : BitVec 16) :
    Tidy (step host terms s (.key now keycode false)) := by
  rw [step_release]
  cases found : danceOf keycode with
  | none => exact tidy
  | some index =>
    obtain ⟨others, -, highest, effect⟩ := releaseDance_effect host
      { s with highestTd := raise s.highestTd index } index
    intro other counts
    have before : (s.dances other).count ≠ 0 ∧
        ((releaseDance host { s with highestTd := raise s.highestTd index } index).dances
          other).keycode = (s.dances other).keycode := by
      by_cases same : other = index
      · subst same
        split at effect
        · exact absurd effect.1 counts
        · rw [effect.1] at counts ⊢
          exact ⟨counts, rfl⟩
      · rw [others other same] at counts ⊢
        exact ⟨counts, rfl⟩
    obtain ⟨keycode, inside, used⟩ := tidy other before.1
    refine ⟨before.2.trans keycode, inside, ?_⟩
    rw [mem_used, highest, ← mem_used]
    exact mem_used_raise used

/-- A release leaves a dance as tapped as it is. -/
theorem Tapped.release (tapped : Tapped a i t base s) (host : Host World) (terms : Terms)
    (now : Nat) (keycode : BitVec 16) :
    Tapped a i t base (step host terms s (.key now keycode false)) ∧
      ((step host terms s (.key now keycode false)).lastTd = s.lastTd ∨
        (step host terms s (.key now keycode false)).lastTd = 0) := by
  rw [step_release]
  cases found : danceOf keycode with
  | none => exact ⟨tapped, .inl rfl⟩
  | some index =>
    obtain ⟨others, finishes, highest, effect⟩ := releaseDance_effect host
      { s with highestTd := raise s.highestTd index } index
    have used : a ∈ (releaseDance host { s with highestTd := raise s.highestTd index }
        index).used := by
      rw [mem_used, highest, ← mem_used]
      exact mem_used_raise tapped.used
    have calls : (releaseDance host { s with highestTd := raise s.highestTd index }
        index).calls a = base := by
      rw [State.calls, finishes]
      exact tapped.calls
    constructor
    · by_cases same : a = index
      · subst same
        rw [if_neg (by simp [tapped.unfinished])] at effect
        refine ⟨?_, ?_, ?_, ?_, used, calls⟩
        · rw [effect.1]
          exact tapped.count
        · rw [effect.1]
          exact tapped.unfinished
        · rw [effect.1]
          exact tapped.keycode
        · rw [effect.1]
          exact tapped.timer
      · have kept := others a same
        refine ⟨?_, ?_, ?_, ?_, used, calls⟩
        · rw [kept]
          exact tapped.count
        · rw [kept]
          exact tapped.unfinished
        · rw [kept]
          exact tapped.keycode
        · rw [kept]
          exact tapped.timer
    · split at effect
      · exact .inr effect.2
      · exact .inl effect.2

theorem Over.release (gone : Over a calls s) (now : Nat) (keycode : BitVec 16) :
    Over a calls (step host terms s (.key now keycode false)) := by
  rw [step_release]
  cases found : danceOf keycode with
  | none => exact gone
  | some index =>
    obtain ⟨others, finishes, -, effect⟩ := releaseDance_effect host
      { s with highestTd := raise s.highestTd index } index
    refine ⟨?_, ?_⟩
    · rw [State.calls, finishes]
      exact gone.calls
    · by_cases same : a = index
      · subst same
        split at effect
        · exact .inl effect.1
        · rw [effect.1]
          exact gone.rests
      · rw [others a same]
        exact gone.rests

/-- Behind the loop of `preprocess_tap_dance` a press of another key leaves `a` alone. -/
theorem tapDance_over {index : Nat} (gone : Over a calls s) (apart : a ≠ index)
    (keycode now : BitVec 16) :
    Over a calls (tapDance host { s with highestTd := raise s.highestTd index } index keycode
      now) := by
  obtain ⟨others, -, -, finishes, -⟩ := tapDance_effect host
    { s with highestTd := raise s.highestTd index } index keycode now
  refine ⟨?_, ?_⟩
  · rw [State.calls, finishes]
    exact gone.calls
  · rw [others a apart]
    exact gone.rests

theorem apart_of_danceOf {keycode : BitVec 16} {index : Nat} (found : danceOf keycode = some index)
    (other : keycode ≠ td a) : a ≠ index := by
  rintro rfl
  exact other (eq_td_of_danceOf found).2

theorem Over.press (gone : Over a calls s) (now : Nat) {keycode : BitVec 16}
    (other : keycode ≠ td a) : Over a calls (step host terms s (.key now keycode true)) := by
  have looped : Over a calls (interrupted host keycode s) :=
    gone.loop (interruptDance_visited host keycode) s.used
  rw [step_press]
  cases found : danceOf keycode with
  | none => exact looped
  | some index => exact tapDance_over looped (apart_of_danceOf found other) keycode _

theorem Over.task (gone : Over a calls s) (now : Nat) :
    Over a calls (step host terms s (.task now)) :=
  gone.loop (expireDance_visited host terms (BitVec.ofNat 16 now)) s.used

/-- A press of another key ends the dance. -/
theorem Tapped.press_other (tapped : Tapped a i t base s) (counts : BitVec.ofNat 8 i ≠ 0)
    (now : Nat) {keycode : BitVec 16} (other : keycode ≠ td a) :
    Over a (base ++ [BitVec.ofNat 8 i]) (step host terms s (.key now keycode true)) := by
  have looped : Over a (base ++ [BitVec.ofNat 8 i]) (interrupted host keycode s) := by
    refine tapped.loop_ends (fun _ => True) (interruptDance_visited host keycode) (fun _ _ beside => beside)
      (fun now tapped _ => ⟨_, interruptDance_ends host ?_ ?_⟩) trivial tapped.used
    · rw [tapped.count]
      exact counts
    · rintro ⟨same, -⟩
      exact other (same.trans tapped.keycode)
  rw [step_press]
  cases found : danceOf keycode with
  | none => exact looped
  | some index => exact tapDance_over looped (apart_of_danceOf found other) keycode _

/-- The task ends the dance once its term is over. -/
theorem Tapped.task_late (tapped : Tapped a i t base s) (counts : BitVec.ofNat 8 i ≠ 0) {now : Nat}
    (late : terms.term a (td a) < BitVec.ofNat 16 now - BitVec.ofNat 16 t) :
    Over a (base ++ [BitVec.ofNat 8 i]) (step host terms s (.task now)) := by
  refine tapped.loop_ends (fun _ => True) (expireDance_visited host terms _) (fun _ _ beside => beside)
    (fun now tapped _ => ⟨_, expireDance_ends host ?_ ?_⟩) trivial tapped.used
  · rw [tapped.count]
    exact counts
  · rw [tapped.keycode, tapped.timer]
    exact late

theorem expireDance_stays {now : BitVec 16} (tapped : Tapped a i t base s)
    (early : ¬terms.term a (td a) < now - BitVec.ofNat 16 t) :
    expireDance host terms now s a = s := by
  refine if_neg fun expires => early ?_
  have late := expires.2
  rwa [tapped.keycode, tapped.timer] at late

/-- Before that it leaves it alone. -/
theorem Tapped.task_early (tapped : Tapped a i t base s) {now : Nat}
    (early : ¬terms.term a (td a) < BitVec.ofNat 16 now - BitVec.ofNat 16 t) :
    Tapped a i t base (step host terms s (.task now)) :=
  tapped.loop (expireDance_visited host terms _)
    (fun _ tapped => expireDance_stays tapped early) s.used

theorem Dancing.task_early (dancing : Dancing a i t base held s) {now : Nat}
    (early : ¬terms.term a (td a) < BitVec.ofNat 16 now - BitVec.ofNat 16 t) :
    Dancing a i t base held (step host terms s (.task now)) :=
  dancing.loop (expireDance_visited host terms _)
    (fun _ dancing => expireDance_stays dancing.toTapped early) s.used

/-- A loop that has lost the last keycode does not find it again. -/
theorem foldl_lastTd {visit : State World → Nat → State World}
    (visits : ∀ s index, Visited index s (visit s index)) (lost : s.lastTd = 0)
    (places : List Nat) : (places.foldl visit s).lastTd = 0 := by
  refine List.foldlRecOn (motive := fun now => now.lastTd = 0) places visit lost fun now lost place _ => ?_
  rcases (visits now place).lastTd with same | zero
  · exact same.trans lost
  · exact zero

/-! ### The next tap -/

/-- The other dances at a tap of `a`: those under way are held and have finished. -/
structure Settled (a : Nat) (held : Nat → Prop) (s : State World) : Prop where
  tidy : Tidy s
  others : ∀ b ≠ a, (s.dances b).count ≠ 0 → (s.dances b).pressed = true ∧ (s.dances b).finished = true
  held : ∀ b ≠ a, (s.dances b).count ≠ 0 ↔ held b

theorem Tidy.tapDance (tidy : Tidy s) {index : Nat} (inside : index < 256) (now : BitVec 16) :
    Tidy (tapDance host { s with highestTd := raise s.highestTd index } index (td index) now) := by
  obtain ⟨others, ⟨finished, tapped, -⟩, -, -, highest⟩ := tapDance_effect host
    { s with highestTd := raise s.highestTd index } index (td index) now
  intro other counts
  rw [mem_used, highest, ← mem_used]
  by_cases same : other = index
  · subst same
    rw [tapped]
    exact ⟨rfl, inside, mem_used_raise_self s other⟩
  · rw [others other same] at counts ⊢
    obtain ⟨keycode, within, used⟩ := tidy other counts
    exact ⟨keycode, within, mem_used_raise used⟩

/-- A tap behind the loop of `preprocess_tap_dance`, which has left `a` as it was. -/
theorem Settled.tap (settled : Settled a held s) (inside : a < 256)
    (quiet : ∀ dance world, (host.onEachTap a dance world).2 = false)
    (count : (s.dances a).count = BitVec.ofNat 8 i) (unfinished : (s.dances a).finished = false)
    (called : s.calls a = base) (now : Nat) :
    Dancing a (i + 1) now base held
      (tapDance host { s with highestTd := raise s.highestTd a } a (td a) (BitVec.ofNat 16 now)) := by
  obtain ⟨others, ⟨finished, tapped, unset⟩, last, finishes, highest⟩ := tapDance_effect host
    { s with highestTd := raise s.highestTd a } a (td a) (BitVec.ofNat 16 now)
  have unset := unset quiet
  refine ⟨⟨?_, ?_, ?_, ?_, ?_, ?_⟩, last, settled.tidy.tapDance inside _, ?_, ?_⟩
  · rw [tapped]
    dsimp only
    rw [count]
    exact (BitVec.ofNat_add i 1).symm
  · rw [tapped, unset]
    dsimp only
    rw [unfinished]
    rfl
  · rw [tapped]
  · rw [tapped]
  · rw [mem_used, highest, ← mem_used]
    exact mem_used_raise_self s a
  · rw [State.calls, finishes]
    exact called
  · intro b other counts
    rw [others b other] at counts ⊢
    exact settled.others b other counts
  · intro b other
    rw [others b other]
    exact settled.held b other

theorem step_tap (inside : a < 256) (now : Nat) :
    step host terms s (.key now (td a) true) =
      tapDance host { interrupted host (td a) s with
        highestTd := raise (interrupted host (td a) s).highestTd a } a (td a)
        (BitVec.ofNat 16 now) := by
  rw [step_press, danceOf_td inside]

/-- A tap of the last key. -/
theorem Dancing.tap (dancing : Dancing a i t base held s) (inside : a < 256)
    (quiet : ∀ dance world, (host.onEachTap a dance world).2 = false) (now : Nat) :
    Dancing a (i + 1) now base held (step host terms s (.key now (td a) true)) := by
  have looped : Dancing a i t base held (interrupted host (td a) s) := by
    refine dancing.loop (interruptDance_visited host (td a)) (fun s dancing => ?_) s.used
    rw [interruptDance_eq]
    split
    · rfl
    · exact if_pos ⟨dancing.keycode.symm, dancing.last.symm⟩
  rw [step_tap inside]
  exact (Settled.mk looped.tidy looped.others looped.held).tap inside quiet looped.count
    looped.unfinished looped.calls now

/-- A tap of a key that is not the last one any more. -/
theorem Tapped.tap_lost (tapped : Tapped a i t base s) (counts : BitVec.ofNat 8 i ≠ 0)
    (lost : s.lastTd = 0) (inside : a < 256) (now : Nat) :
    (step host terms s (.key now (td a) true)).calls a = base ++ [BitVec.ofNat 8 i] := by
  have looped : Over a (base ++ [BitVec.ofNat 8 i]) (interrupted host (td a) s) := by
    refine tapped.loop_ends (fun s => s.lastTd = 0) (interruptDance_visited host (td a))
      (fun s index lost => ?_) (fun s tapped lost => ⟨_, interruptDance_ends host ?_ ?_⟩) lost
      tapped.used
    · rcases (interruptDance_visited host (td a) s index).lastTd with same | zero
      · exact same.trans lost
      · exact zero
    · rw [tapped.count]
      exact counts
    · rintro ⟨-, same⟩
      exact td_ne_zero inside (same.trans lost)
  rw [step_tap inside, State.calls,
    (tapDance_effect host _ a (td a) (BitVec.ofNat 16 now)).2.2.2.1]
  exact looped.calls

/-! ### The first tap -/

/-- What the loop of `preprocess_tap_dance` keeps at a tap of `a`, which rests. -/
structure Opening (a : Nat) (s now : State World) : Prop where
  tidy : Tidy now
  used : now.used = s.used
  resting : now.dances a = s.dances a
  calls : now.calls a = s.calls a
  held : ∀ b, (now.dances b).pressed = (s.dances b).pressed ∧
    ((now.dances b).count = (s.dances b).count ∨
      (now.dances b).count = 0 ∧ (s.dances b).pressed = false)

theorem Opening.visited {now after : State World} {index : Nat} (opening : Opening a s now)
    (rests : (s.dances a).count = 0) (visited : Visited index now after) : Opening a s after := by
  have alone : after.dances a = now.dances a ∧ after.calls a = now.calls a := by
    by_cases same : a = index
    · subst same
      rcases visited with rfl | ⟨marked, ended⟩
      · exact ⟨rfl, rfl⟩
      · exact absurd (opening.resting ▸ rests) ended.counts
    · exact ⟨visited.dances_of_ne same, visited.calls_of_ne same⟩
  refine ⟨opening.tidy.visited visited, visited.used.trans opening.used,
    alone.1.trans opening.resting, alone.2.trans opening.calls, fun b => ?_⟩
  obtain ⟨-, pressed, count⟩ := visited.keeps b
  obtain ⟨before, kept⟩ := opening.held b
  refine ⟨pressed.trans before, ?_⟩
  rcases count with same | ⟨zero, up⟩
  · rw [same]
    exact kept
  · exact .inr ⟨zero, before ▸ up⟩

/-- A tap of another key leaves a dance under way only if it is held. -/
def Put (b : Nat) (s : State World) : Prop :=
  (s.dances b).count ≠ 0 → (s.dances b).pressed = true ∧ (s.dances b).finished = true

theorem Put.ended {marked : Dance} {b : Nat} (ended : Ended marked b s after) : Put b after := by
  intro counts
  rw [ended.dance] at counts ⊢
  unfold Dance.ended at counts ⊢
  by_cases down : marked.pressed = true
  · rw [if_pos down] at counts ⊢
    exact ⟨down, rfl⟩
  · rw [if_neg down] at counts
    exact absurd rfl counts

theorem Put.visited {b index : Nat} (put : Put b s) (visited : Visited index s after) :
    Put b after := by
  by_cases same : b = index
  · subst same
    rcases visited with rfl | ⟨marked, ended⟩
    · exact put
    · exact Put.ended ended
  · unfold Put
    rw [visited.dances_of_ne same]
    exact put

/-- The first tap of a key settles the other dances. -/
theorem Tidy.first_tap (tidy : Tidy s) (inside : a < 256)
    (quiet : ∀ dance world, (host.onEachTap a dance world).2 = false)
    (rests : (s.dances a).count = 0) (unfinished : (s.dances a).finished = false) (now : Nat) :
    Dancing a 1 now (s.calls a)
      (fun b => (s.dances b).count ≠ 0 ∧ (s.dances b).pressed = true)
      (step host terms s (.key now (td a) true)) := by
  obtain ⟨opening, put⟩ := foldl_establishes (Opening a s) (fun b now => b ≠ a → Put b now)
    (fun now place opening => opening.visited rests (interruptDance_visited host (td a) now place))
    (fun now place opening other => by
      by_cases counts : (now.dances place).count = 0
      · rw [interruptDance_eq, if_pos counts]
        exact fun nonzero => absurd counts nonzero
      · refine Put.ended (interruptDance_ends host counts ?_)
        rintro ⟨same, -⟩
        obtain ⟨keycode, within, -⟩ := opening.tidy place counts
        exact other (td_inj inside within (same.trans keycode)).symm)
    (fun now place b _ done other =>
      (done other).visited (interruptDance_visited host (td a) now place))
    s.used ⟨tidy, rfl, rfl, rfl, fun b => ⟨rfl, .inl rfl⟩⟩
  have settled : Settled a (fun b => (s.dances b).count ≠ 0 ∧ (s.dances b).pressed = true)
      (interrupted host (td a) s) := by
    have put : ∀ b ≠ a, Put b (interrupted host (td a) s) := by
      intro b other counts
      have used : b ∈ s.used := opening.used ▸ (opening.tidy b counts).2.2
      exact put b used other counts
    refine ⟨opening.tidy, put, fun b other => ?_⟩
    obtain ⟨pressed, kept⟩ := opening.held b
    constructor
    · intro counts
      have down := pressed ▸ (put b other counts).1
      rcases kept with same | ⟨zero, -⟩
      · exact ⟨same ▸ counts, down⟩
      · exact absurd zero counts
    · rintro ⟨counts, down⟩
      rcases kept with same | ⟨-, up⟩
      · exact same ▸ counts
      · rw [down] at up
        cases up
  rw [step_tap inside]
  refine settled.tap inside quiet ?_ ?_ opening.calls now
  · exact (congrArg Dance.count opening.resting).trans rests
  · exact (congrArg Dance.finished opening.resting).trans unfinished

/-! ### Releases -/

/-- A release between two taps does no harm unless it is that of a dance that waits. -/
theorem Dancing.release (dancing : Dancing a i t base held s) (host : Host World) (terms : Terms)
    (now : Nat) (keycode : BitVec 16) :
    (∀ b ≠ a, danceOf keycode = some b → ¬held b) ∧
        Dancing a i t base held (step host terms s (.key now keycode false)) ∨
      (∃ b ≠ a, danceOf keycode = some b ∧ held b) ∧
        Tapped a i t base (step host terms s (.key now keycode false)) ∧
        (step host terms s (.key now keycode false)).lastTd = 0 := by
  have tapped : Tapped a i t base (step host terms s (.key now keycode false)) :=
    (dancing.toTapped.release host terms now keycode).1
  have tidy : Tidy (step host terms s (.key now keycode false)) :=
    dancing.tidy.release now keycode
  rw [step_release] at tapped tidy ⊢
  cases found : danceOf keycode with
  | none => exact .inl ⟨fun _ _ absent => (Option.some_ne_none _ absent.symm).elim, dancing⟩
  | some index =>
    rw [found] at tapped tidy
    dsimp only at tapped tidy ⊢
    obtain ⟨others, -, highest, effect⟩ := releaseDance_effect host
      { s with highestTd := raise s.highestTd index } index
    by_cases counts : index ≠ a ∧ (s.dances index).count ≠ 0
    · obtain ⟨down, finished⟩ := dancing.others index counts.1 counts.2
      rw [if_pos ⟨counts.2, finished⟩] at effect
      exact .inr ⟨⟨index, counts.1, rfl, (dancing.held index counts.1).mp counts.2⟩, tapped, effect.2⟩
    · have kept : ∀ b ≠ a, (releaseDance host { s with highestTd := raise s.highestTd index }
          index).dances b = s.dances b ∨ (s.dances b).count = 0 ∧
            ((releaseDance host { s with highestTd := raise s.highestTd index }
              index).dances b).count = 0 := by
        intro b other
        by_cases same : b = index
        · subst same
          have zero : (s.dances b).count = 0 := by
            by_contra nonzero
            exact counts ⟨other, nonzero⟩
          rw [if_neg (by simp [zero])] at effect
          exact .inr ⟨zero, by rw [effect.1]; exact zero⟩
        · exact .inl (others b same)
      refine .inl ⟨?_, tapped, ?_, tidy, ?_, ?_⟩
      · rintro b other ⟨⟩ waits
        exact counts ⟨other, (dancing.held index other).mpr waits⟩
      · by_cases same : index = a
        · subst same
          rw [if_neg (by simp [dancing.unfinished])] at effect
          exact effect.2.trans dancing.last
        · have zero : (s.dances index).count = 0 := by
            by_contra nonzero
            exact counts ⟨same, nonzero⟩
          rw [if_neg (by simp [zero])] at effect
          exact effect.2.trans dancing.last
      · intro b other counts
        rcases kept b other with same | ⟨-, zero⟩
        · rw [same] at counts ⊢
          exact dancing.others b other counts
        · exact absurd zero counts
      · intro b other
        rw [← dancing.held b other]
        rcases kept b other with same | ⟨before, zero⟩
        · rw [same]
        · rw [before, zero]

end QmkSonix.TapDance
