import QmkSonix.TapDance.Dances

/-! The phases of one tap dance: tapped, with other dances that wait for their releases,
and over. Each event takes a phase to itself or to a later one. -/

namespace QmkSonix.TapDance

open Lib

variable {World : Type*} {host : Host World} {terms : Terms} {s after : State World}

/-- A dance under way has the keycode of its place, which is up to `highest_td`. -/
def Tidy (s : State World) : Prop :=
  ∀ index, (s.dances index).count ≠ 0 →
    (s.dances index).keycode = td index ∧ index < 256 ∧ index ∈ s.used

/-- `a` has been tapped `i` times, the last time at `t`, and is not finished. -/
structure Tapped (a i t : Nat) (base : List (BitVec 8)) (s : State World) : Prop where
  count : (s.dances a).count = BitVec.ofNat 8 i
  unfinished : (s.dances a).finished = false
  keycode : (s.dances a).keycode = td a
  timer : (s.dances a).timer = BitVec.ofNat 16 t
  used : a ∈ s.used
  calls : s.calls a = base

/-- `a` has called and does not call again. -/
structure Over (a : Nat) (calls : List (BitVec 8)) (s : State World) : Prop where
  calls : s.calls a = calls
  rests : (s.dances a).count = 0 ∨ (s.dances a).finished = true

/-- `a` is being tapped, and the other dances under way are those that are held. They
have finished. -/
structure Dancing (a i t : Nat) (base : List (BitVec 8)) (held : Nat → Prop) (s : State World) :
    Prop extends Tapped a i t base s where
  last : s.lastTd = td a
  tidy : Tidy s
  others : ∀ b ≠ a, (s.dances b).count ≠ 0 → (s.dances b).pressed = true ∧ (s.dances b).finished = true
  held : ∀ b ≠ a, (s.dances b).count ≠ 0 ↔ held b

variable {a i t : Nat} {base calls : List (BitVec 8)} {held : Nat → Prop} {index : Nat}

/-! ### Visits -/

theorem Tidy.visited (tidy : Tidy s) (visited : Visited index s after) : Tidy after := by
  intro other counts
  obtain ⟨keycode, -, count⟩ := visited.keeps other
  rw [keycode, visited.used]
  rcases count with same | ⟨zero, -⟩
  · exact tidy other (same ▸ counts)
  · exact absurd zero counts

theorem Tapped.visited (tapped : Tapped a i t base s) (visited : Visited index s after)
    (apart : a ≠ index) : Tapped a i t base after := by
  have same := visited.dances_of_ne apart
  refine ⟨?_, ?_, ?_, ?_, visited.used ▸ tapped.used, (visited.calls_of_ne apart).trans tapped.calls⟩
  · rw [same, tapped.count]
  · rw [same, tapped.unfinished]
  · rw [same, tapped.keycode]
  · rw [same, tapped.timer]

theorem Tapped.ended {marked : Dance} (tapped : Tapped a i t base s)
    (ended : Ended marked a s after) : Over a (base ++ [BitVec.ofNat 8 i]) after := by
  refine ⟨?_, ?_⟩
  · rw [ended.calls tapped.unfinished, tapped.calls, tapped.count]
  · rw [ended.dance]
    unfold Dance.ended
    split
    · exact .inr rfl
    · exact .inl rfl

theorem Over.visited (gone : Over a calls s) (visited : Visited index s after) :
    Over a calls after := by
  by_cases same : a = index
  · subst same
    rcases visited with rfl | ⟨marked, ended⟩
    · exact gone
    · have finished := gone.rests.resolve_left ended.counts
      refine ⟨?_, ?_⟩
      · rw [State.calls, ended.finishes, if_pos finished]
        exact gone.calls
      · rw [ended.dance]
        unfold Dance.ended
        split
        · exact .inr rfl
        · exact .inl rfl
  · refine ⟨(visited.calls_of_ne same).trans gone.calls, ?_⟩
    rw [visited.dances_of_ne same]
    exact gone.rests

theorem Dancing.visited (dancing : Dancing a i t base held s) (visited : Visited index s after)
    (apart : a ≠ index) : Dancing a i t base held after := by
  refine ⟨dancing.toTapped.visited visited apart, ?_, dancing.tidy.visited visited, ?_, ?_⟩
  · rcases visited with rfl | ⟨marked, ended⟩
    · exact dancing.last
    · have pressed := (dancing.others index apart.symm ended.counts).1
      rw [ended.lastTd, if_pos pressed]
      exact dancing.last
  · intro b other counts
    by_cases same : b = index
    · subst same
      rcases visited with rfl | ⟨marked, ended⟩
      · exact dancing.others b other counts
      · have pressed := (dancing.others b other ended.counts).1
        have down : marked.pressed = true := ended.pressed.trans pressed
        rw [ended.dance, Dance.ended, if_pos down]
        exact ⟨down, rfl⟩
    · rw [visited.dances_of_ne same] at counts ⊢
      exact dancing.others b other counts
  · intro b other
    rw [← dancing.held b other]
    by_cases same : b = index
    · subst same
      rcases visited with rfl | ⟨marked, ended⟩
      · exact Iff.rfl
      · have pressed := (dancing.others b other ended.counts).1
        have down : marked.pressed = true := ended.pressed.trans pressed
        rw [ended.dance, Dance.ended, if_pos down]
        dsimp only
        rw [ended.count]
    · rw [visited.dances_of_ne same]

/-! ### Loops -/

section Loops

variable {visit : State World → Nat → State World}

theorem Over.loop (visits : ∀ s index, Visited index s (visit s index)) (gone : Over a calls s)
    (places : List Nat) : Over a calls (places.foldl visit s) :=
  List.foldlRecOn places visit gone fun _ later place _ => later.visited (visits _ place)

theorem Tapped.loop (visits : ∀ s index, Visited index s (visit s index))
    (stays : ∀ s, Tapped a i t base s → visit s a = s) (tapped : Tapped a i t base s)
    (places : List Nat) : Tapped a i t base (places.foldl visit s) := by
  refine List.foldlRecOn places visit tapped fun now tapped place _ => ?_
  by_cases here : a = place
  · rw [← here, stays now tapped]
    exact tapped
  · exact tapped.visited (visits now place) here

theorem Dancing.loop (visits : ∀ s index, Visited index s (visit s index))
    (stays : ∀ s, Dancing a i t base held s → visit s a = s) (dancing : Dancing a i t base held s)
    (places : List Nat) : Dancing a i t base held (places.foldl visit s) := by
  refine List.foldlRecOn places visit dancing fun now dancing place _ => ?_
  by_cases here : a = place
  · rw [← here, stays now dancing]
    exact dancing
  · exact dancing.visited (visits now place) here

/-- A loop that ends the dance of `a` when it comes to it. -/
theorem Tapped.loop_ends (Beside : State World → Prop)
    (visits : ∀ s index, Visited index s (visit s index))
    (keeps : ∀ s index, Beside s → Beside (visit s index))
    (ends : ∀ s, Tapped a i t base s → Beside s → ∃ marked, Ended marked a s (visit s a))
    (tapped : Tapped a i t base s) (beside : Beside s) {places : List Nat} (member : a ∈ places) :
    Over a (base ++ [BitVec.ofNat 8 i]) (places.foldl visit s) := by
  have step (now : State World) (place : Nat)
      (phase : (Tapped a i t base now ∧ Beside now) ∨ Over a (base ++ [BitVec.ofNat 8 i]) now) :
      ((Tapped a i t base (visit now place) ∧ Beside (visit now place)) ∨
          Over a (base ++ [BitVec.ofNat 8 i]) (visit now place)) ∧
        (a = place → Over a (base ++ [BitVec.ofNat 8 i]) (visit now place)) := by
    rcases phase with ⟨tapped, beside⟩ | gone
    · by_cases here : a = place
      · subst here
        obtain ⟨marked, ended⟩ := ends now tapped beside
        exact ⟨.inr (tapped.ended ended), fun _ => tapped.ended ended⟩
      · exact ⟨.inl ⟨tapped.visited (visits now place) here, keeps now place beside⟩,
          fun same => absurd same here⟩
    · exact ⟨.inr (gone.visited (visits now place)), fun _ => gone.visited (visits now place)⟩
  have gone (now : State World) (place other : Nat)
      (_ : (Tapped a i t base now ∧ Beside now) ∨ Over a (base ++ [BitVec.ofNat 8 i]) now)
      (done : a = other → Over a (base ++ [BitVec.ofNat 8 i]) now) (same : a = other) :
      Over a (base ++ [BitVec.ofNat 8 i]) (visit now place) :=
    (done same).visited (visits now place)
  exact (foldl_establishes
    (fun now => (Tapped a i t base now ∧ Beside now) ∨ Over a (base ++ [BitVec.ofNat 8 i]) now)
    (fun place now => a = place → Over a (base ++ [BitVec.ofNat 8 i]) now)
    (fun now place phase => (step now place phase).1)
    (fun now place phase => (step now place phase).2) gone places
    (.inl ⟨tapped, beside⟩)).2 a member rfl

end Loops

/-! ### The calls of one event -/

/-- The answer to an event that ends. -/
def step (host : Host World) (terms : Terms) (s : State World) : Event → State World
  | .key now keycode pressed =>
    processTapDance host (preprocessTapDance host s keycode pressed) keycode pressed
      (BitVec.ofNat 16 now)
  | .task now => s.used.foldl (expireDance host terms (BitVec.ofNat 16 now)) s

/-- Time since a tap, on a timer that has not wrapped since. -/
theorem toNat_elapsed {tapped now : Nat} (later : tapped ≤ now) (unwrapped : now < tapped + 65536) :
    (BitVec.ofNat 16 now - BitVec.ofNat 16 tapped).toNat = now - tapped := by
  rw [BitVec.toNat_sub, BitVec.toNat_ofNat, BitVec.toNat_ofNat]
  omega

/-- What a press of a dance's key does. -/
theorem tapDance_effect (host : Host World) (s : State World) (index : Nat) (keycode now : BitVec 16) :
    (∀ other ≠ index, (tapDance host s index keycode now).dances other = s.dances other) ∧
      (∃ finished, (tapDance host s index keycode now).dances index =
          { s.dances index with
            pressed := true, keycode := keycode, count := (s.dances index).count + 1, timer := now
            oneshotMods := host.getOneshotMods s.world
            weakMods := host.getMods s.world ||| host.getWeakMods s.world
            finished := (s.dances index).finished || finished } ∧
        ((∀ dance world, (host.onEachTap index dance world).2 = false) → finished = false)) ∧
      (tapDance host s index keycode now).lastTd = keycode ∧
      (tapDance host s index keycode now).finishes = s.finishes ∧
      (tapDance host s index keycode now).highestTd = s.highestTd := by
  refine ⟨fun other apart => ?_, ?_, rfl, rfl, rfl⟩
  · simp [tapDance, State.update, apart]
  · refine ⟨(host.onEachTap index ((s.update index fun dance =>
        { dance with
          pressed := true
          keycode := keycode
          count := dance.count + 1
          timer := now
          oneshotMods := host.getOneshotMods s.world
          weakMods := host.getMods s.world ||| host.getWeakMods s.world }).dances index)
        s.world).2, ?_, fun quiet => quiet _ _⟩
    simp [tapDance, State.update]

/-- A release resets its dance, and the last keycode, if the dance has finished. -/
theorem releaseDance_effect (host : Host World) (s : State World) (index : Nat) :
    (∀ other ≠ index, (releaseDance host s index).dances other = s.dances other) ∧
      (releaseDance host s index).finishes = s.finishes ∧
      (releaseDance host s index).highestTd = s.highestTd ∧
      if (s.dances index).count ≠ 0 ∧ (s.dances index).finished = true then
        ((releaseDance host s index).dances index).count = 0 ∧ (releaseDance host s index).lastTd = 0
      else
        (releaseDance host s index).dances index = { s.dances index with pressed := false } ∧
          (releaseDance host s index).lastTd = s.lastTd := by
  have released : (s.update index fun dance => { dance with pressed := false }).dances index =
      { s.dances index with pressed := false } := by
    simp [State.update]
  unfold releaseDance
  dsimp only
  rw [released]
  by_cases resets : (s.dances index).count ≠ 0 ∧ (s.dances index).finished = true
  · rw [if_pos resets, if_pos resets]
    obtain ⟨finishes, highest, last⟩ := resetTapDance_keeps host
      (s.update index fun dance => { dance with pressed := false }) index
    rw [resetTapDance_dances, finishes, highest, last, released]
    refine ⟨fun other apart => ?_, rfl, rfl, ?_, rfl⟩
    · rw [Function.update_of_ne apart]
      simp [State.update, apart]
    · simp
  · rw [if_neg resets, if_neg resets]
    refine ⟨fun other apart => ?_, rfl, rfl, released, rfl⟩
    simp [State.update, apart]

end QmkSonix.TapDance
