import QmkSonix.Lib.Sweep
import QmkSonix.TapDance.Model

/-! What the functions of the tap dances do to one dance, to the last keycode and to the
calls of `on_dance_finished`. -/

namespace QmkSonix.TapDance

open Lib

variable {World : Type*} {host : Host World} {terms : Terms} {s : State World}

/-! ### Keycodes of the dances -/

theorem toNat_td {index : Nat} (inside : index < 256) : (td index).toNat = 0x5700 + index := by
  have each : ∀ index : Fin 256, (td index).toNat = 0x5700 + index := by decide +kernel
  exact each ⟨index, inside⟩

theorem td_inj {index other : Nat} (inside : index < 256) (within : other < 256)
    (same : td index = td other) : index = other := by
  have values := congrArg BitVec.toNat same
  rw [toNat_td inside, toNat_td within] at values
  omega

theorem td_ne_zero {index : Nat} (inside : index < 256) : td index ≠ 0 := by
  intro zero
  have value := congrArg BitVec.toNat zero
  rw [toNat_td inside] at value
  exact absurd value (by simp)

theorem danceOf_td {index : Nat} (inside : index < 256) : danceOf (td index) = some index := by
  have each : ∀ index : Fin 256, danceOf (td index) = some index.1 := by decide +kernel
  exact each ⟨index, inside⟩

theorem eq_td_of_danceOf {keycode : BitVec 16} {index : Nat} (found : danceOf keycode = some index) :
    index < 256 ∧ keycode = td index := by
  unfold danceOf at found
  split at found
  · next range =>
    have lower : qkTapDance.toNat ≤ keycode.toNat := range.1
    have upper : keycode.toNat ≤ qkTapDanceMax.toNat := range.2
    have value : keycode.toNat - qkTapDance.toNat = index := by
      rw [← BitVec.toNat_sub_of_le range.1]
      exact Option.some.inj found
    simp only [qkTapDance, qkTapDanceMax] at lower upper value
    have inside : index < 256 := by
      simp at lower upper value
      omega
    refine ⟨inside, BitVec.eq_of_toNat_eq ?_⟩
    rw [toNat_td inside]
    simp at lower upper value
    omega
  · cases found

theorem mem_used {index : Nat} :
    index ∈ s.used ↔ ∃ highest, s.highestTd = some highest ∧ index ≤ highest := by
  unfold State.used
  cases s.highestTd with
  | none => simp
  | some highest => simp [Nat.lt_succ_iff]

/-! ### The end of a dance -/

/-- `process_tap_dance_action_on_dance_finished`, and `reset_tap_dance` behind it. -/
def endDance (host : Host World) (s : State World) (index : Nat) : State World :=
  resetTapDance host (actionOnDanceFinished host s index) index

/-- What is left of a dance that ends: it waits for its release, or is over. -/
def Dance.ended (dance : Dance) : Dance :=
  if dance.pressed then { dance with finished := true }
  else
    { dance with count := 0, interrupted := false, finished := false, interruptingKeycode := 0 }

theorem actionOnDanceFinished_dances (s : State World) (index : Nat) :
    (actionOnDanceFinished host s index).dances =
      Function.update s.dances index { s.dances index with finished := true } := by
  unfold actionOnDanceFinished
  split
  · next finished =>
    rw [eq_comm, Function.update_eq_self_iff, ← finished]
  · rfl

theorem actionOnDanceFinished_finishes (s : State World) (index : Nat) :
    (actionOnDanceFinished host s index).finishes =
      if (s.dances index).finished then s.finishes
      else s.finishes ++ [(index, (s.dances index).count)] := by
  unfold actionOnDanceFinished
  split
  · rfl
  · simp [State.update]

theorem actionOnDanceFinished_keeps (s : State World) (index : Nat) :
    (actionOnDanceFinished host s index).lastTd = s.lastTd ∧
      (actionOnDanceFinished host s index).highestTd = s.highestTd := by
  unfold actionOnDanceFinished
  split
  · exact ⟨rfl, rfl⟩
  · exact ⟨rfl, rfl⟩

theorem resetTapDance_dances (s : State World) (index : Nat) :
    (resetTapDance host s index).dances = Function.update s.dances index
      (if (s.dances index).pressed then s.dances index
      else { s.dances index with
        count := 0, interrupted := false, finished := false, interruptingKeycode := 0 }) := by
  unfold resetTapDance
  split
  · next pressed => rw [Function.update_eq_self]
  · rfl

theorem resetTapDance_keeps (host : Host World) (s : State World) (index : Nat) :
    (resetTapDance host s index).finishes = s.finishes ∧
      (resetTapDance host s index).highestTd = s.highestTd ∧
      (resetTapDance host s index).lastTd =
        if (s.dances index).pressed then s.lastTd else 0 := by
  unfold resetTapDance
  split
  · exact ⟨rfl, rfl, rfl⟩
  · exact ⟨rfl, rfl, rfl⟩

theorem endDance_dances (s : State World) (index : Nat) :
    (endDance host s index).dances =
      Function.update s.dances index (s.dances index).ended := by
  rw [endDance, resetTapDance_dances, actionOnDanceFinished_dances, Function.update_self,
    Function.update_idem]
  rfl

theorem endDance_finishes (s : State World) (index : Nat) :
    (endDance host s index).finishes =
      if (s.dances index).finished then s.finishes
      else s.finishes ++ [(index, (s.dances index).count)] := by
  rw [endDance, (resetTapDance_keeps host _ index).1, actionOnDanceFinished_finishes]

theorem endDance_lastTd (s : State World) (index : Nat) :
    (endDance host s index).lastTd = if (s.dances index).pressed then s.lastTd else 0 := by
  rw [endDance, (resetTapDance_keeps host _ index).2.2, actionOnDanceFinished_dances,
    Function.update_self, (actionOnDanceFinished_keeps s index).1]

theorem endDance_highestTd (s : State World) (index : Nat) :
    (endDance host s index).highestTd = s.highestTd := by
  rw [endDance, (resetTapDance_keeps host _ index).2.1, (actionOnDanceFinished_keeps s index).2]

/-! ### A visit of one of the loops -/

/-- The counts with which `on_dance_finished` of a dance has been called. -/
def State.calls (s : State World) (index : Nat) : List (BitVec 8) :=
  (s.finishes.filter (·.1 = index)).map (·.2)

/-- A visit ends its dance, which it may have marked before. -/
structure Ended (marked : Dance) (index : Nat) (s after : State World) : Prop where
  counts : (s.dances index).count ≠ 0
  count : marked.count = (s.dances index).count
  keycode : marked.keycode = (s.dances index).keycode
  pressed : marked.pressed = (s.dances index).pressed
  timer : marked.timer = (s.dances index).timer
  dances : after.dances = Function.update s.dances index marked.ended
  lastTd : after.lastTd = if (s.dances index).pressed then s.lastTd else 0
  finishes : after.finishes = if (s.dances index).finished then s.finishes
    else s.finishes ++ [(index, (s.dances index).count)]
  highestTd : after.highestTd = s.highestTd

/-- What a visit of a loop does to its dance. -/
def Visited (index : Nat) (s after : State World) : Prop :=
  after = s ∨ ∃ marked, Ended marked index s after

theorem interruptDance_eq (host : Host World) (keycode : BitVec 16) (s : State World)
    (index : Nat) :
    interruptDance host keycode s index =
      if (s.dances index).count = 0 then s
      else if keycode = (s.dances index).keycode ∧ keycode = s.lastTd then s
      else
        { endDance host (s.update index fun dance =>
            { dance with interrupted := true, interruptingKeycode := keycode }) index with
          world := host.clearWeakMods (endDance host (s.update index fun dance =>
            { dance with interrupted := true, interruptingKeycode := keycode }) index).world } :=
  rfl

/-- A dance under way is interrupted unless it is the last one, tapped again. -/
theorem interruptDance_ends (host : Host World) {keycode : BitVec 16} {index : Nat}
    (counts : (s.dances index).count ≠ 0)
    (other : ¬(keycode = (s.dances index).keycode ∧ keycode = s.lastTd)) :
    Ended { s.dances index with interrupted := true, interruptingKeycode := keycode } index s
      (interruptDance host keycode s index) := by
  have same : (s.update index fun dance =>
      { dance with interrupted := true, interruptingKeycode := keycode }).dances index =
      { s.dances index with interrupted := true, interruptingKeycode := keycode } := by
    simp [State.update]
  rw [interruptDance_eq, if_neg counts, if_neg other]
  refine ⟨counts, rfl, rfl, rfl, rfl, ?_, ?_, ?_, endDance_highestTd _ index⟩
  · dsimp only
    rw [endDance_dances, same]
    exact Function.update_idem _ _ _
  · dsimp only
    rw [endDance_lastTd, same]
    rfl
  · dsimp only
    rw [endDance_finishes, same]
    rfl

theorem interruptDance_visited (host : Host World) (keycode : BitVec 16) (s : State World)
    (index : Nat) : Visited index s (interruptDance host keycode s index) := by
  by_cases rests : (s.dances index).count = 0
  · rw [interruptDance_eq, if_pos rests]
    exact .inl rfl
  · by_cases again : keycode = (s.dances index).keycode ∧ keycode = s.lastTd
    · rw [interruptDance_eq, if_neg rests, if_pos again]
      exact .inl rfl
    · exact .inr ⟨_, interruptDance_ends host rests again⟩

theorem expireDance_ends (host : Host World) {now : BitVec 16} {index : Nat}
    (counts : (s.dances index).count ≠ 0)
    (late : terms.term index (s.dances index).keycode < now - (s.dances index).timer) :
    Ended (s.dances index) index s (expireDance host terms now s index) := by
  have ends : expireDance host terms now s index = endDance host s index :=
    if_pos ⟨counts, late⟩
  rw [ends]
  exact ⟨counts, rfl, rfl, rfl, rfl, endDance_dances s index, endDance_lastTd s index,
    endDance_finishes s index, endDance_highestTd s index⟩

theorem expireDance_visited (host : Host World) (terms : Terms) (now : BitVec 16)
    (s : State World) (index : Nat) : Visited index s (expireDance host terms now s index) := by
  by_cases expires : (s.dances index).count ≠ 0 ∧
      terms.term index (s.dances index).keycode < now - (s.dances index).timer
  · exact .inr ⟨_, expireDance_ends host expires.1 expires.2⟩
  · exact .inl (if_neg expires)

section Visits

variable {after : State World} {marked : Dance} {index other : Nat}

theorem Dance.ended_keeps (dance : Dance) : dance.ended.keycode = dance.keycode ∧
    dance.ended.pressed = dance.pressed ∧ dance.ended.timer = dance.timer := by
  unfold Dance.ended
  split <;> exact ⟨rfl, rfl, rfl⟩

theorem Ended.dance (ended : Ended marked index s after) : after.dances index = marked.ended := by
  rw [ended.dances, Function.update_self]

theorem Ended.calls (ended : Ended marked index s after) (unfinished : (s.dances index).finished = false) :
    after.calls index = s.calls index ++ [(s.dances index).count] := by
  rw [State.calls, ended.finishes, unfinished]
  simp [State.calls]

theorem Visited.dances_of_ne (visited : Visited index s after) (apart : other ≠ index) :
    after.dances other = s.dances other := by
  rcases visited with rfl | ⟨marked, ended⟩
  · rfl
  · rw [ended.dances, Function.update_of_ne apart]

theorem Visited.calls_of_ne (visited : Visited index s after) (apart : other ≠ index) :
    after.calls other = s.calls other := by
  rcases visited with rfl | ⟨marked, ended⟩
  · rfl
  · rw [State.calls, ended.finishes]
    split
    · rfl
    · simp [State.calls, Ne.symm apart]

theorem Visited.highestTd (visited : Visited index s after) : after.highestTd = s.highestTd := by
  rcases visited with rfl | ⟨marked, ended⟩
  · rfl
  · exact ended.highestTd

theorem Visited.used (visited : Visited index s after) : after.used = s.used := by
  rw [State.used, State.used, visited.highestTd]

/-- A visit keeps all of a dance but its count, which it may clear, and its flags. -/
theorem Visited.keeps (visited : Visited index s after) (other : Nat) :
    (after.dances other).keycode = (s.dances other).keycode ∧
      (after.dances other).pressed = (s.dances other).pressed ∧
      ((after.dances other).count = (s.dances other).count ∨
        (after.dances other).count = 0 ∧ (s.dances other).pressed = false) := by
  by_cases same : other = index
  · subst same
    rcases visited with rfl | ⟨marked, ended⟩
    · exact ⟨rfl, rfl, .inl rfl⟩
    · obtain ⟨keycode, pressed, -⟩ := Dance.ended_keeps marked
      rw [ended.dance, keycode, pressed, ended.keycode, ended.pressed]
      refine ⟨rfl, rfl, ?_⟩
      unfold Dance.ended
      rw [ended.pressed]
      split
      · exact .inl ended.count
      · next up => exact .inr ⟨rfl, Bool.eq_false_iff.mpr up⟩
  · rw [visited.dances_of_ne same]
    exact ⟨rfl, rfl, .inl rfl⟩

theorem Visited.lastTd (visited : Visited index s after) :
    after.lastTd = s.lastTd ∨ after.lastTd = 0 := by
  rcases visited with rfl | ⟨marked, ended⟩
  · exact .inl rfl
  · rw [ended.lastTd]
    split
    · exact .inl rfl
    · exact .inr rfl

end Visits

end QmkSonix.TapDance
