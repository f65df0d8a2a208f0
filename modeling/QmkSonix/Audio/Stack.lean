import QmkSonix.Audio.Model
import QmkSonix.Lib.Recent

/-! The active tones as a list, oldest first, and what the loops over the array do to it. -/

namespace QmkSonix.Audio

open QmkSonix.Lib

variable {cfg : Config}

/-- `tones[0..active_tones)` -/
def State.stack (state : State) : List Tone := window state.tones state.activeTones

/-- The array, the counter and the flags agree. -/
structure Coherent (cfg : Config) (state : State) : Prop where
  few : state.activeTones ≤ cfg.stackSize
  unused : ∀ i, state.activeTones ≤ i → i < cfg.stackSize → state.tones i = .empty
  distinct : (state.stack.map Tone.pitch).Nodup
  unsigned : ∀ tone ∈ state.stack, 0 ≤ tone.pitch
  playing : state.playingNote = true ↔ 0 < state.activeTones
  driver : state.driverStopped = true ↔ state.activeTones = 0

@[simp] theorem length_stack (state : State) : state.stack.length = state.activeTones :=
  length_window ..

@[simp] theorem getElem_stack (state : State) (i : ℕ) (below : i < state.stack.length) :
    state.stack[i] = state.tones i :=
  getElem_window ..

theorem unsigned_nonneg (pitch : ℚ) : 0 ≤ unsigned pitch := by
  unfold unsigned
  split
  · rename_i negative
    rw [neg_one_mul]
    exact (neg_pos.mpr negative).le
  · rename_i positive
    exact not_lt.mp positive

theorem unsigned_of_nonneg {pitch : ℚ} (nonneg : 0 ≤ pitch) : unsigned pitch = pitch :=
  if_neg (not_lt.mpr nonneg)

section Search

/-- A search from the top finds a place of the pitch. -/
theorem find_spec {tones : ℕ → Tone} {count i : ℕ} {pitch : ℚ}
    (found : (List.range count).reverse.find? (fun i => (tones i).pitch = pitch) = some i) :
    i < count ∧ (tones i).pitch = pitch := by
  have holds := List.find?_some found
  refine ⟨?_, by simpa using holds⟩
  exact List.mem_range.mp (List.mem_reverse.mp (List.mem_of_find?_eq_some found))

theorem not_mem_of_find_none {tones : ℕ → Tone} {count : ℕ} {pitch : ℚ}
    (absent : (List.range count).reverse.find? (fun i => (tones i).pitch = pitch) = none)
    {i : ℕ} (below : i < count) : (tones i).pitch ≠ pitch := by
  have none := List.find?_eq_none.mp absent i (List.mem_reverse.mpr (List.mem_range.mpr below))
  simpa using none

end Search

section Stop

/-- The stack without a pitch -/
def stopped (stack : List Tone) (pitch : ℚ) : List Tone :=
  stack.filter fun tone => tone.pitch ≠ pitch

theorem stopped_of_absent {stack : List Tone} {pitch : ℚ}
    (absent : ∀ tone ∈ stack, tone.pitch ≠ pitch) : stopped stack pitch = stack :=
  List.filter_eq_self.mpr fun tone member => decide_eq_true (absent tone member)

theorem distinct_stopped {stack : List Tone} (distinct : (stack.map Tone.pitch).Nodup) (pitch : ℚ) :
    ((stopped stack pitch).map Tone.pitch).Nodup :=
  distinct.sublist (List.filter_sublist.map _)

/-- What `audio_stop_tone` does to the rest of the state -/
structure Stopped (cfg : Config) (state other : State) (pitch : ℚ) : Prop where
  coherent : Coherent cfg other
  stack : other.stack = stopped state.stack (Audio.unsigned pitch)
  melody : other.melody = state.melody
  enable : other.enable = state.enable
  rate : other.multiplexingRate = state.multiplexingRate
  shift : (other.activeTones = state.activeTones ∧ other.indexShift = state.indexShift) ∨
    other.activeTones + 1 = state.activeTones ∧ other.indexShift =
      if cfg.simultaneousTones.isSome && other.activeTones ≤ state.indexShift then 0
      else state.indexShift

/-- The array behind the loop of `audio_stop_tone` -/
theorem removed_apply (tones : ℕ → Tone) {i size : ℕ} (below : i < size) (x : ℕ) :
    pullFill .empty (Function.update tones i .empty) i (size - 1) x =
      if x < i then tones x
      else if x < size - 1 then tones (x + 1)
      else if x = size - 1 then .empty
      else tones x := by
  rw [pullFill_apply _ _ (by omega)]
  by_cases before : x < i
  · rw [if_pos before, if_neg (by omega), if_neg (by omega), Function.update_of_ne (by omega)]
  · rw [if_neg before]
    by_cases inside : x < size - 1
    · rw [if_pos inside, if_pos (by omega), Function.update_of_ne (by omega)]
    · rw [if_neg inside, if_neg (by omega)]
      by_cases last : x = size - 1
      · rw [if_pos last]
        split
        · rfl
        · rw [show x = i by omega, Function.update_self]
      · rw [if_neg last, if_neg (by omega), Function.update_of_ne (by omega)]

theorem stopped_audioStopTone {state : State} (coherent : Coherent cfg state) (pitch : ℚ) :
    Stopped cfg state (audioStopTone cfg state pitch) pitch := by
  have untouched (absent : ∀ tone ∈ state.stack, tone.pitch ≠ Audio.unsigned pitch) :
      Stopped cfg state state pitch :=
    ⟨coherent, (stopped_of_absent absent).symm, rfl, rfl, rfl, .inl ⟨rfl, rfl⟩⟩
  unfold audioStopTone
  dsimp only
  split
  · split
    · rename_i i found
      obtain ⟨below, here⟩ := find_spec found
      have active : i < state.activeTones := by
        by_contra behind
        have empty := coherent.unused i (not_lt.mp behind) below
        rw [empty] at here
        have negative : (-1 : ℚ) < 0 := by norm_num
        exact absurd (unsigned_nonneg pitch) (not_le.mpr (here ▸ negative))
      have few := coherent.few
      have count : state.activeTones - 1 + 1 = state.activeTones := by omega
      have stack : (toneRemoved cfg state (pullFill .empty (Function.update state.tones i .empty) i
          (cfg.stackSize - 1))).stack = stopped state.stack (Audio.unsigned pitch) := by
        have erased := filter_ne_eq_eraseIdx coherent.distinct (show i < state.stack.length by simpa)
        rw [getElem_stack, here] at erased
        rw [stopped, erased]
        refine (window_of_removed (show i ≤ state.activeTones - 1 by omega) ?_ ?_).trans
          (by rw [count]; rfl)
        · exact fun x before => (removed_apply _ below x).trans (if_pos before)
        · intro x behind inside
          exact (removed_apply _ below x).trans ((if_neg (by omega)).trans (if_pos (by omega)))
      refine ⟨⟨?_, ?_, ?_, ?_, ?_, ?_⟩, stack, rfl, rfl, rfl, .inr ⟨count, rfl⟩⟩
      · change state.activeTones - 1 ≤ cfg.stackSize
        omega
      · intro x unused inside
        change state.activeTones - 1 ≤ x at unused
        change pullFill .empty (Function.update state.tones i .empty) i (cfg.stackSize - 1) x = .empty
        rw [removed_apply _ below, if_neg (by omega)]
        split
        · exact coherent.unused (x + 1) (by omega) (by omega)
        · rw [if_pos (by omega)]
      · rw [stack]
        exact distinct_stopped coherent.distinct _
      · rw [stack]
        exact fun tone member => coherent.unsigned tone (List.mem_of_mem_filter member)
      · have playing := coherent.playing
        simp only [toneRemoved]
        split
        · simp
          omega
        · rw [playing]
          omega
      · have driver := coherent.driver
        simp only [toneRemoved]
        split
        · simpa
        · rw [driver]
          omega
    · rename_i absent
      refine untouched fun tone member => ?_
      obtain ⟨i, below, rfl⟩ := mem_window.mp member
      exact not_mem_of_find_none absent (below.trans_le coherent.few)
  · rename_i silent
    refine untouched fun tone member => ?_
    obtain ⟨i, below, -⟩ := mem_window.mp member
    exact absurd (coherent.playing.mpr (by omega)) silent

end Stop

section Play

/-- The stack with a tone at its end: the pitch is moved or appended, and the oldest tone gives
way where there are too many. -/
def played (size : ℕ) (stack : List Tone) (tone : Tone) : List Tone :=
  recent size (stopped stack tone.pitch ++ [tone])

/-- The tone that was last started has some pitch. -/
def OnTop (stack : List Tone) (pitch : ℚ) : Prop := stack.getLast?.map Tone.pitch = some pitch

instance (stack : List Tone) (pitch : ℚ) : Decidable (OnTop stack pitch) :=
  inferInstanceAs (Decidable (_ = _))

/-- What `audio_play_note` makes of the stack: a pitch at its end is left as it is. -/
def replayed (size : ℕ) (stack : List Tone) (tone : Tone) : List Tone :=
  if OnTop stack tone.pitch then stack else played size stack tone

/-- What `audio_play_note` does to the rest of the state -/
structure Played (cfg : Config) (state other : State) (tone : Tone) : Prop where
  coherent : Coherent cfg other
  stack : other.stack = replayed cfg.stackSize state.stack tone
  melody : other.melody = state.melody
  enable : other.enable = state.enable
  rate : other.multiplexingRate = state.multiplexingRate
  shift : other.indexShift = state.indexShift
  sounds : other.playingNote = true

theorem replayed_of_onTop {size : ℕ} {stack : List Tone} {tone : Tone}
    (top : OnTop stack tone.pitch) : replayed size stack tone = stack := if_pos top

theorem replayed_of_not_onTop {size : ℕ} {stack : List Tone} {tone : Tone}
    (other : ¬ OnTop stack tone.pitch) : replayed size stack tone = played size stack tone :=
  if_neg other

theorem onTop_iff {state : State} (some : 0 < state.activeTones) (pitch : ℚ) :
    OnTop state.stack pitch ↔ (state.tones (state.activeTones - 1)).pitch = pitch := by
  rw [OnTop, State.stack, window_eq_append _ some]
  simp

theorem length_played_le (size : ℕ) (stack : List Tone) (tone : Tone) :
    (played size stack tone).length ≤ size := by
  rw [played, length_recent]
  exact Nat.min_le_right _ _

theorem mem_played {size : ℕ} {stack : List Tone} {tone other : Tone}
    (member : other ∈ played size stack tone) : other ∈ stack ∨ other = tone := by
  rcases List.mem_append.mp (List.mem_of_mem_drop member) with old | new
  · exact .inl (List.mem_of_mem_filter old)
  · exact .inr (List.mem_singleton.mp new)

theorem distinct_played {stack : List Tone} (distinct : (stack.map Tone.pitch).Nodup) (size : ℕ)
    (tone : Tone) : ((played size stack tone).map Tone.pitch).Nodup := by
  refine List.Nodup.sublist ((List.drop_sublist _ _).map _) ?_
  rw [List.map_append, List.map_singleton, List.nodup_append]
  refine ⟨distinct_stopped distinct _, List.nodup_singleton _, ?_⟩
  rintro pitch old other new rfl
  obtain ⟨earlier, member, same⟩ := List.mem_map.mp old
  rw [List.mem_singleton.mp new] at same
  exact of_decide_eq_true (List.mem_filter.mp member).2 same

/-- A pitch that is there does not add to the number of tones. -/
theorem length_replayed {stack : List Tone} (distinct : (stack.map Tone.pitch).Nodup) {size : ℕ}
    (few : stack.length ≤ size) (tone : Tone) :
    (replayed size stack tone).length =
      if ∃ other ∈ stack, other.pitch = tone.pitch then stack.length
      else min (stack.length + 1) size := by
  by_cases found : ∃ other ∈ stack, other.pitch = tone.pitch
  · rw [if_pos found]
    by_cases top : OnTop stack tone.pitch
    · rw [replayed_of_onTop top]
    · obtain ⟨other, member, same⟩ := found
      obtain ⟨i, below, rfl⟩ := List.getElem_of_mem member
      have erased := filter_ne_eq_eraseIdx distinct below
      rw [same] at erased
      rw [replayed_of_not_onTop top, played, length_recent, List.length_append, stopped, erased,
        List.length_eraseIdx_of_lt below, List.length_singleton]
      omega
  · have absent : ∀ other ∈ stack, other.pitch ≠ tone.pitch :=
      fun other member same => found ⟨other, member, same⟩
    have other : ¬ OnTop stack tone.pitch := by
      intro top
      obtain ⟨last, here, same⟩ := Option.map_eq_some_iff.mp top
      exact absent last (List.mem_of_getLast? here) same
    rw [if_neg found, replayed_of_not_onTop other, played, stopped_of_absent absent, length_recent,
      List.length_append, List.length_singleton]

theorem coherent_of_stack {state other : State} {tone : Tone} (coherent : Coherent cfg state)
    (nonneg : 0 ≤ tone.pitch) (stack : other.stack = played cfg.stackSize state.stack tone)
    (some : 0 < other.activeTones) (playing : other.playingNote = true)
    (driver : other.driverStopped = false)
    (unused : ∀ i, other.activeTones ≤ i → i < cfg.stackSize → other.tones i = .empty) :
    Coherent cfg other where
  few := by
    rw [← length_stack, stack]
    exact length_played_le ..
  unused := unused
  distinct := by
    rw [stack]
    exact distinct_played coherent.distinct ..
  unsigned := by
    rw [stack]
    intro other member
    rcases mem_played member with old | rfl
    · exact coherent.unsigned other old
    · exact nonneg
  playing := by simp [playing, some]
  driver := by simp [driver, some.ne']

theorem played_pushTone {state : State} (coherent : Coherent cfg state) {tone : Tone}
    (nonneg : 0 ≤ tone.pitch) (absent : ∀ other ∈ state.stack, other.pitch ≠ tone.pitch) :
    Played cfg state (pushTone cfg state tone) tone := by
  have few := coherent.few
  have positive := cfg.stackSize_pos
  have other : ¬ OnTop state.stack tone.pitch := by
    intro top
    obtain ⟨last, here, same⟩ := Option.map_eq_some_iff.mp top
    exact absent last (List.mem_of_getLast? here) same
  have kept : stopped state.stack tone.pitch = state.stack := stopped_of_absent absent
  have stack : (pushTone cfg state tone).stack = played cfg.stackSize state.stack tone := by
    rw [played, kept]
    by_cases full : cfg.stackSize < state.activeTones + 1
    · have size : state.activeTones = cfg.stackSize := by omega
      have whole : (recent cfg.stackSize state.stack).length = cfg.stackSize := by
        rw [length_recent, length_stack, size, min_self]
      rw [recent_append_of_full (show [tone].length ≤ cfg.stackSize from positive) whole,
        recent_of_le (by rw [length_stack]; exact few)]
      simp only [pushTone, if_pos full, State.stack]
      rw [← Nat.sub_add_cancel positive, window_succ, Nat.add_sub_cancel, Function.update_self, size,
        List.length_singleton, List.drop_one, ← List.eraseIdx_zero]
      congr 1
      rw [← Nat.sub_add_cancel positive]
      refine window_of_removed (Nat.zero_le _) (fun x none => absurd none (Nat.not_lt_zero x)) ?_
      intro x _ inside
      rw [Function.update_of_ne (by omega), pullDown_apply, if_pos (by omega)]
    · rw [recent_of_le (by simp; omega)]
      simp only [pushTone, if_neg full, State.stack]
      rw [window_succ, Nat.add_sub_cancel, Function.update_self]
      congr 1
      exact window_congr fun i below => Function.update_of_ne (by omega) _ _
  refine ⟨coherent_of_stack coherent nonneg stack ?_ rfl rfl ?_, ?_, rfl, rfl, rfl, rfl, rfl⟩
  · simp only [pushTone]
    split
    · exact positive
    · omega
  · intro i unused inside
    simp only [pushTone] at unused ⊢
    split at unused
    · omega
    · rename_i room
      rw [if_neg room]
      exact (Function.update_of_ne (by omega) _ _).trans (coherent.unused i (by omega) inside)
  · rw [stack, replayed_of_not_onTop other]

/-- A pitch that is not on top is moved there. -/
theorem played_pullFill {state : State} (coherent : Coherent cfg state) {tone : Tone}
    (nonneg : 0 ≤ tone.pitch) {i : ℕ} (below : i < state.activeTones - 1)
    (here : (state.tones i).pitch = tone.pitch) :
    Played cfg state { state with tones := pullFill tone state.tones i (state.activeTones - 1) }
      tone := by
  have few := coherent.few
  have count : state.activeTones - 1 + 1 = state.activeTones := by omega
  have some : 0 < state.activeTones := by omega
  have playing : state.playingNote = true := coherent.playing.mpr some
  have driver : state.driverStopped = false := by
    rw [Bool.eq_false_iff]
    exact fun silent => absurd (coherent.driver.mp silent) (by omega)
  have place : i < state.stack.length := by rw [length_stack]; omega
  have erased := filter_ne_eq_eraseIdx coherent.distinct place
  rw [getElem_stack, here] at erased
  have other : ¬ OnTop state.stack tone.pitch := by
    intro top
    have same := (onTop_iff some _).mp top
    have injective := List.nodup_iff_injective_get.mp coherent.distinct
    have places := @injective ⟨i, by simpa using place⟩ ⟨state.activeTones - 1, by simpa⟩
      (by simp [here, same])
    exact absurd (congrArg Fin.val places) (by change ¬ i = state.activeTones - 1; omega)
  have stack : window (pullFill tone state.tones i (state.activeTones - 1)) state.activeTones =
      played cfg.stackSize state.stack tone := by
    have short : (stopped state.stack tone.pitch).length + 1 = state.activeTones := by
      rw [stopped, erased, List.length_eraseIdx_of_lt place, length_stack, count]
    rw [played, recent_of_le (by simpa [short]), stopped, erased]
    rw [window_eq_append _ some]
    congr 1
    · refine (window_of_removed below.le ?_ ?_).trans (by rw [count, State.stack])
      · intro x before
        rw [pullFill_apply _ _ below.le, if_neg (by omega), if_neg (by omega)]
      · intro x behind inside
        rw [pullFill_apply _ _ below.le, if_pos ⟨behind, inside⟩]
    · rw [pullFill_apply _ _ below.le, if_neg (by omega), if_pos ⟨by omega, below⟩]
  have unused (x : ℕ) (behind : state.activeTones ≤ x) (inside : x < cfg.stackSize) :
      pullFill tone state.tones i (state.activeTones - 1) x = .empty := by
    rw [pullFill_apply _ _ below.le, if_neg (by omega), if_neg (by omega)]
    exact coherent.unused x behind inside
  generalize pullFill tone state.tones i (state.activeTones - 1) = tones at stack unused ⊢
  exact ⟨coherent_of_stack coherent nonneg stack some playing driver unused,
    stack.trans (replayed_of_not_onTop other).symm, rfl, rfl, rfl, rfl, playing⟩

theorem played_audioPlayNote {state : State} (coherent : Coherent cfg state)
    (enabled : state.enable = true) (pitch : ℚ) (duration timeStarted : BitVec 16) :
    Played cfg state (audioPlayNote cfg state pitch duration timeStarted)
      ⟨timeStarted, Audio.unsigned pitch, duration⟩ := by
  have nonneg : 0 ≤ (Tone.mk timeStarted (Audio.unsigned pitch) duration).pitch :=
    unsigned_nonneg pitch
  unfold audioPlayNote
  rw [if_neg (by simp [enabled])]
  dsimp only
  split
  · rename_i i found
    obtain ⟨below, here⟩ := find_spec found
    by_cases last : i = state.activeTones - 1
    · -- the loop makes no round, and the entry keeps its time and duration
      have some : 0 < state.activeTones := by omega
      have same (fill : Tone) : pullFill fill state.tones i (state.activeTones - 1) =
          state.tones := by
        simp [pullFill, last]
      have top : OnTop state.stack (Audio.unsigned pitch) := (onTop_iff some _).mpr (last ▸ here)
      rw [same]
      exact ⟨coherent, (replayed_of_onTop top).symm, rfl, rfl, rfl, rfl, coherent.playing.mpr some⟩
    · exact played_pullFill coherent nonneg (by omega) here
  · rename_i absent
    refine played_pushTone coherent nonneg fun tone member => ?_
    obtain ⟨i, below, rfl⟩ := mem_window.mp member
    exact not_mem_of_find_none absent below

end Play

section StopAll

theorem stack_eq_nil_iff (state : State) : state.stack = [] ↔ state.activeTones = 0 := by
  rw [← List.length_eq_zero_iff, length_stack]

/-- What `audio_stop_all` does -/
structure Silenced (cfg : Config) (state other : State) : Prop where
  coherent : Coherent cfg other
  stack : other.stack = []
  enable : other.enable = state.enable
  rate : other.multiplexingRate = state.multiplexingRate
  shift : other.indexShift = state.indexShift

theorem silenced_audioStopAll {state : State} (coherent : Coherent cfg state) :
    Silenced cfg state (audioStopAll state) := by
  unfold audioStopAll
  split
  · rename_i stopped
    have none := coherent.driver.mp stopped
    exact ⟨coherent, (stack_eq_nil_iff state).mpr none, rfl, rfl, rfl⟩
  · exact ⟨⟨Nat.zero_le _, fun _ _ _ => rfl, List.nodup_nil, fun _ none => absurd none List.not_mem_nil,
      by simp, by simp⟩, rfl, rfl, rfl, rfl⟩

end StopAll

section Melody

/-- What `audio_play_melody` does -/
structure Started (cfg : Config) (state other : State) (tone : Tone) : Prop where
  coherent : Coherent cfg other
  stack : other.stack = [tone]
  enable : other.enable = state.enable
  rate : other.multiplexingRate = state.multiplexingRate
  shift : other.indexShift = state.indexShift

theorem Coherent.withMelody {state : State} (coherent : Coherent cfg state) (melody : Melody) :
    Coherent cfg { state with melody := melody } :=
  ⟨coherent.few, coherent.unused, coherent.distinct, coherent.unsigned, coherent.playing,
    coherent.driver⟩

theorem replayed_nil (cfg : Config) (tone : Tone) : replayed cfg.stackSize [] tone = [tone] := by
  have fits : [tone].length ≤ cfg.stackSize := cfg.stackSize_pos
  rw [replayed, if_neg (by simp [OnTop]), played, stopped, List.filter_nil, List.nil_append,
    recent_of_le fits]

theorem started_audioPlayMelody {state : State} (coherent : Coherent cfg state)
    (enabled : state.enable = true) (song : Song) (notesRepeat : Bool)
    (timeStarted lastTimestamp : BitVec 16) :
    Started cfg state (audioPlayMelody cfg state song notesRepeat timeStarted lastTimestamp)
      ⟨timeStarted, Audio.unsigned (song.notes 0).1, cfg.durationToMs (song.notes 0).2⟩ := by
  have silent : Silenced cfg state (if state.playingNote then audioStopAll state else state) := by
    split
    · exact silenced_audioStopAll coherent
    · rename_i none
      have empty : ¬ 0 < state.activeTones := fun some => none (coherent.playing.mpr some)
      exact ⟨coherent, (stack_eq_nil_iff state).mpr (by omega), rfl, rfl, rfl⟩
  unfold audioPlayMelody
  rw [if_neg (by simp [enabled])]
  dsimp only
  generalize (if state.playingNote then audioStopAll state else state) = quiet at silent ⊢
  generalize ({ quiet.melody with
    playing := true, noteResting := false, song := song, notesRepeat := notesRepeat,
    currentNote := 0 } : Melody) = melody
  have plays := played_audioPlayNote (silent.coherent.withMelody melody)
    (silent.enable.trans enabled) (song.notes 0).1 (cfg.durationToMs (song.notes 0).2) timeStarted
  generalize audioPlayNote cfg _ _ _ _ = note at plays ⊢
  refine ⟨plays.coherent.withMelody _, plays.stack.trans ?_, plays.enable.trans silent.enable,
    plays.rate.trans silent.rate, plays.shift.trans silent.shift⟩
  have empty : State.stack { quiet with melody := melody } = [] := silent.stack
  rw [empty, replayed_nil]

end Melody

section Housekeeping

/-- A tone that the housekeeping finds to have no playtime left -/
def Gone (reads : Reads) (tone : Tone) : Prop :=
  tone.expired (reads.housekeeping tone.pitch) = true

instance (reads : Reads) : DecidablePred (Gone reads) :=
  fun tone => inferInstanceAs (Decidable (tone.expired (reads.housekeeping tone.pitch) = true))

/-- What the housekeeping does to the rest of the state. A shift that is at most the number of
tones stays so. -/
structure Kept (cfg : Config) (state other : State) : Prop where
  coherent : Coherent cfg other
  melody : other.melody = state.melody
  enable : other.enable = state.enable
  rate : other.multiplexingRate = state.multiplexingRate
  shift : cfg.simultaneousTones.isSome → state.indexShift ≤ state.activeTones →
    other.indexShift ≤ other.activeTones

theorem Kept.rfl {state : State} (coherent : Coherent cfg state) : Kept cfg state state :=
  ⟨coherent, Eq.refl _, Eq.refl _, Eq.refl _, fun _ fits => fits⟩

theorem Kept.trans {state middle other : State} (first : Kept cfg state middle)
    (second : Kept cfg middle other) : Kept cfg state other where
  coherent := second.coherent
  melody := second.melody.trans first.melody
  enable := second.enable.trans first.enable
  rate := second.rate.trans first.rate
  shift := fun multiplexing fits => second.shift multiplexing (first.shift multiplexing fits)

theorem Stopped.kept {state other : State} {pitch : ℚ} (stopped : Stopped cfg state other pitch) :
    Kept cfg state other where
  coherent := stopped.coherent
  melody := stopped.melody
  enable := stopped.enable
  rate := stopped.rate
  shift := by
    intro multiplexing fits
    rcases stopped.shift with ⟨count, shift⟩ | ⟨count, shift⟩
    · rwa [count, shift]
    · rw [shift, multiplexing, Bool.true_and]
      split
      · exact Nat.zero_le _
      · rename_i below
        rw [decide_eq_true_eq] at below
        omega

theorem stopped_middle {done rest : List Tone} {tone : Tone}
    (distinct : ((done ++ tone :: rest).map Tone.pitch).Nodup) :
    stopped (done ++ tone :: rest) tone.pitch = done ++ rest := by
  have place : done.length < (done ++ tone :: rest).length := by simp
  have erased := filter_ne_eq_eraseIdx distinct place
  rw [List.getElem_append_right le_rfl] at erased
  simp only [Nat.sub_self, List.getElem_cons_zero] at erased
  rw [stopped, erased, List.eraseIdx_append_of_length_le le_rfl, Nat.sub_self, List.eraseIdx_cons_zero]

/-- Behind the last tone, a round does nothing. -/
theorem foldl_housekeep_behind (reads : Reads) {state : State} {places : List ℕ}
    (behind : ∀ i ∈ places, state.activeTones ≤ i) :
    places.foldl (housekeep cfg reads) state = state := by
  induction places with
  | nil => rfl
  | cons i rest ih =>
    obtain ⟨here, later⟩ := List.forall_mem_cons.mp behind
    rw [List.foldl_cons, housekeep, if_neg (fun both => absurd both.1 (not_lt.mpr here)), ih later]

/-- The loop removes the tones that are gone, and skips one behind each of them. -/
theorem foldl_housekeep (reads : Reads) (n : ℕ) {state : State} (coherent : Coherent cfg state)
    (done rest : List Tone) (stack : state.stack = done ++ rest) (left : rest.length ≤ n) :
    Kept cfg state ((List.range' done.length n).foldl (housekeep cfg reads) state) ∧
      ((List.range' done.length n).foldl (housekeep cfg reads) state).stack =
        done ++ sweepSkipping (Gone reads) rest := by
  induction n generalizing state done rest with
  | zero =>
    rw [List.length_eq_zero_iff.mp (Nat.le_zero.mp left)] at stack ⊢
    exact ⟨Kept.rfl coherent, stack⟩
  | succ n ih =>
    have count : state.activeTones = done.length + rest.length := by
      rw [← length_stack, stack, List.length_append]
    rw [List.range'_succ, List.foldl_cons]
    cases rest with
    | nil =>
      have idle : housekeep cfg reads state done.length = state :=
        if_neg fun both => absurd both.1 (by rw [count]; simp)
      rw [idle, foldl_housekeep_behind reads fun i member => by
        rw [List.mem_range'_1] at member
        rw [List.length_nil] at count
        omega]
      exact ⟨Kept.rfl coherent, stack⟩
    | cons tone rest =>
      rw [List.length_cons] at count left
      have place : done.length < state.stack.length := by rw [length_stack, count]; omega
      have here : state.tones done.length = tone := by
        rw [← getElem_stack state done.length place]
        simp [stack]
      by_cases gone : Gone reads tone
      · have round : housekeep cfg reads state done.length = audioStopTone cfg state tone.pitch := by
          rw [housekeep, here]
          exact if_pos ⟨by omega, gone⟩
        have removed := stopped_audioStopTone coherent tone.pitch
        have nonneg := coherent.unsigned tone (by rw [stack]; simp)
        have shorter : (audioStopTone cfg state tone.pitch).stack = done ++ rest := by
          have distinct := coherent.distinct
          rw [stack] at distinct
          rw [removed.stack, unsigned_of_nonneg nonneg, stack, stopped_middle distinct]
        rw [round]
        cases rest with
        | nil =>
          rw [foldl_housekeep_behind reads fun i member => by
            rw [List.mem_range'_1] at member
            rw [← length_stack, shorter, List.append_nil]
            omega]
          exact ⟨removed.kept, by simp [shorter, sweepSkipping, gone]⟩
        | cons next rest =>
          rw [List.length_cons] at left
          obtain ⟨kept, swept⟩ := ih removed.coherent (done ++ [next]) rest
            (by rw [shorter, List.append_assoc, List.singleton_append]) (by omega)
          rw [List.length_append, List.length_singleton] at kept swept
          exact ⟨removed.kept.trans kept, by
            rw [swept, sweepSkipping, if_pos gone, List.append_assoc, List.singleton_append]⟩
      · have round : housekeep cfg reads state done.length = state := by
          rw [housekeep, here]
          exact if_neg fun both => gone both.2
        obtain ⟨kept, swept⟩ := ih coherent (done ++ [tone]) rest
          (by rw [stack, List.append_assoc, List.singleton_append]) (by omega)
        rw [List.length_append, List.length_singleton] at kept swept
        rw [round]
        refine ⟨kept, ?_⟩
        rw [swept, sweepSkipping_cons_of_not gone, List.append_assoc, List.singleton_append]

theorem coherent_updateShift {state : State} (coherent : Coherent cfg state)
    (currentTime : BitVec 16) : Coherent cfg (updateShift cfg state currentTime) := by
  unfold updateShift
  split
  · exact ⟨coherent.few, coherent.unused, coherent.distinct, coherent.unsigned, coherent.playing,
      coherent.driver⟩
  · exact coherent

/-- The multiplexing only changes the shift. -/
theorem same_updateShift (cfg : Config) (state : State) (currentTime : BitVec 16) :
    (updateShift cfg state currentTime).stack = state.stack ∧
      (updateShift cfg state currentTime).activeTones = state.activeTones ∧
      (updateShift cfg state currentTime).melody = state.melody ∧
      (updateShift cfg state currentTime).enable = state.enable ∧
      (updateShift cfg state currentTime).multiplexingRate = state.multiplexingRate := by
  unfold updateShift
  split <;> exact ⟨rfl, rfl, rfl, rfl, rfl⟩

/-- What the part of an update for notes does where a note is played -/
theorem kept_updateTones {state : State} (coherent : Coherent cfg state) (reads : Reads)
    (playing : state.playingNote = true) :
    Kept cfg (updateShift cfg state reads.currentTime) (updateTones cfg state reads) ∧
      (updateTones cfg state reads).stack = sweepSkipping (Gone reads) state.stack := by
  obtain ⟨stack, -⟩ := same_updateShift cfg state reads.currentTime
  obtain ⟨kept, swept⟩ := foldl_housekeep reads _ (coherent_updateShift coherent reads.currentTime)
    [] (updateShift cfg state reads.currentTime).stack rfl (length_stack _).le
  rw [List.length_nil, ← List.range_eq_range'] at kept swept
  rw [updateTones, if_pos playing]
  exact ⟨kept, by rw [swept, stack, List.nil_append]⟩

/-- What the part of an update for notes does to the stack -/
theorem stack_updateTones {state : State} (coherent : Coherent cfg state) (reads : Reads) :
    (updateTones cfg state reads).stack = sweepSkipping (Gone reads) state.stack ∧
      Coherent cfg (updateTones cfg state reads) ∧
      (updateTones cfg state reads).melody = state.melody ∧
      (updateTones cfg state reads).enable = state.enable := by
  by_cases playing : state.playingNote = true
  · obtain ⟨kept, swept⟩ := kept_updateTones coherent reads playing
    obtain ⟨-, -, melody, enable, -⟩ := same_updateShift cfg state reads.currentTime
    exact ⟨swept, kept.coherent, kept.melody.trans melody, kept.enable.trans enable⟩
  · have none : ¬ 0 < state.activeTones := fun some => playing (coherent.playing.mpr some)
    have empty := (stack_eq_nil_iff state).mpr (by omega)
    rw [updateTones, if_neg playing]
    exact ⟨by rw [empty, sweepSkipping], coherent, rfl, rfl⟩

end Housekeeping

end QmkSonix.Audio
