import QmkSonix.Rgblight.Animation

/-! No animation divides by zero or writes outside of the effect range, along exactly those
runs in which no snake or knight meets an empty range and no twinkle a colour without
saturation. -/

namespace QmkSonix.Rgblight.Animation

open QmkSonix.Lib

variable {build : Build}

namespace State

variable (s : State build)

/-- The range lies in the LED array, and a twinkle that lives has a life to divide by. -/
structure Sound : Prop where
  range : s.effectEndPos.toNat = s.effectStartPos.toNat + s.effectNumLeds.toNat
  inside : s.effectEndPos.toNat ≤ build.rgbledNum.toNat
  alive : ∀ i, (s.twinkle i).life ≠ 0 → (s.twinkle i).maxLife ≠ 0

/-- A write to an LED of the effect range. -/
def InRange (write : Write) : Prop :=
  s.effectStartPos.toNat ≤ write.index ∧ write.index < s.effectEndPos.toNat ∧
    write.index < build.rgbledNum.toNat

/-- A twinkle brightens and dims between two different values, and a colour is drawn at
random only from a saturation of at least 2. -/
def Twinkles (delta : Byte) (rand : ℕ → ℕ → ℕ) : Prop :=
  s.pos ≠ 0 → ∀ i < s.effectNumLeds.toNat,
    ((s.twinkle i).life ≠ 0 → build.breatheCalc 127 ≠ build.breatheCalc 0) ∧
      ((s.twinkle i).life = 0 → selected s rand i = true → randomColor delta = true →
        2 ≤ s.sat.toNat)

/-- The steps that divide by what is not zero. -/
def Divides (delta : Byte) (rand : ℕ → ℕ → ℕ) : Effect → Prop
  | .snake => delta.toNat % 2 = 1 → s.effectNumLeds ≠ 0
  | .knight => s.effectNumLeds = 0 → knightLedNum s = 0
  | .twinkle => s.Twinkles delta rand
  | _ => True

/-- A step of an animation: all its writes are in range, and the invariant is kept. -/
structure Draws (ended : State build) : Prop where
  start : ended.effectStartPos = s.effectStartPos
  stop : ended.effectEndPos = s.effectEndPos
  count : ended.effectNumLeds = s.effectNumLeds
  alive : ∀ i, (ended.twinkle i).life ≠ 0 → (ended.twinkle i).maxLife ≠ 0
  written : ∀ write ∈ ended.written, s.InRange write

end State

/-- Nothing has been divided by zero, and the last call has written in the effect range. -/
def Safe : Option (State build) → Prop
  | some s => ∀ write ∈ s.written, s.InRange write
  | none => False

/-- The steps that leave the animations safe. -/
def allowed : Option (State build) → Event → Prop
  | some s, .effect effect delta rand => s.Divides delta rand effect
  | _, _ => True

section Writes

variable {s : State build}

theorem State.Sound.offset (sound : s.Sound) {i : ℕ} (within : i < s.effectNumLeds.toNat)
    (rgb : Rgb) : s.InRange ⟨i + s.effectStartPos.toNat, rgb⟩ := by
  have range := sound.range
  have inside := sound.inside
  refine ⟨?_, ?_, ?_⟩ <;> dsimp only <;> omega

theorem State.Sound.fill (sound : s.Sound) (rgb : Rgb) : ∀ write ∈ fill s rgb, s.InRange write := by
  intro write member
  obtain ⟨i, place, rfl⟩ := List.mem_map.mp member
  have inside := sound.inside
  obtain ⟨above, below⟩ := List.mem_range'_1.mp place
  refine ⟨above, ?_, ?_⟩ <;> dsimp only <;> omega

theorem State.Sound.rgblightSet (sound : s.Sound) : ∀ write ∈ rgblightSet s, s.InRange write := by
  unfold Animation.rgblightSet
  split
  · intro write member
    cases member
  · exact sound.fill {}

theorem State.Sound.rgblightSetrgb (sound : s.Sound) (rgb : Rgb) :
    ∀ write ∈ rgblightSetrgb s rgb, s.InRange write := by
  unfold Animation.rgblightSetrgb
  split
  · exact List.forall_mem_append.mpr ⟨sound.fill rgb, sound.rgblightSet⟩
  · intro write member
    cases member

theorem State.Sound.rgblightSethsv (sound : s.Sound) (hue sat val : Byte) :
    ∀ write ∈ rgblightSethsvNoeepromOld s hue sat val, s.InRange write := by
  unfold rgblightSethsvNoeepromOld
  split
  · exact sound.rgblightSetrgb _
  · intro write member
    cases member

/-- Writes that each go to an LED of the range, behind what `rgblight_set` adds. -/
theorem State.Sound.with_set (sound : s.Sound) {writes : List Write}
    (places : ∀ write ∈ writes, ∃ i < s.effectNumLeds.toNat,
      write.index = i + s.effectStartPos.toNat) :
    ∀ write ∈ writes ++ Animation.rgblightSet s, s.InRange write := by
  refine List.forall_mem_append.mpr ⟨fun write member => ?_, sound.rgblightSet⟩
  obtain ⟨i, within, place⟩ := places write member
  have inside := sound.offset within write.rgb
  rw [← place] at inside
  exact inside

theorem div_isSome {n d : ℕ} : (div n d).isSome ↔ d ≠ 0 := by
  unfold div
  split <;> simp_all

theorem mod_isSome {n d : ℕ} : (mod n d).isSome ↔ d ≠ 0 := by
  unfold mod
  split <;> simp_all

theorem mod_lt {n d rest : ℕ} (ends : mod n d = some rest) : rest < d := by
  unfold mod at ends
  split at ends
  · cases ends
  · cases ends
    exact Nat.mod_lt _ (by omega)

end Writes

section Effects

variable {s : State build}

theorem State.Sound.breathing (sound : s.Sound) : s.Draws (rgblightEffectBreathing s) :=
  ⟨rfl, rfl, rfl, sound.alive, sound.rgblightSethsv _ _ _⟩

theorem State.Sound.rainbowMood (sound : s.Sound) : s.Draws (rgblightEffectRainbowMood s) :=
  ⟨rfl, rfl, rfl, sound.alive, sound.rgblightSethsv _ _ _⟩

theorem State.Sound.rgbtest (sound : s.Sound) : s.Draws (rgblightEffectRgbtest s) :=
  ⟨rfl, rfl, rfl, sound.alive, sound.rgblightSetrgb _⟩

/-- The swirl divides by the size of the range in its rounds over the range only. -/
theorem State.Sound.rainbowSwirl (sound : s.Sound) (delta : Byte) :
    ∃ ended, rgblightEffectRainbowSwirl s delta = some ended ∧ s.Draws ended := by
  have rounds : ∀ i < s.effectNumLeds.toNat, (rainbowSwirlRound s i).isSome := by
    intro i within
    obtain ⟨step, quotient⟩ := Option.isSome_iff_exists.mp
      (div_isSome.mpr (by omega : s.effectNumLeds.toNat ≠ 0) : (div build.rainbowSwirlRange _).isSome)
    simp only [rainbowSwirlRound, quotient]
    rfl
  obtain ⟨writes, ends⟩ := Option.isSome_iff_exists.mp (counted_isSome.mpr rounds)
  simp only [rgblightEffectRainbowSwirl, ends]
  refine ⟨_, rfl, rfl, rfl, rfl, sound.alive, sound.with_set fun write member => ?_⟩
  obtain ⟨i, within, written⟩ := mem_counted ends member
  obtain ⟨step, -, round⟩ := Option.bind_eq_some_iff.mp written
  obtain rfl := Option.some.inj round
  exact ⟨i, within, rfl⟩

/-- Neither of the cubes' sums vanishes. -/
theorem christmas_divisor (pos : Byte) :
    (cubed (pos.setWidth 32) + cubed (32 - pos.setWidth 32)).toNat ≠ 0 := by
  revert pos
  decide +kernel

theorem State.Sound.christmas (sound : s.Sound) :
    ∃ ended, rgblightEffectChristmas s = some ended ∧ s.Draws ended := by
  obtain ⟨hue, quotient⟩ := Option.isSome_iff_exists.mp
    (div_isSome.mpr (christmas_divisor s.pos) :
      (div (85 * cubed (s.pos.setWidth 32)).toNat _).isSome)
  simp only [rgblightEffectChristmas, quotient]
  refine ⟨_, rfl, rfl, rfl, rfl, sound.alive, sound.with_set fun write member => ?_⟩
  obtain ⟨i, within, rfl⟩ := List.mem_map.mp member
  exact ⟨i, List.mem_range.mp within, rfl⟩

theorem State.Sound.alternating (sound : s.Sound) : s.Draws (rgblightEffectAlternating s) := by
  refine ⟨rfl, rfl, rfl, sound.alive, sound.with_set fun write member => ?_⟩
  obtain ⟨i, within, rfl⟩ := List.mem_map.mp member
  exact ⟨i, List.mem_range.mp within, rfl⟩

/-- The restart of the snake leaves the range and the twinkles alone. -/
theorem snakeRestart_cases (s : State build) (delta : Byte) :
    snakeRestart s delta = s ∨
      ∃ snakePos, snakeRestart s delta = { s with snakePos, pos := 1 } := by
  unfold snakeRestart
  split
  · exact .inr ⟨_, rfl⟩
  · exact .inl rfl

theorem State.Sound.snakeRestart (sound : s.Sound) (delta : Byte) :
    (snakeRestart s delta).Sound := by
  rcases snakeRestart_cases s delta with same | ⟨snakePos, moved⟩
  · rw [same]
    exact sound
  · rw [moved]
    exact ⟨sound.range, sound.inside, sound.alive⟩

/-- A part of the snake divides by constants that are not zero in the rounds of its loops. -/
theorem State.Sound.snakePart (sound : s.Sound) (delta : Byte) {i j : ℕ}
    (within : i < s.effectNumLeds.toNat) (part : j < build.snakeLength.toNat) :
    (snakePart s delta i j).isSome := by
  have range := sound.range
  have inside := sound.inside
  have wraps (k : Int) : (snakeWrap build k).isSome := by
    unfold snakeWrap
    split
    · rw [Option.isSome_map]
      exact mod_isSome.mpr (by omega)
    · rfl
  obtain ⟨k, wrapped⟩ := Option.isSome_iff_exists.mp (wraps
    (BitVec.ofInt 8 (s.snakePos.toNat + j * snakeIncrement delta)).toInt)
  obtain ⟨val, quotient⟩ := Option.isSome_iff_exists.mp
    (div_isSome.mpr (by omega : build.snakeLength.toNat ≠ 0) :
      (div (s.val.toNat * (build.snakeLength.toNat - j)) build.snakeLength.toNat).isSome)
  simp only [Animation.snakePart, wrapped, quotient, bind, Option.bind]
  generalize (if k < 0 then (BitVec.ofInt 8 (k + s.effectNumLeds.toNat)).toInt else k) = place
  split
  · rfl
  · rfl

theorem snakePart_index {delta : Byte} {i j : ℕ} {writes : List Write}
    (ends : snakePart s delta i j = some writes) :
    ∀ write ∈ writes, write.index = i + s.effectStartPos.toNat := by
  obtain ⟨k, -, ends⟩ := Option.bind_eq_some_iff.mp ends
  dsimp only at ends
  generalize (if k < 0 then (BitVec.ofInt 8 (k + s.effectNumLeds.toNat)).toInt else k) = place
    at ends
  intro write member
  split at ends
  · obtain ⟨val, -, ends⟩ := Option.bind_eq_some_iff.mp ends
    obtain rfl := Option.some.inj ends
    rw [List.mem_singleton.mp member]
  · obtain rfl := Option.some.inj ends
    cases member

theorem State.Sound.snakeRound (sound : s.Sound) (delta : Byte) {i : ℕ}
    (within : i < s.effectNumLeds.toNat) : (snakeRound s delta i).isSome := by
  obtain ⟨parts, ends⟩ := Option.isSome_iff_exists.mp
    (counted_isSome.mpr fun j part => sound.snakePart delta within part)
  simp only [Animation.snakeRound, ends]
  rfl

theorem snakeRound_index {delta : Byte} {i : ℕ} {writes : List Write}
    (ends : snakeRound s delta i = some writes) :
    ∀ write ∈ writes, write.index = i + s.effectStartPos.toNat := by
  obtain ⟨parts, rounds, ends⟩ := Option.bind_eq_some_iff.mp ends
  obtain rfl := Option.some.inj ends
  intro write member
  rcases List.mem_cons.mp member with rfl | lit
  · rfl
  · obtain ⟨part, present, inPart⟩ := List.mem_flatten.mp lit
    obtain ⟨j, -, drawn⟩ := mem_counted rounds present
    exact snakePart_index drawn write inPart

/-- The snake moves, and divides by the size of the range on its way back. -/
theorem snakeMove_cases (s : State build) (delta : Byte) :
    (delta.toNat % 2 = 1 ∧ s.effectNumLeds = 0 ∧ snakeMove s delta = none) ∨
      (delta.toNat % 2 = 1 → s.effectNumLeds ≠ 0) ∧
        ∃ snakePos pos, snakeMove s delta = some { s with snakePos, pos } := by
  unfold snakeMove snakeIncrement
  by_cases odd : delta.toNat % 2 = 1
  · rw [if_pos odd, if_neg (by decide)]
    by_cases empty : s.effectNumLeds = 0
    · left
      refine ⟨odd, empty, ?_⟩
      rw [empty]
      rfl
    · right
      have positive : s.effectNumLeds.toNat ≠ 0 := fun zero => empty (BitVec.eq_of_toNat_eq zero)
      obtain ⟨next, remainder⟩ := Option.isSome_iff_exists.mp
        (mod_isSome.mpr positive : (mod (s.snakePos.toNat + 1) s.effectNumLeds.toNat).isSome)
      rw [remainder]
      exact ⟨fun _ => empty, _, _, rfl⟩
  · right
    rw [if_neg odd, if_pos rfl]
    refine ⟨fun same => absurd same odd, ?_⟩
    split
    · exact ⟨_, _, rfl⟩
    · exact ⟨_, _, rfl⟩

theorem State.Sound.snake (sound : s.Sound) (delta : Byte) :
    (¬ (delta.toNat % 2 = 1 → s.effectNumLeds ≠ 0) ∧ rgblightEffectSnake s delta = none) ∨
      (delta.toNat % 2 = 1 → s.effectNumLeds ≠ 0) ∧
        ∃ ended, rgblightEffectSnake s delta = some ended ∧ s.Draws ended := by
  have restarted := sound.snakeRestart delta
  have same : (Animation.snakeRestart s delta).effectStartPos = s.effectStartPos ∧
      (Animation.snakeRestart s delta).effectEndPos = s.effectEndPos ∧
      (Animation.snakeRestart s delta).effectNumLeds = s.effectNumLeds := by
    rcases snakeRestart_cases s delta with same | ⟨snakePos, moved⟩
    · rw [same]
      exact ⟨rfl, rfl, rfl⟩
    · rw [moved]
      exact ⟨rfl, rfl, rfl⟩
  obtain ⟨start, stop, count⟩ := same
  obtain ⟨writes, rounds⟩ := Option.isSome_iff_exists.mp
    (counted_isSome.mpr fun i within => restarted.snakeRound delta within)
  have drawn : ∀ write ∈ writes.flatten ++ Animation.rgblightSet (Animation.snakeRestart s delta),
      (Animation.snakeRestart s delta).InRange write := by
    refine restarted.with_set fun write member => ?_
    obtain ⟨round, present, inRound⟩ := List.mem_flatten.mp member
    obtain ⟨i, within, drawn⟩ := mem_counted rounds present
    exact ⟨i, within, snakeRound_index drawn write inRound⟩
  have inRange : ∀ write ∈ writes.flatten ++ Animation.rgblightSet (Animation.snakeRestart s delta),
      s.InRange write := by
    intro write member
    have range := drawn write member
    unfold State.InRange at range ⊢
    rw [start, stop] at range
    exact range
  unfold rgblightEffectSnake
  dsimp only
  rw [rounds]
  dsimp only [bind, Option.bind]
  rcases snakeMove_cases { Animation.snakeRestart s delta with
    written := writes.flatten ++ Animation.rgblightSet (Animation.snakeRestart s delta) } delta with
    ⟨odd, empty, fails⟩ | ⟨divides, snakePos, pos, moved⟩
  · left
    exact ⟨fun divides => divides odd (count ▸ empty), fails⟩
  · right
    refine ⟨fun odd empty => divides odd (count.trans empty), _, moved, start, stop, count,
      restarted.alive, inRange⟩

/-- The restart of the knight leaves the range and the twinkles alone. -/
theorem knightRestart_cases (s : State build) :
    knightRestart s = s ∨ ∃ lowBound highBound, knightRestart s =
      { s with pos := 1, lowBound, highBound, knightIncrement := 1 } := by
  unfold knightRestart
  split
  · exact .inr ⟨_, _, rfl⟩
  · exact .inl rfl

/-- The knight lights LEDs of the range, and divides by its size in every round. -/
theorem State.Sound.knightRound (sound : s.Sound) {i : ℕ} {write : Write}
    (ends : knightRound s i = some write) :
    ∃ i < s.effectNumLeds.toNat, write.index = i + s.effectStartPos.toNat := by
  obtain ⟨place, remainder, ends⟩ := Option.bind_eq_some_iff.mp ends
  obtain rfl := Option.some.inj ends
  have below := mod_lt remainder
  have range := sound.range
  have small := s.effectEndPos.isLt
  refine ⟨place, below, ?_⟩
  dsimp only
  rw [BitVec.toNat_ofNat, Nat.mod_eq_of_lt (by omega)]

theorem knightRound_isSome {i : ℕ} : (knightRound s i).isSome ↔ s.effectNumLeds ≠ 0 := by
  unfold knightRound
  cases remainder : mod (i + build.knightOffset) s.effectNumLeds.toNat with
  | none =>
    have zero : s.effectNumLeds.toNat = 0 := by
      by_contra positive
      have some := mod_isSome (n := i + build.knightOffset) |>.mpr positive
      rw [remainder] at some
      cases some
    have empty : s.effectNumLeds = 0 := BitVec.eq_of_toNat_eq zero
    simp [empty]
  | some place =>
    have positive := (mod_lt remainder).ne_bot
    have full : s.effectNumLeds ≠ 0 := fun empty => positive (by rw [empty]; rfl)
    exact ⟨fun _ => full, fun _ => rfl⟩

theorem State.Sound.knight (sound : s.Sound) :
    (¬ (s.effectNumLeds = 0 → knightLedNum s = 0) ∧ rgblightEffectKnight s = none) ∨
      (s.effectNumLeds = 0 → knightLedNum s = 0) ∧
        ∃ ended, rgblightEffectKnight s = some ended ∧ s.Draws ended := by
  have restarted : (Animation.knightRestart s).Sound ∧
      (Animation.knightRestart s).effectStartPos = s.effectStartPos ∧
      (Animation.knightRestart s).effectEndPos = s.effectEndPos ∧
      (Animation.knightRestart s).effectNumLeds = s.effectNumLeds := by
    rcases knightRestart_cases s with same | ⟨lowBound, highBound, moved⟩
    · rw [same]
      exact ⟨sound, rfl, rfl, rfl⟩
    · rw [moved]
      exact ⟨⟨sound.range, sound.inside, sound.alive⟩, rfl, rfl, rfl⟩
  obtain ⟨soundRestart, start, stop, count⟩ := restarted
  have ledNum : knightLedNum (Animation.knightRestart s) = knightLedNum s := by
    unfold knightLedNum
    rw [count]
  unfold rgblightEffectKnight
  dsimp only
  rw [ledNum]
  cases rounds : counted (knightLedNum s).toNat
      (Animation.knightRound (Animation.knightRestart s)) with
  | none =>
    left
    refine ⟨fun divides => ?_, rfl⟩
    have all : ∀ i < (knightLedNum s).toNat,
        (Animation.knightRound (Animation.knightRestart s) i).isSome := by
      intro i within
      rw [knightRound_isSome, count]
      intro empty
      have none := divides empty
      rw [none] at within
      exact absurd within (Nat.not_lt_zero i)
    have some := counted_isSome.mpr all
    rw [rounds] at some
    cases some
  | some writes =>
    right
    constructor
    · intro empty
      by_contra lit
      have positive : 0 < (knightLedNum s).toNat :=
        Nat.pos_of_ne_zero fun zero => lit (BitVec.eq_of_toNat_eq zero)
      have first := counted_isSome.mp (by rw [rounds]; rfl) 0 positive
      exact knightRound_isSome.mp first (count.trans empty)
    · refine ⟨_, rfl, start, stop, count, soundRestart.alive, ?_⟩
      have drawn : ∀ write ∈ Animation.fill (Animation.knightRestart s) {} ++ writes ++
          Animation.rgblightSet (Animation.knightRestart s),
          (Animation.knightRestart s).InRange write := by
        rw [List.append_assoc]
        refine List.forall_mem_append.mpr ⟨soundRestart.fill {}, ?_⟩
        refine soundRestart.with_set fun write member => ?_
        obtain ⟨i, -, lit⟩ := mem_counted rounds member
        exact soundRestart.knightRound lit
      intro write member
      have range := drawn write member
      unfold State.InRange at range ⊢
      rw [start, stop] at range
      exact range

theorem frac_isSome {n d : Byte} : (frac n d).isSome ↔ d ≠ 0 := by
  have zero : d.toNat = 0 ↔ d = 0 := ⟨fun same => BitVec.eq_of_toNat_eq same, fun same => by
    rw [same]; rfl⟩
  rw [frac, Option.isSome_map, div_isSome, ne_eq, zero]

theorem twinkleVal_isSome {t : Twinkle} (alive : t.maxLife ≠ 0) :
    (twinkleVal s t).isSome ↔ build.breatheCalc 127 ≠ build.breatheCalc 0 := by
  obtain ⟨phase, aged⟩ := Option.isSome_iff_exists.mp
    (frac_isSome.mpr alive : (frac t.life t.maxLife).isSome)
  have spread := frac_isSome (n := build.breatheCalc phase - build.breatheCalc 0)
    (d := build.breatheCalc 127 - build.breatheCalc 0)
  rw [sub_ne_zero] at spread
  rw [← spread]
  simp only [twinkleVal, aged, bind, Option.bind]
  cases frac (build.breatheCalc phase - build.breatheCalc 0)
    (build.breatheCalc 127 - build.breatheCalc 0) <;> rfl

theorem twinkleColor_isSome {delta : Byte} {rand : ℕ → ℕ → ℕ} {i : ℕ} {t : Twinkle} :
    (twinkleColor s delta rand i t).isSome ↔ (randomColor delta = true → 2 ≤ s.sat.toNat) := by
  unfold twinkleColor
  by_cases draws : randomColor delta = true
  · rw [if_pos draws]
    dsimp only
    rw [Option.isSome_map, mod_isSome]
    constructor
    · intro half _
      omega
    · intro saturated
      have least := saturated draws
      omega
  · rw [if_neg draws]
    exact ⟨fun _ same => absurd same draws, fun _ => rfl⟩

/-- The state of an LED before its round, with the colour that it is given. -/
theorem twinkleRound_isSome (sound : s.Sound) (delta : Byte) (rand : ℕ → ℕ → ℕ) (i : ℕ) :
    (twinkleRound s delta rand i).isSome ↔
      (s.pos ≠ 0 →
        ((s.twinkle i).life ≠ 0 → build.breatheCalc 127 ≠ build.breatheCalc 0) ∧
          ((s.twinkle i).life = 0 → selected s rand i = true → randomColor delta = true →
            2 ≤ s.sat.toNat)) := by
  unfold twinkleRound
  dsimp only
  have life : (if randomColor delta then s.twinkle i
      else { s.twinkle i with hue := s.hue, sat := s.sat }).life = (s.twinkle i).life := by
    split <;> rfl
  have maxLife : (if randomColor delta then s.twinkle i
      else { s.twinkle i with hue := s.hue, sat := s.sat }).maxLife = (s.twinkle i).maxLife := by
    split <;> rfl
  have alive := sound.alive i
  generalize (if randomColor delta then s.twinkle i
    else { s.twinkle i with hue := s.hue, sat := s.sat }) = t at life maxLife ⊢
  rw [← life] at alive ⊢
  rw [← maxLife] at alive
  by_cases restarts : s.pos = 0
  · rw [if_pos restarts]
    exact ⟨fun _ moved => absurd restarts moved, fun _ => rfl⟩
  · rw [if_neg restarts]
    by_cases dead : t.life = 0
    · rw [if_neg (not_not.mpr dead)]
      by_cases starts : selected s rand i = true
      · rw [if_pos starts, Option.isSome_map, twinkleColor_isSome]
        exact ⟨fun draws _ => ⟨fun lives => absurd dead lives, fun _ _ => draws⟩,
          fun both => (both restarts).2 dead starts⟩
      · rw [if_neg starts]
        exact ⟨fun _ _ => ⟨fun lives => absurd dead lives, fun _ same => absurd same starts⟩,
          fun _ => rfl⟩
    · have maxAlive := alive dead
      rw [if_pos dead, Option.isSome_map, twinkleVal_isSome (by exact maxAlive)]
      exact ⟨fun spread _ => ⟨fun _ => spread, fun same => absurd same dead⟩,
        fun both => (both restarts).1 dead⟩

theorem twinkleMaxLife_ne (s : State build) : twinkleMaxLife s ≠ 0 := by
  intro zero
  have small := s.val.isLt
  have same := congrArg BitVec.toNat zero
  rw [twinkleMaxLife, BitVec.toNat_ofNat] at same
  have none : (0 : Byte).toNat = 0 := rfl
  omega

/-- Whatever lives behind a round has a life to divide by. -/
theorem State.Sound.twinkleRound (sound : s.Sound) {delta : Byte} {rand : ℕ → ℕ → ℕ} {i : ℕ}
    {ended : Twinkle} (ends : twinkleRound s delta rand i = some ended) (lives : ended.life ≠ 0) :
    ended.maxLife ≠ 0 := by
  have alive := sound.alive i
  unfold Animation.twinkleRound at ends
  dsimp only at ends
  have maxLife : (if randomColor delta then s.twinkle i
      else { s.twinkle i with hue := s.hue, sat := s.sat }).maxLife = (s.twinkle i).maxLife := by
    split <;> rfl
  have life : (if randomColor delta then s.twinkle i
      else { s.twinkle i with hue := s.hue, sat := s.sat }).life = (s.twinkle i).life := by
    split <;> rfl
  generalize (if randomColor delta then s.twinkle i
    else { s.twinkle i with hue := s.hue, sat := s.sat }) = t at life maxLife ends
  rw [← life, ← maxLife] at alive
  split at ends
  · obtain rfl := Option.some.inj ends
    exact absurd rfl lives
  · split at ends
    · rename_i living
      obtain ⟨val, -, rfl⟩ := Option.map_eq_some_iff.mp ends
      exact alive living
    · split at ends
      · obtain ⟨color, -, rfl⟩ := Option.map_eq_some_iff.mp ends
        exact twinkleMaxLife_ne s
      · rename_i dead _
        obtain rfl := Option.some.inj ends
        exact absurd lives dead

theorem State.Sound.twinkle (sound : s.Sound) (delta : Byte) (rand : ℕ → ℕ → ℕ) :
    (¬ s.Twinkles delta rand ∧ rgblightEffectTwinkle s delta rand = none) ∨
      s.Twinkles delta rand ∧
        ∃ ended, rgblightEffectTwinkle s delta rand = some ended ∧ s.Draws ended := by
  have each : s.Twinkles delta rand ↔
      ∀ i < s.effectNumLeds.toNat, (Animation.twinkleRound s delta rand i).isSome := by
    constructor
    · intro twinkles i within
      exact (twinkleRound_isSome sound delta rand i).mpr fun moved => twinkles moved i within
    · intro all moved i within
      exact (twinkleRound_isSome sound delta rand i).mp (all i within) moved
  rw [each, ← counted_isSome]
  unfold rgblightEffectTwinkle
  cases rounds : counted s.effectNumLeds.toNat (Animation.twinkleRound s delta rand) with
  | none => exact .inl ⟨by simp, rfl⟩
  | some twinkles =>
    right
    refine ⟨rfl, _, rfl, rfl, rfl, rfl, fun i lives => ?_, sound.with_set fun write member => ?_⟩
    · have length := counted_length rounds
      by_cases within : i < s.effectNumLeds.toNat
      · have round := counted_getElem? rounds within
        have inside : i < twinkles.length := by omega
        simp only [List.getD_eq_getElem?_getD, List.getElem?_eq_getElem inside,
          Option.getD_some] at lives ⊢
        rw [List.getElem?_eq_getElem inside] at round
        exact sound.twinkleRound round.symm lives
      · have beyond : twinkles.length ≤ i := by omega
        simp only [List.getD_eq_getElem?_getD, List.getElem?_eq_none beyond,
          Option.getD_none] at lives ⊢
        exact sound.alive i lives
    · obtain ⟨i, within, rfl⟩ := List.mem_iff_getElem.mp member
      have length := counted_length rounds
      rw [List.length_mapIdx] at within
      exact ⟨i, by omega, by rw [List.getElem_mapIdx]⟩

/-- A step of an animation fails where it divides by zero, and else draws in its range. -/
theorem State.Sound.animate (sound : s.Sound) (delta : Byte) (rand : ℕ → ℕ → ℕ)
    (effect : Effect) :
    (¬ s.Divides delta rand effect ∧ animate s delta rand effect = none) ∨
      s.Divides delta rand effect ∧
        ∃ ended, animate s delta rand effect = some ended ∧ s.Draws ended := by
  have static : s.Draws { s with written := [] } :=
    ⟨rfl, rfl, rfl, sound.alive, fun write member => by cases member⟩
  cases effect with
  | staticLight => exact .inr ⟨trivial, _, rfl, static⟩
  | breathing => exact .inr ⟨trivial, _, rfl, sound.breathing⟩
  | rainbowMood => exact .inr ⟨trivial, _, rfl, sound.rainbowMood⟩
  | rainbowSwirl => exact .inr ⟨trivial, sound.rainbowSwirl delta⟩
  | snake => exact sound.snake delta
  | knight => exact sound.knight
  | christmas => exact .inr ⟨trivial, sound.christmas⟩
  | staticGradient => exact .inr ⟨trivial, _, rfl, static⟩
  | rgbTest => exact .inr ⟨trivial, _, rfl, sound.rgbtest⟩
  | alternating => exact .inr ⟨trivial, _, rfl, sound.alternating⟩
  | twinkle => exact sound.twinkle delta rand

end Effects

section Runs

/-- The state is sound, and the last call has written in its range. -/
def Sound : Option (State build) → Prop
  | some s => s.Sound ∧ ∀ write ∈ s.written, s.InRange write
  | none => False

theorem State.Sound.setEffectRange {s : State build} (sound : s.Sound) (startPos numLeds : Byte) :
    (rgblightSetEffectRange s startPos numLeds).Sound := by
  have small := build.rgbledNum.isLt
  unfold rgblightSetEffectRange
  split
  · exact sound
  · split
    · exact sound
    · rename_i within
      have sum : (startPos + numLeds).toNat = startPos.toNat + numLeds.toNat := by
        rw [BitVec.toNat_add]
        omega
      exact ⟨sum, by dsimp only; omega, sound.alive⟩

theorem State.Sound.draws {s ended : State build} (sound : s.Sound) (draws : s.Draws ended) :
    Animation.Sound (some ended) := by
  obtain ⟨start, stop, count, alive, written⟩ := draws
  refine ⟨⟨?_, ?_, alive⟩, fun write member => ?_⟩
  · rw [start, stop, count]
    exact sound.range
  · rw [stop]
    exact sound.inside
  · have range := written write member
    unfold State.InRange at range ⊢
    rw [start, stop]
    exact range

theorem step_sound (result : Option (State build)) (event : Event) (sound : Sound result)
    (allows : allowed result event) : Sound (step result event) := by
  cases result with
  | none => exact sound
  | some s =>
    obtain ⟨kept, -⟩ := sound
    have nothing : ∀ t : State build, ∀ write ∈ ([] : List Write), t.InRange write :=
      fun t write member => by cases member
    cases event with
    | setEffectRange startPos numLeds =>
      have ranged := kept.setEffectRange startPos numLeds
      exact ⟨⟨ranged.range, ranged.inside, ranged.alive⟩, nothing _⟩
    | configure enable hue sat val => exact ⟨⟨kept.range, kept.inside, kept.alive⟩, nothing _⟩
    | restart => exact ⟨⟨kept.range, kept.inside, kept.alive⟩, nothing _⟩
    | effect effect delta rand =>
      rcases kept.animate delta rand effect with ⟨fails, -⟩ | ⟨-, ended, ends, draws⟩
      · exact absurd allows fails
      · have same : step (some s) (.effect effect delta rand) = some ended := ends
        rw [same]
        exact kept.draws draws

theorem step_safe (result : Option (State build)) (event : Event) (sound : Sound result)
    (safe : Safe (step result event)) : allowed result event := by
  cases result with
  | none => exact sound.elim
  | some s =>
    cases event with
    | effect effect delta rand =>
      rcases sound.1.animate delta rand effect with ⟨-, fails⟩ | ⟨divides, -⟩
      · have stuck : step (some s) (.effect effect delta rand) = none := fails
        rw [stuck] at safe
        exact safe.elim
      · exact divides
    | _ => trivial

theorem sound_start (build : Build) : Sound (some ({} : State build)) :=
  ⟨⟨(Nat.zero_add _).symm, le_rfl, fun _ lives => absurd rfl lives⟩, fun _ member => by
    cases member⟩

end Runs

/-- Along every run, no animation divides by zero and every write stays in the effect range
exactly when each step of a snake, a knight or a twinkle meets its condition. -/
theorem animations_safe_iff (build : Build) (events : List Event) :
    (∀ cut, Safe (run step (some ({} : State build)) (events.take cut))) ↔
      Along step allowed (some ({} : State build)) events := by
  refine property_iff_along (fun result sound => ?_) step_sound step_safe (sound_start build)
    events
  cases result with
  | none => exact sound
  | some s => exact sound.2

/-- A strip of eight LEDs. -/
def strip : Build where
  rgbledNum := 8
  hsvToRgb hue sat val := ⟨hue, sat, val⟩
  twinkleChance := 257

/-- An empty range stops the snake on its way back, and a colour without saturation the
random twinkle. -/
theorem empty_range_and_grey_break :
    ¬ Safe (run step (some ({} : State strip))
        [.setEffectRange 0 0, .effect .snake 1 fun _ _ => 0]) ∧
      ¬ Safe (run step (some ({} : State strip))
        [.configure true 0 1 255, .effect .twinkle 3 fun _ _ => 0,
          .effect .twinkle 3 fun _ _ => 0]) := by
  constructor
  · rw [show run step (some ({} : State strip))
      [.setEffectRange 0 0, .effect .snake 1 fun _ _ => 0] = none from rfl]
    exact id
  · rw [show run step (some ({} : State strip))
      [.configure true 0 1 255, .effect .twinkle 3 fun _ _ => 0,
        .effect .twinkle 3 fun _ _ => 0] = none from rfl]
    exact id

end QmkSonix.Rgblight.Animation
