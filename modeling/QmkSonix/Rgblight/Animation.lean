import QmkSonix.Lib.Counted
import QmkSonix.Rgblight.Model

/-! The animations of `rgblight.c`, with the LEDs that they write. The layers and the driver
behind `rgblight_set` are left out. -/

namespace QmkSonix.Rgblight.Animation

open QmkSonix.Lib

/-- `LED_TYPE` -/
structure Rgb where
  r : Byte := 0
  g : Byte := 0
  b : Byte := 0
  deriving DecidableEq, Repr

/-- `rgblight_effect_breathe_table` -/
def rgblightEffectBreatheTable : List Byte :=
  [0x22, 0x23, 0x25, 0x26, 0x28, 0x29, 0x2A, 0x2C, 0x2D, 0x2F, 0x30, 0x32, 0x33, 0x35, 0x36, 0x38,
   0x3A, 0x3B, 0x3D, 0x3E, 0x40, 0x42, 0x43, 0x45, 0x47, 0x49, 0x4A, 0x4C, 0x4E, 0x50, 0x51, 0x53,
   0x55, 0x57, 0x59, 0x5A, 0x5C, 0x5E, 0x60, 0x62, 0x64, 0x66, 0x68, 0x69, 0x6B, 0x6D, 0x6F, 0x71,
   0x73, 0x75, 0x77, 0x79, 0x7B, 0x7D, 0x7F, 0x81, 0x83, 0x85, 0x87, 0x89, 0x8A, 0x8C, 0x8E, 0x90,
   0x92, 0x94, 0x96, 0x98, 0x9A, 0x9C, 0x9E, 0x9F, 0xA1, 0xA3, 0xA5, 0xA7, 0xA8, 0xAA, 0xAC, 0xAE,
   0xAF, 0xB1, 0xB3, 0xB4, 0xB6, 0xB8, 0xB9, 0xBB, 0xBC, 0xBE, 0xBF, 0xC1, 0xC2, 0xC3, 0xC5, 0xC6,
   0xC7, 0xC9, 0xCA, 0xCB, 0xCC, 0xCD, 0xCE, 0xD0, 0xD1, 0xD2, 0xD2, 0xD3, 0xD4, 0xD5, 0xD6, 0xD7,
   0xD7, 0xD8, 0xD9, 0xD9, 0xDA, 0xDA, 0xDB, 0xDB, 0xDB, 0xDC, 0xDC, 0xDC, 0xDC, 0xDC, 0xDD, 0xDD,
   0xDD, 0xDD, 0xDC, 0xDC, 0xDC, 0xDC, 0xDC, 0xDB, 0xDB, 0xDB, 0xDA, 0xDA, 0xD9, 0xD9, 0xD8, 0xD7,
   0xD7, 0xD6, 0xD5, 0xD4, 0xD3, 0xD2, 0xD2, 0xD1, 0xD0, 0xCE, 0xCD, 0xCC, 0xCB, 0xCA, 0xC9, 0xC7,
   0xC6, 0xC5, 0xC3, 0xC2, 0xC1, 0xBF, 0xBE, 0xBC, 0xBB, 0xB9, 0xB8, 0xB6, 0xB4, 0xB3, 0xB1, 0xAF,
   0xAE, 0xAC, 0xAA, 0xA8, 0xA7, 0xA5, 0xA3, 0xA1, 0x9F, 0x9E, 0x9C, 0x9A, 0x98, 0x96, 0x94, 0x92,
   0x90, 0x8E, 0x8C, 0x8A, 0x89, 0x87, 0x85, 0x83, 0x81, 0x7F, 0x7D, 0x7B, 0x79, 0x77, 0x75, 0x73,
   0x71, 0x6F, 0x6D, 0x6B, 0x69, 0x68, 0x66, 0x64, 0x62, 0x60, 0x5E, 0x5C, 0x5A, 0x59, 0x57, 0x55,
   0x53, 0x51, 0x50, 0x4E, 0x4C, 0x4A, 0x49, 0x47, 0x45, 0x43, 0x42, 0x40, 0x3E, 0x3D, 0x3B, 0x3A,
   0x38, 0x36, 0x35, 0x33, 0x32, 0x30, 0x2F, 0x2D, 0x2C, 0x2A, 0x29, 0x28, 0x26, 0x25, 0x23, 0x22]

/-- The build options of the animations. -/
structure Build where
  /-- `RGBLED_NUM`, which the ranges hold in a byte -/
  rgbledNum : Byte
  limitVal : Byte := 255
  /-- `rgblight_hsv_to_rgb` -/
  hsvToRgb : Byte → Byte → Byte → Rgb
  /-- `RGBLIGHT_SPLIT` without `RGBLIGHT_SPLIT_NO_ANIMATION_SYNC` -/
  animationSync : Bool := false
  /-- `breathe_calc`, from the table or in floating point -/
  breatheCalc : Byte → Byte := fun pos => rgblightEffectBreatheTable.getD pos.toNat 0
  rainbowSwirlRange : ℕ := 255
  snakeLength : Byte := 4
  knightLength : Byte := 3
  knightOffset : ℕ := 0
  /-- `RGBLIGHT_EFFECT_KNIGHT_LED_NUM`, where it is not the size of the effect range -/
  knightLedNum : Option Byte := none
  christmasStep : ℕ+ := 2
  twinkleLife : ℕ := 200
  /-- `(uint16_t)RAND_MAX * RGBLIGHT_EFFECT_TWINKLE_PROBABILITY` -/
  twinkleChance : BitVec 16

/-- `TwinkleState` -/
structure Twinkle where
  hue : Byte := 0
  sat : Byte := 0
  val : Byte := 0
  life : Byte := 0
  maxLife : Byte := 0
  deriving DecidableEq, Repr

/-- A write to `led[index]`. -/
structure Write where
  index : ℕ
  rgb : Rgb
  deriving DecidableEq, Repr

/-- The effect range, the settings that animations read, their statics, and the writes of
the last call. `pos` and `current_hue` of `animation_status` share their storage. -/
structure State (build : Build) where
  effectStartPos : Byte := 0
  effectEndPos : Byte := build.rgbledNum
  effectNumLeds : Byte := build.rgbledNum
  enable : Bool := true
  hue : Byte := 0
  sat : Byte := 255
  val : Byte := 255
  pos : Byte := 0
  snakePos : Byte := 0
  lowBound : Byte := 0
  highBound : Byte := build.knightLength - 1
  knightIncrement : Int := 1
  christmasIncrement : Int := 1
  maxval : Byte := 0
  twinkle : ℕ → Twinkle := fun _ => {}
  written : List Write := []

/-- Unsigned division, which must not be by zero. -/
def div (n d : ℕ) : Option ℕ := if d = 0 then none else some (n / d)

/-- The remainder of an unsigned division. -/
def mod (n d : ℕ) : Option ℕ := if d = 0 then none else some (n % d)

section Functions

variable {build : Build} (s : State build)

/-- `rgblight_set_effect_range` -/
def rgblightSetEffectRange (startPos numLeds : Byte) : State build :=
  if build.rgbledNum.toNat ≤ startPos.toNat then s
  else if build.rgbledNum.toNat < startPos.toNat + numLeds.toNat then s
  else
    { s with
      effectStartPos := startPos
      effectEndPos := startPos + numLeds
      effectNumLeds := numLeds }

/-- `sethsv` -/
def sethsv (build : Build) (hue sat val : Byte) : Rgb :=
  build.hsvToRgb hue sat (if build.limitVal < val then build.limitVal else val)

/-- The loop from `effect_start_pos` to `effect_end_pos` that gives each LED one colour. -/
def fill (rgb : Rgb) : List Write :=
  (List.range' s.effectStartPos.toNat (s.effectEndPos.toNat - s.effectStartPos.toNat)).map
    fun i => ⟨i, rgb⟩

/-- `rgblight_set` -/
def rgblightSet : List Write := if s.enable then [] else fill s {}

/-- `rgblight_setrgb` -/
def rgblightSetrgb (rgb : Rgb) : List Write :=
  if s.enable then fill s rgb ++ rgblightSet s else []

/-- `rgblight_sethsv_noeeprom_old` -/
def rgblightSethsvNoeepromOld (hue sat val : Byte) : List Write :=
  if s.enable then rgblightSetrgb s (sethsv build hue sat val) else []

/-- `rgblight_effect_breathing` -/
def rgblightEffectBreathing : State build :=
  { s with
    written := rgblightSethsvNoeepromOld s s.hue s.sat (build.breatheCalc s.pos)
    pos := s.pos + 1 }

/-- `rgblight_effect_rainbow_mood` -/
def rgblightEffectRainbowMood : State build :=
  { s with
    written := rgblightSethsvNoeepromOld s s.pos s.sat s.val
    pos := s.pos + 1 }

/-- A round of the loop of `rgblight_effect_rainbow_swirl`. -/
def rainbowSwirlRound (i : ℕ) : Option Write := do
  let step ← div build.rainbowSwirlRange s.effectNumLeds.toNat
  let hue := BitVec.ofNat 8 (step * i) + s.pos
  return ⟨i + s.effectStartPos.toNat, sethsv build hue s.sat s.val⟩

/-- `rgblight_effect_rainbow_swirl` -/
def rgblightEffectRainbowSwirl (delta : Byte) : Option (State build) := do
  let writes ← counted s.effectNumLeds.toNat (rainbowSwirlRound s)
  return { s with
    written := writes ++ rgblightSet s
    pos := if delta.toNat % 2 = 1 then s.pos + 1 else s.pos - 1 }

/-- The `int8_t` increment of the snake. -/
def snakeIncrement (delta : Byte) : Int := if delta.toNat % 2 = 1 then -1 else 1

/-- The restart signal of `rgblight_effect_snake`. -/
def snakeRestart (delta : Byte) : State build :=
  if build.animationSync ∧ s.pos = 0 then
    { s with
      snakePos := if snakeIncrement delta = 1 then s.effectNumLeds - 1 else 0
      pos := 1 }
  else s

/-- `k % RGBLED_NUM`, where the place `k` of the snake is beyond the LEDs -/
def snakeWrap (build : Build) (k : Int) : Option Int :=
  if (build.rgbledNum.toNat : Int) < k then
    (mod k.toNat build.rgbledNum.toNat).map fun rest => (BitVec.ofNat 8 rest).toInt
  else some k

/-- The writes of the snake's part `j` to the LED `i` of the range. -/
def snakePart (delta : Byte) (i j : ℕ) : Option (List Write) := do
  let k ← snakeWrap build (BitVec.ofInt 8 (s.snakePos.toNat + j * snakeIncrement delta)).toInt
  let k := if k < 0 then (BitVec.ofInt 8 (k + s.effectNumLeds.toNat)).toInt else k
  if (i : Int) = k then
    let val ← div (s.val.toNat * (build.snakeLength.toNat - j)) build.snakeLength.toNat
    return [⟨i + s.effectStartPos.toNat, sethsv build s.hue s.sat (BitVec.ofNat 8 val)⟩]
  else return []

/-- A round of the loop of `rgblight_effect_snake`. -/
def snakeRound (delta : Byte) (i : ℕ) : Option (List Write) := do
  let parts ← counted build.snakeLength.toNat (snakePart s delta i)
  return ⟨i + s.effectStartPos.toNat, {}⟩ :: parts.flatten

/-- The last part of `rgblight_effect_snake`, which moves the snake. -/
def snakeMove (delta : Byte) : Option (State build) :=
  if snakeIncrement delta = 1 then
    if s.snakePos = 0 then
      some { s with
        snakePos := s.effectNumLeds - 1
        pos := if build.animationSync then 0 else s.pos }
    else
      some { s with
        snakePos := s.snakePos - 1
        pos := if build.animationSync then 1 else s.pos }
  else do
    let next ← mod (s.snakePos.toNat + 1) s.effectNumLeds.toNat
    return { s with
      snakePos := BitVec.ofNat 8 next
      pos := if build.animationSync then BitVec.ofNat 8 next else s.pos }

/-- `rgblight_effect_snake` -/
def rgblightEffectSnake (delta : Byte) : Option (State build) := do
  let s := snakeRestart s delta
  let writes ← counted s.effectNumLeds.toNat (snakeRound s delta)
  snakeMove { s with written := writes.flatten ++ rgblightSet s } delta

/-- The restart signal of `rgblight_effect_knight`. -/
def knightRestart : State build :=
  if build.animationSync ∧ s.pos = 0 then
    { s with
      pos := 1
      lowBound := 0
      highBound := build.knightLength - 1
      knightIncrement := 1 }
  else s

/-- `RGBLIGHT_EFFECT_KNIGHT_LED_NUM` -/
def knightLedNum : Byte := build.knightLedNum.getD s.effectNumLeds

/-- A round of the second loop of `rgblight_effect_knight`. -/
def knightRound (i : ℕ) : Option Write := do
  let place ← mod (i + build.knightOffset) s.effectNumLeds.toNat
  let cur := BitVec.ofNat 8 (place + s.effectStartPos.toNat)
  let lit := s.lowBound.toInt ≤ i ∧ (i : Int) ≤ s.highBound.toInt
  return ⟨cur.toNat, if lit then sethsv build s.hue s.sat s.val else {}⟩

/-- The last part of `rgblight_effect_knight`, which moves the bounds. -/
def knightMove : State build :=
  let low := s.lowBound + BitVec.ofInt 8 s.knightIncrement
  let high := s.highBound + BitVec.ofInt 8 s.knightIncrement
  let turns := high.toInt ≤ 0 ∨ ((knightLedNum s).toNat : Int) - 1 ≤ low.toInt
  { s with
    lowBound := low
    highBound := high
    knightIncrement := if turns then -s.knightIncrement else s.knightIncrement
    pos := if turns ∧ build.animationSync ∧ -s.knightIncrement = 1 then 0 else s.pos }

/-- `rgblight_effect_knight` -/
def rgblightEffectKnight : Option (State build) := do
  let s := knightRestart s
  let writes ← counted (knightLedNum s).toNat (knightRound s)
  return knightMove { s with written := fill s {} ++ writes ++ rgblightSet s }

/-- `CUBED` -/
def cubed (x : BitVec 32) : BitVec 32 := x * x * x

/-- `rgblight_effect_christmas` -/
def rgblightEffectChristmas : Option (State build) := do
  let xa := cubed (s.pos.setWidth 32)
  let hue ← div (85 * xa).toNat (xa + cubed (32 - s.pos.setWidth 32)).toNat
  let hue := BitVec.ofNat 8 hue
  let near : Int := if hue.toNat < 42 then hue.toNat else 85 - hue.toNat
  let val := BitVec.ofInt 8 (255 - (3 * near).tdiv 2)
  let writes := (List.range s.effectNumLeds.toNat).map fun i =>
    let localHue := if i / (build.christmasStep : ℕ) % 2 = 1 then hue else 85 - hue
    ⟨i + s.effectStartPos.toNat, sethsv build localHue s.sat val⟩
  let increment := if s.pos = 0 then 1 else if s.pos = 32 then -1 else s.christmasIncrement
  return { s with
    written := writes ++ rgblightSet s
    christmasIncrement := increment
    pos := s.pos + BitVec.ofInt 8 increment }

/-- `rgblight_effect_rgbtest` -/
def rgblightEffectRgbtest : State build :=
  let maxval := if s.maxval = 0 then (sethsv build 0 255 build.limitVal).r else s.maxval
  let rgb : Rgb :=
    { r := if s.pos = 0 then maxval else 0
      g := if s.pos = 1 then maxval else 0
      b := if s.pos = 2 then maxval else 0 }
  { s with
    maxval := maxval
    written := rgblightSetrgb s rgb
    pos := BitVec.ofNat 8 ((s.pos.toNat + 1) % 3) }

/-- `rgblight_effect_alternating` -/
def rgblightEffectAlternating : State build :=
  let writes := (List.range s.effectNumLeds.toNat).map fun i =>
    let half := s.effectNumLeds.toNat / 2
    let lit := (i < half ∧ s.pos ≠ 0) ∨ (half ≤ i ∧ s.pos = 0)
    ⟨i + s.effectStartPos.toNat, sethsv build s.hue s.sat (if lit then s.val else 0)⟩
  { s with
    written := writes ++ rgblightSet s
    pos := BitVec.ofNat 8 ((s.pos.toNat + 1) % 2) }

/-- `frac` of `rgblight_effect_twinkle` -/
def frac (n d : Byte) : Option Byte := (div (255 * n.toNat) d.toNat).map (BitVec.ofNat 8)

/-- `scale` of `rgblight_effect_twinkle` -/
def scale (v : BitVec 16) (scale : Byte) : Byte := BitVec.ofNat 8 (v.toNat * scale.toNat / 256)

/-- `random_color` of `rgblight_effect_twinkle` -/
def randomColor (delta : Byte) : Bool := delta.toNat / 3 ≠ 0

/-- The LED is selected to start brightening when the first draw for it is small. -/
def selected (rand : ℕ → ℕ → ℕ) (i : ℕ) : Bool :=
  rand i 0 < (scale build.twinkleChance (127 + BitVec.ofNat 8 (s.val.toNat / 2))).toNat

/-- The value of an LED that lives. -/
def twinkleVal (t : Twinkle) : Option Byte := do
  let bottom := build.breatheCalc 0
  let top := build.breatheCalc 127
  let phase ← frac t.life t.maxLife
  let unscaled ← frac (build.breatheCalc phase - bottom) (top - bottom)
  return scale (s.val.setWidth 16) unscaled

/-- The colour that a selected LED starts with. -/
def twinkleColor (delta : Byte) (rand : ℕ → ℕ → ℕ) (i : ℕ) (t : Twinkle) : Option Twinkle :=
  if randomColor delta then
    let half := s.sat.toNat / 2
    (mod (rand i 2) half).map fun rest =>
      { t with hue := BitVec.ofNat 8 (rand i 1 % 255), sat := BitVec.ofNat 8 (rest + half) }
  else some t

/-- The new `max_life` of a selected LED. -/
def twinkleMaxLife : Byte := BitVec.ofNat 8 (max 20 (min build.twinkleLife s.val.toNat))

/-- A round of the loop of `rgblight_effect_twinkle`, which reads and writes the state of
one LED and draws at most three numbers for it. -/
def twinkleRound (delta : Byte) (rand : ℕ → ℕ → ℕ) (i : ℕ) : Option Twinkle :=
  let t := s.twinkle i
  let t := if randomColor delta then t else { t with hue := s.hue, sat := s.sat }
  if s.pos = 0 then some { t with life := 0, val := 0 }
  else if t.life ≠ 0 then
    let t := { t with life := t.life - 1 }
    (twinkleVal s t).map fun val => { t with val }
  else if selected s rand i then
    (twinkleColor s delta rand i t).map fun t =>
      { t with val := 0, maxLife := twinkleMaxLife s, life := twinkleMaxLife s }
  else some t

/-- `rgblight_effect_twinkle` -/
def rgblightEffectTwinkle (delta : Byte) (rand : ℕ → ℕ → ℕ) : Option (State build) := do
  let twinkles ← counted s.effectNumLeds.toNat (twinkleRound s delta rand)
  let writes := twinkles.mapIdx fun i t =>
    ⟨i + s.effectStartPos.toNat, sethsv build t.hue t.sat t.val⟩
  return { s with
    pos := 1
    twinkle := fun i => twinkles.getD i (s.twinkle i)
    written := writes ++ rgblightSet s }

end Functions

/-- What happens between and at the steps of an animation: `rgblight_task` runs the step of
an effect for the `delta` of a mode and the draws of `rand`, or restarts it. -/
inductive Event where
  | setEffectRange (startPos numLeds : Byte)
  | configure (enable : Bool) (hue sat val : Byte)
  | restart
  | effect (effect : Effect) (delta : Byte) (rand : ℕ → ℕ → ℕ)

/-- The step of an animation. Static modes have none. -/
def animate {build : Build} (s : State build) (delta : Byte) (rand : ℕ → ℕ → ℕ) :
    Effect → Option (State build)
  | .breathing => some (rgblightEffectBreathing s)
  | .rainbowMood => some (rgblightEffectRainbowMood s)
  | .rainbowSwirl => rgblightEffectRainbowSwirl s delta
  | .snake => rgblightEffectSnake s delta
  | .knight => rgblightEffectKnight s
  | .christmas => rgblightEffectChristmas s
  | .rgbTest => some (rgblightEffectRgbtest s)
  | .alternating => some (rgblightEffectAlternating s)
  | .twinkle => rgblightEffectTwinkle s delta rand
  | .staticLight | .staticGradient => some { s with written := [] }

/-- The state behind an event, while nothing has been divided by zero. -/
def step {build : Build} (result : Option (State build)) (event : Event) :
    Option (State build) := do
  let s ← result
  match event with
  | .setEffectRange startPos numLeds =>
    return { rgblightSetEffectRange s startPos numLeds with written := [] }
  | .configure enable hue sat val => return { s with enable, hue, sat, val, written := [] }
  | .restart => return { s with pos := 0, written := [] }
  | .effect effect delta rand => animate s delta rand effect

end QmkSonix.Rgblight.Animation
