import Mathlib
import QmkSonix.Lib.Run

/-! Mouse keys: `mousekey.c` with its accelerated implementation and the one of
`MK_3_SPEED`. -/

namespace QmkSonix.Mousekey

abbrev Byte := BitVec 8

/-- The axes of a mouse report. -/
inductive Axis where
  | x | y | v | h
  deriving DecidableEq, Repr

/-- The axes of the cursor, and those of the wheel. -/
inductive Pair where
  | cursor | wheel
  deriving DecidableEq, Repr

def Pair.first : Pair → Axis
  | cursor => .x
  | wheel => .v

def Pair.second : Pair → Axis
  | cursor => .y
  | wheel => .h

def Axis.pair : Axis → Pair
  | x | y => .cursor
  | v | h => .wheel

/-- The direction keys. -/
inductive Direction where
  | up | down | left | right | wheelUp | wheelDown | wheelLeft | wheelRight
  deriving DecidableEq, Repr

namespace Direction

/-- The axis that a key moves. -/
def axis : Direction → Axis
  | up | down => .y
  | left | right => .x
  | wheelUp | wheelDown => .v
  | wheelLeft | wheelRight => .h

/-- Whether it does so upwards. -/
def positive : Direction → Bool
  | up | left | wheelDown | wheelLeft => false
  | down | right | wheelUp | wheelRight => true

/-- `KC_MS_UP` to `KC_MS_RIGHT` and `KC_MS_WH_UP` to `KC_MS_WH_RIGHT` -/
def code (viaEnable : Bool) : Direction → Byte
  | up => if viaEnable then 0xF0 else 0xED
  | down => if viaEnable then 0xF1 else 0xEE
  | left => if viaEnable then 0xF2 else 0xEF
  | right => if viaEnable then 0xF3 else 0xF0
  | wheelUp => 0xF9
  | wheelDown => 0xFA
  | wheelLeft => 0xFB
  | wheelRight => 0xFC

def all : List Direction := [up, down, left, right, wheelUp, wheelDown, wheelLeft, wheelRight]

/-- The direction key with a code. -/
def ofCode (viaEnable : Bool) (code : Byte) : Option Direction :=
  all.find? fun direction => direction.code viaEnable = code

end Direction

/-- `KC_MS_BTN1` -/
def kcMsBtn1 (viaEnable : Bool) : Byte := if viaEnable then 0xF4 else 0xF1

/-- `KC_MS_BTN8` -/
def kcMsBtn8 : Byte := 0xF8

/-- `KC_MS_ACCEL0` to `KC_MS_ACCEL2` -/
def kcMsAccel (number : Fin 3) : Byte := 0xFD + number.val

/-- `IS_MOUSEKEY_BUTTON` -/
def isMousekeyButton (viaEnable : Bool) (code : Byte) : Prop :=
  kcMsBtn1 viaEnable ≤ code ∧ code ≤ kcMsBtn8

instance (viaEnable : Bool) (code : Byte) : Decidable (isMousekeyButton viaEnable code) :=
  inferInstanceAs (Decidable (_ ∧ _))

/-- The number of an acceleration key. -/
def accelOf (code : Byte) : Option (Fin 3) := (List.finRange 3).find? fun n => kcMsAccel n = code

/-- `report_mouse_t` -/
structure Report where
  buttons : Byte := 0
  motion : Axis → Byte := fun _ => 0

namespace Report

/-- One of the two axes is not 0. -/
def moves (report : Report) (pair : Pair) : Prop :=
  report.motion pair.first ≠ 0 ∨ report.motion pair.second ≠ 0

instance (report : Report) (pair : Pair) : Decidable (report.moves pair) :=
  inferInstanceAs (Decidable (_ ∨ _))

def setMotion (report : Report) (axis : Axis) (motion : Byte) : Report :=
  { report with motion := Function.update report.motion axis motion }

/-- `buttons |= 1 << (code - KC_MS_BTN1)` -/
def pressButton (report : Report) (viaEnable : Bool) (code : Byte) : Report :=
  { report with buttons := report.buttons ||| (1 : Byte) <<< (code - kcMsBtn1 viaEnable).toNat }

/-- `buttons &= ~(1 << (code - KC_MS_BTN1))` -/
def releaseButton (report : Report) (viaEnable : Bool) (code : Byte) : Report :=
  { report with buttons := report.buttons &&& ~~~((1 : Byte) <<< (code - kcMsBtn1 viaEnable).toNat) }

/-- The branches of `mousekey_off` for direction keys. -/
def releaseDirection (report : Report) (direction : Direction) : Report :=
  let motion := (report.motion direction.axis).toInt
  if (if direction.positive then 0 < motion else motion < 0) then
    report.setMotion direction.axis 0
  else report

end Report

/-- A unit or its negative, as an `int8_t`. -/
def along (positive : Bool) (unit : Nat) : Byte :=
  BitVec.ofInt 8 (if positive then unit else unit * -1)

/-- `times_inv_sqrt2` -/
def timesInvSqrt2 (x : Byte) : Byte := BitVec.ofInt 8 ((x.toInt * 181) >>> (8 : Nat))

/-- What both implementations share of the statics, and the reports sent so far. -/
structure Core where
  mouseReport : Report := {}
  mousekeyAccel : Byte := 0
  /-- `mousekey_repeat` and `mousekey_wheel_repeat` -/
  mousekeyRepeat : Pair → Byte := fun _ => 0
  /-- `last_timer_c` and `last_timer_w` -/
  lastTimer : Pair → BitVec 16 := fun _ => 0
  sent : List Report := []

/-- `mousekey_send` -/
def mousekeySend (s : Core) (now : BitVec 16) : Core :=
  { s with
    lastTimer := fun pair => if s.mouseReport.moves pair then now else s.lastTimer pair
    sent := s.sent ++ [s.mouseReport] }

/-- `mousekey_clear` -/
def mousekeyClear (s : Core) : Core :=
  { s with mouseReport := {}, mousekeyRepeat := fun _ => 0, mousekeyAccel := 0 }

/-- The places of a call at which the timer is read. -/
inductive Reading where
  | started
  | due (pair : Pair)
  | unit (axis : Axis)
  | sent

namespace Accelerated

/-- `MOUSEKEY_MOVE_DELTA`, `mk_max_speed`, `mk_time_to_max` and `MOUSEKEY_MOVE_MAX`, or
those of the wheel. -/
structure Ramp where
  delta : Nat
  maxSpeed : Byte
  timeToMax : Byte
  max : Nat

namespace Ramp

variable (ramp : Ramp)

def steady : Nat := ramp.delta * ramp.maxSpeed.toNat

/-- The branches of a unit function for when no acceleration key is down. -/
def ramped (count : Byte) : Nat :=
  if count = 0 then ramp.delta
  else if ramp.timeToMax ≤ count then ramp.steady
  else ramp.steady * count.toNat / ramp.timeToMax.toNat

/-- The end of a unit function, whose `unit` is a `uint16_t`. -/
def limit (unit : Nat) : Byte :=
  let unit := unit % 65536
  BitVec.ofNat 8 (if ramp.max < unit then ramp.max else if unit = 0 then 1 else unit)

/-- `move_unit` and `wheel_unit` without `MK_COMBINED` -/
def plainUnit (accel count : Byte) : Byte :=
  ramp.limit <|
    if accel.getLsbD 0 then ramp.steady / 4
    else if accel.getLsbD 1 then ramp.steady / 2
    else if accel.getLsbD 2 then ramp.steady
    else ramp.ramped count

/-- `move_unit` and `wheel_unit` with `MK_COMBINED` -/
def combinedUnit (accel count : Byte) : Byte :=
  ramp.limit <|
    if accel.getLsbD 0 then 1
    else if accel.getLsbD 1 then ramp.steady / 2
    else if accel.getLsbD 2 then ramp.max
    else ramp.ramped count

end Ramp

/-- What `MK_KINETIC_SPEED` computes with floats, from `mousekey_accel`, `mousekey_repeat`,
`mouse_timer` and the timer: the speed converted to a byte, the next `mk_wheel_interval`,
and whether an elapsed time exceeds one. -/
structure Kinetic (Interval : Type) where
  speed : Byte → Byte → BitVec 16 → BitVec 16 → Byte
  wheelInterval : Byte → Byte → BitVec 16 → BitVec 16 → Interval → Interval
  exceeds : BitVec 16 → Interval → Bool

/-- A build, with the parameters of its ramps, `mk_interval`s and `mk_delay`s. -/
structure Config (Interval : Type) where
  viaEnable : Bool := false
  combined : Bool := false
  kinetic : Option (Kinetic Interval) := none
  ramp : Pair → Ramp
  mkInterval : Pair → Byte
  mkDelay : Pair → Byte

structure State (Interval : Type) extends Core where
  mouseTimer : BitVec 16 := 0
  mkWheelInterval : Interval

section Functions

variable {Interval : Type} (cfg : Config Interval)

/-- The kinetic unit functions are those of `MK_COMBINED`. -/
def Config.floats : Option (Kinetic Interval) := if cfg.combined then cfg.kinetic else none

/-- The end of the kinetic `move_unit`. -/
def limitSpeed (max : Nat) (speed : Byte) : Byte :=
  let speed := if speed < 1 then 1 else speed
  if max < speed.toNat then BitVec.ofNat 8 max else speed

/-- `move_unit` and `wheel_unit` -/
def unit (s : State Interval) (pair : Pair) (now : BitVec 16) : Byte × State Interval :=
  match cfg.floats, pair with
  | some kinetic, .cursor =>
    (limitSpeed (cfg.ramp .cursor).max
      (kinetic.speed s.mousekeyAccel (s.mousekeyRepeat .cursor) s.mouseTimer now), s)
  | some kinetic, .wheel =>
    let interval := kinetic.wheelInterval s.mousekeyAccel (s.mousekeyRepeat .cursor) s.mouseTimer now
      s.mkWheelInterval
    (1, { s with mkWheelInterval := interval })
  | none, pair =>
    if cfg.combined then
      ((cfg.ramp pair).combinedUnit s.mousekeyAccel (s.mousekeyRepeat .cursor), s)
    else ((cfg.ramp pair).plainUnit s.mousekeyAccel (s.mousekeyRepeat pair), s)

/-- `timer_elapsed(last_timer) > (repeat ? interval : delay * 10)` -/
def due (s : State Interval) (pair : Pair) (now : BitVec 16) : Bool :=
  let elapsed := now - s.lastTimer pair
  if s.mousekeyRepeat pair = 0 then (cfg.mkDelay pair).toNat * 10 < elapsed.toNat
  else match cfg.floats, pair with
    | some kinetic, .wheel => kinetic.exceeds elapsed s.mkWheelInterval
    | _, _ => (cfg.mkInterval pair).toNat < elapsed.toNat

/-- `if (tmpmr.x != 0) mouse_report.x = move_unit() * ((tmpmr.x > 0) ? 1 : -1)` -/
def repeatAxis (tmpmr : Report) (clock : Reading → BitVec 16) (s : State Interval) (pair : Pair)
    (axis : Axis) : State Interval :=
  if tmpmr.motion axis ≠ 0 then
    let (moved, s) := unit cfg s pair (clock (.unit axis))
    let motion := along (0 < (tmpmr.motion axis).toInt) moved.toNat
    { s with mouseReport := s.mouseReport.setMotion axis motion }
  else s

/-- An axis of a diagonal move. -/
def slant (motion : Byte) : Byte := if timesInvSqrt2 motion = 0 then 1 else timesInvSqrt2 motion

/-- "diagonal move" -/
def diagonal (report : Report) (pair : Pair) : Report :=
  if report.motion pair.first ≠ 0 ∧ report.motion pair.second ≠ 0 then
    (report.setMotion pair.first (slant (report.motion pair.first))).setMotion pair.second
      (slant (report.motion pair.second))
  else report

/-- What `mousekey_task` does for one pair of axes. -/
def repeatPair (tmpmr : Report) (clock : Reading → BitVec 16) (s : State Interval) (pair : Pair) :
    State Interval :=
  if tmpmr.moves pair ∧ due cfg s pair (clock (.due pair)) then
    let count := s.mousekeyRepeat pair
    let count := if count ≠ 0xFF then count + 1 else count
    let s := { s with mousekeyRepeat := Function.update s.mousekeyRepeat pair count }
    let s := repeatAxis cfg tmpmr clock s pair pair.first
    let s := repeatAxis cfg tmpmr clock s pair pair.second
    { s with mouseReport := diagonal s.mouseReport pair }
  else s

/-- `mousekey_task` -/
def mousekeyTask (s : State Interval) (clock : Reading → BitVec 16) : State Interval :=
  let tmpmr := s.mouseReport
  let s := { s with mouseReport := { tmpmr with motion := fun _ => 0 } }
  let s := repeatPair cfg tmpmr clock s .cursor
  let s := repeatPair cfg tmpmr clock s .wheel
  let s := if s.mouseReport.moves .cursor ∨ s.mouseReport.moves .wheel then
    { s with toCore := mousekeySend s.toCore (clock .sent) } else s
  { s with mouseReport := tmpmr }

/-- `mousekey_on` -/
def mousekeyOn (s : State Interval) (code : Byte) (clock : Reading → BitVec 16) :
    State Interval :=
  let s := if cfg.kinetic.isSome ∧ s.mouseTimer = 0 then { s with mouseTimer := clock .started }
    else s
  match Direction.ofCode cfg.viaEnable code with
  | some direction =>
    let (moved, s) := unit cfg s direction.axis.pair (clock (.unit direction.axis))
    let motion := along direction.positive moved.toNat
    { s with mouseReport := s.mouseReport.setMotion direction.axis motion }
  | none =>
    if isMousekeyButton cfg.viaEnable code then
      { s with mouseReport := s.mouseReport.pressButton cfg.viaEnable code }
    else match accelOf code with
      | some number => { s with mousekeyAccel := s.mousekeyAccel ||| (1 : Byte) <<< number.val }
      | none => s

/-- The end of `mousekey_off`. -/
def resetRepeats (s : State Interval) : State Interval :=
  { s with
    mousekeyRepeat := fun pair => if s.mouseReport.moves pair then s.mousekeyRepeat pair else 0
    mouseTimer := if cfg.kinetic.isSome ∧ ¬s.mouseReport.moves .cursor then 0 else s.mouseTimer }

/-- `mousekey_off` -/
def mousekeyOff (s : State Interval) (code : Byte) : State Interval :=
  resetRepeats cfg <|
    match Direction.ofCode cfg.viaEnable code with
    | some direction => { s with mouseReport := s.mouseReport.releaseDirection direction }
    | none =>
      if isMousekeyButton cfg.viaEnable code then
        { s with mouseReport := s.mouseReport.releaseButton cfg.viaEnable code }
      else match accelOf code with
        | some number =>
          { s with mousekeyAccel := s.mousekeyAccel &&& ~~~((1 : Byte) <<< number.val) }
        | none => s

end Functions

end Accelerated

namespace ThreeSpeed

/-- `mkspd_unmod`, `mkspd_0`, `mkspd_1`, `mkspd_2` -/
inductive Speed where
  | unmod
  | speed (number : Fin 3)
  deriving DecidableEq, Repr

/-- A build, with `c_offsets` and `w_offsets` and the intervals beside them. -/
structure Config where
  viaEnable : Bool := false
  momentaryAccel : Bool := false
  offsets : Pair → Speed → BitVec 16
  intervals : Pair → Speed → BitVec 16

structure State extends Core where
  mkSpeed : Speed

section Functions

variable (cfg : Config)

/-- The initial `mk_speed`. -/
def Config.initialSpeed : Speed := if cfg.momentaryAccel then .unmod else .speed 1

/-- What `mousekey_task` does for one pair of axes. -/
def repeatPair (tmpmr : Report) (clock : Reading → BitVec 16) (s : State) (pair : Pair) : State :=
  if tmpmr.moves pair ∧ cfg.intervals pair s.mkSpeed < clock (.due pair) - s.lastTimer pair then
    let report := s.mouseReport.setMotion pair.first (tmpmr.motion pair.first)
    { s with mouseReport := report.setMotion pair.second (tmpmr.motion pair.second) }
  else s

/-- `mousekey_task` -/
def mousekeyTask (s : State) (clock : Reading → BitVec 16) : State :=
  let tmpmr := s.mouseReport
  let s := { s with mouseReport := { tmpmr with motion := fun _ => 0 } }
  let s := repeatPair cfg tmpmr clock s .cursor
  let s := repeatPair cfg tmpmr clock s .wheel
  let s := if s.mouseReport.moves .cursor ∨ s.mouseReport.moves .wheel then
    { s with toCore := mousekeySend s.toCore (clock .sent) } else s
  { s with mouseReport := tmpmr }

/-- `if (x > 0) x = offset; if (x < 0) x = offset * -1;` -/
def adjust (offset : BitVec 16) (motion : Byte) : Byte :=
  let motion := if 0 < motion.toInt then along true offset.toNat else motion
  if motion.toInt < 0 then along false offset.toNat else motion

/-- "adjust for diagonals": only the cursor's axes are kept from becoming 0. -/
def diagonal (report : Report) (pair : Pair) : Report :=
  if report.motion pair.first ≠ 0 ∧ report.motion pair.second ≠ 0 then
    let slant := match pair with
      | .cursor => Accelerated.slant
      | .wheel => timesInvSqrt2
    (report.setMotion pair.first (slant (report.motion pair.first))).setMotion pair.second
      (slant (report.motion pair.second))
  else report

/-- `adjust_speed` -/
def adjustSpeed (s : State) : State :=
  let motion axis := adjust (cfg.offsets axis.pair s.mkSpeed) (s.mouseReport.motion axis)
  let adjusted : Report := { s.mouseReport with motion }
  { s with mouseReport := diagonal (diagonal adjusted .cursor) .wheel }

/-- `mk_speed = speed`, and `adjust_speed` where that is another one. -/
def changeSpeed (s : State) (speed : Speed) : State :=
  if speed ≠ s.mkSpeed then adjustSpeed cfg { s with mkSpeed := speed } else s

/-- `mousekey_on` -/
def mousekeyOn (s : State) (code : Byte) : State :=
  match Direction.ofCode cfg.viaEnable code with
  | some direction =>
    let motion := along direction.positive (cfg.offsets direction.axis.pair s.mkSpeed).toNat
    { s with mouseReport := s.mouseReport.setMotion direction.axis motion }
  | none =>
    if isMousekeyButton cfg.viaEnable code then
      { s with mouseReport := s.mouseReport.pressButton cfg.viaEnable code }
    else match accelOf code with
      | some number => changeSpeed cfg s (.speed number)
      | none => s

/-- `mousekey_off` -/
def mousekeyOff (s : State) (code : Byte) : State :=
  match Direction.ofCode cfg.viaEnable code with
  | some direction => { s with mouseReport := s.mouseReport.releaseDirection direction }
  | none =>
    if isMousekeyButton cfg.viaEnable code then
      { s with mouseReport := s.mouseReport.releaseButton cfg.viaEnable code }
    else match accelOf code with
      | some _ => if cfg.momentaryAccel then changeSpeed cfg s .unmod else s
      | none => s

end Functions

end ThreeSpeed

end QmkSonix.Mousekey
