import QmkSonix.Mousekey.Model

/-! The mouse moves only in directions whose keys are held. -/

namespace QmkSonix.Mousekey

open QmkSonix.Lib

abbrev Held := Direction → Bool

/-- An axis is 0 or has the sign of another one. -/
def keepsSign (later earlier : Byte) : Prop :=
  later ≠ 0 → earlier ≠ 0 ∧ (0 < later.toInt ↔ 0 < earlier.toInt)

/-- Every axis is 0 or has the sign of another report's. -/
def Report.Within (later earlier : Report) : Prop :=
  ∀ axis, keepsSign (later.motion axis) (earlier.motion axis)

/-- An axis that is not 0 has the sign of a held direction key. -/
def Report.Signed (held : Held) (report : Report) : Prop :=
  ∀ axis, report.motion axis ≠ 0 → ∃ direction : Direction, held direction = true ∧
    direction.axis = axis ∧ direction.positive = decide (0 < (report.motion axis).toInt)

section Reports

variable {held : Held} {report later earlier : Report}

theorem Report.Within.refl (report : Report) : report.Within report :=
  fun _ moved => ⟨moved, Iff.rfl⟩

theorem keepsSign.trans {first second third : Byte} (later : keepsSign third second)
    (earlier : keepsSign second first) : keepsSign third first := by
  intro moved
  obtain ⟨moved, same⟩ := later moved
  obtain ⟨moved, before⟩ := earlier moved
  exact ⟨moved, same.trans before⟩

theorem Report.Within.trans {first second third : Report} (later : third.Within second)
    (earlier : second.Within first) : third.Within first :=
  fun axis => (later axis).trans (earlier axis)

theorem Report.Signed.within (signed : earlier.Signed held) (within : later.Within earlier) :
    later.Signed held := by
  intro axis moved
  obtain ⟨before, same⟩ := within axis moved
  obtain ⟨direction, down, moves, sign⟩ := signed axis before
  exact ⟨direction, down, moves, sign.trans (decide_eq_decide.mpr same.symm)⟩

theorem Report.Within.setMotion {axis : Axis} {motion : Byte} (within : later.Within earlier)
    (keeps : keepsSign motion (earlier.motion axis)) :
    (later.setMotion axis motion).Within earlier := by
  intro other
  by_cases same : other = axis
  · subst same
    simpa [Report.setMotion] using keeps
  · simpa [Report.setMotion, same] using within other

/-- A unit between 1 and 127 keeps its sign as an `int8_t`. -/
theorem along_signed (positive : Bool) {unit : Nat} (low : 1 ≤ unit) (high : unit ≤ 127) :
    along positive unit ≠ 0 ∧ decide (0 < (along positive unit).toInt) = positive := by
  have exact : (along positive unit).toInt = if positive then (unit : Int) else unit * -1 := by
    rw [along, BitVec.toInt_ofInt]
    exact Int.bmod_eq_of_le (by split <;> omega) (by split <;> omega)
  refine ⟨fun zero => ?_, ?_⟩
  · rw [zero] at exact
    have nothing : (0 : Byte).toInt = 0 := by decide
    rw [nothing] at exact
    split at exact <;> omega
  · rw [exact]
    cases positive with
    | true => simp; omega
    | false => simp

/-- A key that is pressed gives its axis a sign that it holds. -/
theorem Report.Signed.press (signed : report.Signed held) (direction : Direction) {unit : Nat}
    (low : 1 ≤ unit) (high : unit ≤ 127) :
    (report.setMotion direction.axis (along direction.positive unit)).Signed
      (Function.update held direction true) := by
  intro axis moved
  by_cases same : axis = direction.axis
  · subst same
    refine ⟨direction, Function.update_self .., rfl, ?_⟩
    have value : (report.setMotion direction.axis (along direction.positive unit)).motion
        direction.axis = along direction.positive unit := Function.update_self ..
    rw [value]
    exact (along_signed direction.positive low high).2.symm
  · have value : (report.setMotion direction.axis (along direction.positive unit)).motion axis =
        report.motion axis := Function.update_of_ne same ..
    rw [value] at moved ⊢
    obtain ⟨other, down, moves, sign⟩ := signed axis moved
    refine ⟨other, ?_, moves, sign⟩
    by_cases self : other = direction
    · rw [self, Function.update_self]
    · rwa [Function.update_of_ne self]

/-- A key that is released takes its sign with it. -/
theorem Report.Signed.release (signed : report.Signed held) (direction : Direction) :
    (report.releaseDirection direction).Signed (Function.update held direction false) := by
  have others {axis : Axis} (moved : report.motion axis ≠ 0)
      (apart : direction.axis = axis → ¬direction.positive = decide (0 < (report.motion axis).toInt)) :
      ∃ other : Direction, Function.update held direction false other = true ∧ other.axis = axis ∧
        other.positive = decide (0 < (report.motion axis).toInt) := by
    obtain ⟨other, down, moves, sign⟩ := signed axis moved
    have distinct : other ≠ direction := by
      rintro rfl
      exact apart moves sign
    exact ⟨other, by rwa [Function.update_of_ne distinct], moves, sign⟩
  by_cases signs : if direction.positive then 0 < (report.motion direction.axis).toInt
      else (report.motion direction.axis).toInt < 0
  · rw [releaseDirection, if_pos signs]
    intro axis moved
    by_cases same : axis = direction.axis
    · subst same
      exact absurd (Function.update_self ..) moved
    · have value : (report.setMotion direction.axis 0).motion axis = report.motion axis :=
        Function.update_of_ne same ..
      rw [value] at moved ⊢
      exact others moved fun equal => absurd equal.symm same
  · rw [releaseDirection, if_neg signs]
    refine fun axis moved => others moved fun equal agrees => signs ?_
    rw [← equal] at agrees moved
    have apart : (report.motion direction.axis).toInt ≠ 0 := fun zero =>
      moved (BitVec.eq_of_toInt_eq (zero.trans (by decide)))
    rw [agrees]
    by_cases up : 0 < (report.motion direction.axis).toInt
    · rw [decide_eq_true up]
      exact up
    · have below : (report.motion direction.axis).toInt < 0 := by omega
      rw [decide_eq_false up]
      exact below

theorem timesInvSqrt2_keepsSign : ∀ motion, keepsSign (timesInvSqrt2 motion) motion := by
  unfold keepsSign
  decide +kernel

theorem slant_keepsSign : ∀ motion, motion ≠ 0 → keepsSign (Accelerated.slant motion) motion := by
  unfold keepsSign
  decide +kernel

end Reports

/-- One call, or what the keyboard does between calls. -/
inductive Event where
  | on (code : Byte) (clock : Reading → BitVec 16)
  | off (code : Byte)
  | task (clock : Reading → BitVec 16)
  | send (now : BitVec 16)
  | clear

/-- The direction keys that are held behind an event. -/
def Event.held (viaEnable : Bool) (held : Held) : Event → Held
  | .on code _ => match Direction.ofCode viaEnable code with
    | some direction => Function.update held direction true
    | none => held
  | .off code => match Direction.ofCode viaEnable code with
    | some direction => Function.update held direction false
    | none => held
  | _ => held

/-- No axis moves against the held keys, and without any the axes and repeats are 0. -/
def NoPhantom (held : Held) (s : Core) : Prop :=
  s.mouseReport.Signed held ∧ ((∀ direction, held direction = false) →
    (∀ axis, s.mouseReport.motion axis = 0) ∧ ∀ pair, s.mousekeyRepeat pair = 0)

/-- The repeat counter of a pair of axes that are both 0 is 0. -/
def Core.Quiet (s : Core) : Prop :=
  ∀ pair, ¬s.mouseReport.moves pair → s.mousekeyRepeat pair = 0

section Calls

variable {held : Held} {s : Core}

theorem Report.not_moves {report : Report} {pair : Pair} (still : ¬report.moves pair) {axis : Axis}
    (member : axis.pair = pair) : report.motion axis = 0 := by
  obtain ⟨first, second⟩ := not_or.mp still
  cases axis <;> subst member
  · exact not_not.mp first
  · exact not_not.mp second
  · exact not_not.mp first
  · exact not_not.mp second

theorem Report.moves_of_motion {report : Report} {axis : Axis} (moved : report.motion axis ≠ 0) :
    report.moves axis.pair := by
  by_contra still
  exact moved (Report.not_moves still rfl)

theorem Report.moves_congr {report other : Report} {pair : Pair}
    (same : ∀ axis : Axis, axis.pair = pair → report.motion axis = other.motion axis) :
    report.moves pair ↔ other.moves pair := by
  have first : pair.first.pair = pair := by cases pair <;> rfl
  have second : pair.second.pair = pair := by cases pair <;> rfl
  rw [Report.moves, Report.moves, same _ first, same _ second]

theorem noPhantom_of_quiet (signed : s.mouseReport.Signed held) (quiet : s.Quiet) :
    NoPhantom held s := by
  refine ⟨signed, fun nothing => ?_⟩
  have still (axis : Axis) : s.mouseReport.motion axis = 0 := by
    by_contra moved
    obtain ⟨direction, down, -, -⟩ := signed axis moved
    exact Bool.false_ne_true ((nothing direction).symm.trans down)
  refine ⟨still, fun pair => quiet pair ?_⟩
  rw [Report.moves, still, still]
  simp

/-- Setting an axis to a sign leaves no repeat counter running without need. -/
theorem Core.Quiet.setMotion (quiet : s.Quiet) {axis : Axis} {motion : Byte} (moved : motion ≠ 0) :
    ({ s with mouseReport := s.mouseReport.setMotion axis motion } : Core).Quiet := by
  intro pair still
  refine quiet pair fun moves => still ?_
  by_cases same : axis.pair = pair
  · subst same
    have value : (s.mouseReport.setMotion axis motion).motion axis = motion :=
      Function.update_self ..
    exact Report.moves_of_motion (value.trans_ne moved)
  · refine (Report.moves_congr fun other member => ?_).mp moves
    have apart : other ≠ axis := by
      rintro rfl
      exact same member
    exact (Function.update_of_ne apart ..).symm

theorem Report.within_blank (report : Report) :
    ({ report with motion := fun _ => 0 } : Report).Within report :=
  fun _ moved => absurd rfl moved

end Calls

namespace Accelerated

variable {Interval : Type} {cfg : Config Interval} {held : Held} {s : State Interval}

/-- `MOUSEKEY_MOVE_MAX` and `MOUSEKEY_WHEEL_MAX` are offsets of a report. -/
def Config.Valid (cfg : Config Interval) : Prop :=
  ∀ pair, 1 ≤ (cfg.ramp pair).max ∧ (cfg.ramp pair).max ≤ 127

theorem Ramp.limit_bounds {ramp : Ramp} (low : 1 ≤ ramp.max) (high : ramp.max ≤ 127) (unit : Nat) :
    1 ≤ (ramp.limit unit).toNat ∧ (ramp.limit unit).toNat ≤ 127 := by
  simp only [Ramp.limit, BitVec.toNat_ofNat]
  split
  · omega
  · split <;> omega

theorem limitSpeed_bounds {max : Nat} (low : 1 ≤ max) (high : max ≤ 127) (speed : Byte) :
    1 ≤ (limitSpeed max speed).toNat ∧ (limitSpeed max speed).toNat ≤ 127 := by
  have one : (1 : Byte).toNat = 1 := rfl
  have raised : 1 ≤ (if speed < 1 then 1 else speed).toNat := by
    split
    · exact le_refl 1
    · rename_i above
      rw [BitVec.lt_def, one] at above
      omega
  unfold limitSpeed
  generalize (if speed < 1 then 1 else speed) = fast at raised
  dsimp only
  split
  · rw [BitVec.toNat_ofNat]
    omega
  · omega

theorem unit_bounds (valid : cfg.Valid) (s : State Interval) (pair : Pair) (now : BitVec 16) :
    1 ≤ (unit cfg s pair now).1.toNat ∧ (unit cfg s pair now).1.toNat ≤ 127 := by
  obtain ⟨low, high⟩ := valid pair
  unfold unit
  split
  · exact limitSpeed_bounds (valid .cursor).1 (valid .cursor).2 _
  · exact ⟨le_refl 1, by simp⟩
  · split
    · exact Ramp.limit_bounds low high _
    · exact Ramp.limit_bounds low high _

/-- A unit function changes nothing but `mk_wheel_interval`. -/
theorem unit_core (cfg : Config Interval) (s : State Interval) (pair : Pair) (now : BitVec 16) :
    (unit cfg s pair now).2.toCore = s.toCore := by
  unfold unit
  split
  · rfl
  · rfl
  · split <;> rfl

/-- Within the report at the start of `mousekey_task`, with nothing sent yet. -/
structure Repeating (before : Core) (s : Core) : Prop where
  within : s.mouseReport.Within before.mouseReport
  unsent : s.sent = before.sent
  repeats : ∀ pair, ¬before.mouseReport.moves pair →
    s.mousekeyRepeat pair = before.mousekeyRepeat pair

theorem repeatAxis_repeating (valid : cfg.Valid) {before : Core} (repeating : Repeating before s.toCore)
    (clock : Reading → BitVec 16) (pair : Pair) (axis : Axis) :
    Repeating before (repeatAxis cfg before.mouseReport clock s pair axis).toCore := by
  unfold repeatAxis
  split
  · rename_i moved
    obtain ⟨low, high⟩ := unit_bounds valid s pair (clock (.unit axis))
    have core := unit_core cfg s pair (clock (.unit axis))
    obtain ⟨-, sign⟩ := along_signed (0 < (before.mouseReport.motion axis).toInt) low high
    have within : (unit cfg s pair (clock (.unit axis))).2.mouseReport.Within
        before.mouseReport := by
      rw [core]
      exact repeating.within
    refine ⟨within.setMotion fun _ => ⟨moved, decide_eq_decide.mp sign⟩, ?_, fun other still => ?_⟩
    · rw [← repeating.unsent, ← core]
    · rw [← repeating.repeats other still, ← core]
  · exact repeating

theorem diagonal_within (report : Report) (pair : Pair) : (diagonal report pair).Within report := by
  unfold diagonal
  split
  · rename_i both
    exact ((Report.Within.refl report).setMotion (slant_keepsSign _ both.1)).setMotion
      (slant_keepsSign _ both.2)
  · exact Report.Within.refl report

theorem repeatPair_repeating (valid : cfg.Valid) {before : Core} (repeating : Repeating before s.toCore)
    (clock : Reading → BitVec 16) (pair : Pair) :
    Repeating before (repeatPair cfg before.mouseReport clock s pair).toCore := by
  unfold repeatPair
  split
  · rename_i due
    have counted (count : Byte) : Repeating before ({ s with
        mousekeyRepeat := Function.update s.mousekeyRepeat pair count } : State Interval).toCore := by
      refine ⟨repeating.within, repeating.unsent, fun other still => ?_⟩
      have apart : other ≠ pair := by
        rintro rfl
        exact still due.1
      exact (Function.update_of_ne apart ..).trans (repeating.repeats other still)
    have both (count : Byte) := repeatAxis_repeating valid
      (repeatAxis_repeating valid (counted count) clock pair pair.first) clock pair pair.second
    exact ⟨(diagonal_within _ pair).trans (both _).within, (both _).unsent, (both _).repeats⟩
  · exact repeating

/-- `mousekey_task` restores the report. What it sends is within it. -/
theorem mousekeyTask_spec (valid : cfg.Valid) (s : State Interval) (clock : Reading → BitVec 16) :
    (mousekeyTask cfg s clock).mouseReport = s.mouseReport ∧
      (∀ pair, ¬s.mouseReport.moves pair →
        (mousekeyTask cfg s clock).mousekeyRepeat pair = s.mousekeyRepeat pair) ∧
      ∃ sent, (mousekeyTask cfg s clock).sent = s.sent ++ sent ∧
        ∀ report ∈ sent, report.Within s.mouseReport := by
  have blank : Repeating s.toCore ({ s with
      mouseReport := { s.mouseReport with motion := fun _ => 0 } } : State Interval).toCore :=
    ⟨Report.within_blank _, rfl, fun _ _ => rfl⟩
  have both := repeatPair_repeating valid (repeatPair_repeating valid blank clock .cursor) clock .wheel
  refine ⟨rfl, fun pair still => ?_, ?_⟩
  · rw [← both.repeats pair still, mousekeyTask]
    dsimp only
    split <;> rfl
  · rw [mousekeyTask]
    dsimp only
    split
    · refine ⟨[_], congrArg (· ++ _) both.unsent, ?_⟩
      intro report member
      rw [List.mem_singleton.mp member]
      exact both.within
    · exact ⟨[], by rw [List.append_nil]; exact both.unsent, fun _ member => absurd member List.not_mem_nil⟩

/-- What holds between any two calls. -/
structure Sound (held : Held) (s : Core) : Prop where
  signed : s.mouseReport.Signed held
  quiet : s.Quiet

theorem mousekeyOn_sound (valid : cfg.Valid) (sound : Sound held s.toCore) (code : Byte)
    (clock : Reading → BitVec 16) :
    Sound ((Event.on code clock).held cfg.viaEnable held) (mousekeyOn cfg s code clock).toCore := by
  have started : Sound held (if cfg.kinetic.isSome ∧ s.mouseTimer = 0 then
      { s with mouseTimer := clock .started } else s).toCore := by
    split <;> exact sound
  unfold mousekeyOn Event.held
  generalize (if cfg.kinetic.isSome ∧ s.mouseTimer = 0 then
    { s with mouseTimer := clock .started } else s) = begun at started
  dsimp only
  cases Direction.ofCode cfg.viaEnable code with
  | some direction =>
    obtain ⟨low, high⟩ := unit_bounds valid begun direction.axis.pair (clock (.unit direction.axis))
    have core := unit_core cfg begun direction.axis.pair (clock (.unit direction.axis))
    rw [← core] at started
    exact ⟨started.signed.press direction low high,
      started.quiet.setMotion (along_signed _ low high).1⟩
  | none =>
    dsimp only
    split
    · exact ⟨started.signed, started.quiet⟩
    · split <;> exact ⟨started.signed, started.quiet⟩

theorem resetRepeats_sound (signed : s.mouseReport.Signed held) :
    Sound held (resetRepeats cfg s).toCore :=
  ⟨signed, fun _ still => if_neg still⟩

theorem mousekeyOff_sound (sound : Sound held s.toCore) (code : Byte) :
    Sound ((Event.off code).held cfg.viaEnable held) (mousekeyOff cfg s code).toCore := by
  refine resetRepeats_sound ?_
  unfold Event.held
  dsimp only
  cases Direction.ofCode cfg.viaEnable code with
  | some direction => exact sound.signed.release direction
  | none =>
    dsimp only
    split
    · exact sound.signed
    · split <;> exact sound.signed

/-- One event on the firmware and on the held keys. -/
def follow (cfg : Config Interval) (s : State Interval × Held) (event : Event) :
    State Interval × Held :=
  (match event with
    | .on code clock => mousekeyOn cfg s.1 code clock
    | .off code => mousekeyOff cfg s.1 code
    | .task clock => mousekeyTask cfg s.1 clock
    | .send now => { s.1 with toCore := mousekeySend s.1.toCore now }
    | .clear => { s.1 with toCore := mousekeyClear s.1.toCore },
    event.held cfg.viaEnable s.2)

theorem follow_sound (valid : cfg.Valid) (s : State Interval × Held) (event : Event)
    (sound : Sound s.2 s.1.toCore) : Sound (follow cfg s event).2 (follow cfg s event).1.toCore := by
  cases event with
  | on code clock => exact mousekeyOn_sound valid sound code clock
  | off code => exact mousekeyOff_sound sound code
  | task clock =>
    obtain ⟨report, repeats, -⟩ := mousekeyTask_spec valid s.1 clock
    have signed : (mousekeyTask cfg s.1 clock).mouseReport.Signed s.2 := by
      rw [report]
      exact sound.signed
    refine ⟨signed, fun pair still => ?_⟩
    have before : ¬s.1.mouseReport.moves pair := report ▸ still
    exact (repeats pair before).trans (sound.quiet pair before)
  | send now => exact ⟨sound.signed, sound.quiet⟩
  | clear => exact ⟨fun _ moved => absurd rfl moved, fun _ _ => rfl⟩

end Accelerated

namespace ThreeSpeed

variable {cfg : Config} {held : Held} {s : State}

/-- The offsets are offsets of a report. -/
def Config.Valid (cfg : Config) : Prop :=
  ∀ pair speed, 1 ≤ (cfg.offsets pair speed).toNat ∧ (cfg.offsets pair speed).toNat ≤ 127

theorem repeatPair_within (cfg : Config) {s : State} {before : Report} (within : s.mouseReport.Within before)
    (clock : Reading → BitVec 16) (pair : Pair) :
    (repeatPair cfg before clock s pair).mouseReport.Within before := by
  unfold repeatPair
  split
  · exact (within.setMotion (Report.Within.refl before _)).setMotion (Report.Within.refl before _)
  · exact within

theorem repeatPair_sent (cfg : Config) (s : State) (before : Report) (clock : Reading → BitVec 16) (pair : Pair) :
    (repeatPair cfg before clock s pair).sent = s.sent ∧
      (repeatPair cfg before clock s pair).mousekeyRepeat = s.mousekeyRepeat := by
  unfold repeatPair
  split <;> exact ⟨rfl, rfl⟩

/-- `mousekey_task` restores the report. What it sends is within it. -/
theorem mousekeyTask_spec (cfg : Config) (s : State) (clock : Reading → BitVec 16) :
    (mousekeyTask cfg s clock).mouseReport = s.mouseReport ∧
      (mousekeyTask cfg s clock).mousekeyRepeat = s.mousekeyRepeat ∧
      ∃ sent, (mousekeyTask cfg s clock).sent = s.sent ++ sent ∧
        ∀ report ∈ sent, report.Within s.mouseReport := by
  have blank : ({ s with mouseReport := { s.mouseReport with motion := fun _ => 0 } } :
      State).mouseReport.Within s.mouseReport := Report.within_blank s.mouseReport
  have within := repeatPair_within cfg (repeatPair_within cfg blank clock .cursor) clock .wheel
  have unsent (t : State) := repeatPair_sent cfg t s.mouseReport clock
  refine ⟨rfl, ?_, ?_⟩
  · rw [mousekeyTask]
    dsimp only
    split <;> exact (unsent _ .wheel).2.trans (unsent _ .cursor).2
  · have same := (unsent _ .wheel).1.trans (unsent { s with
      mouseReport := { s.mouseReport with motion := fun _ => 0 } } .cursor).1
    rw [mousekeyTask]
    dsimp only
    split
    · refine ⟨[_], congrArg (· ++ _) same, ?_⟩
      intro report member
      rw [List.mem_singleton.mp member]
      exact within
    · exact ⟨[], by rw [List.append_nil]; exact same, fun _ member => absurd member List.not_mem_nil⟩

/-- Another speed changes how far an axis moves, and never where to. -/
theorem adjust_keepsSign {offset : BitVec 16} (low : 1 ≤ offset.toNat) (high : offset.toNat ≤ 127)
    (motion : Byte) : keepsSign (adjust offset motion) motion := by
  obtain ⟨-, up⟩ := along_signed true low high
  obtain ⟨-, down⟩ := along_signed false low high
  have zero : (0 : Byte).toInt = 0 := by decide
  have apart {positive : Byte} (above : 0 < positive.toInt) : positive ≠ 0 := by
    rintro rfl
    omega
  unfold adjust
  by_cases above : 0 < motion.toInt
  · have stays : ¬(along true offset.toNat).toInt < 0 := by
      have := of_decide_eq_true up
      omega
    rw [if_pos above, if_neg stays]
    exact fun _ => ⟨apart above, iff_of_true (of_decide_eq_true up) above⟩
  · rw [if_neg above]
    dsimp only
    split
    · rename_i below
      refine fun _ => ⟨?_, iff_of_false (of_decide_eq_false down) above⟩
      rintro rfl
      omega
    · exact fun moved => ⟨moved, Iff.rfl⟩

theorem diagonal_within (report : Report) (pair : Pair) : (diagonal report pair).Within report := by
  unfold diagonal
  split
  · rename_i both
    cases pair with
    | cursor =>
      exact ((Report.Within.refl report).setMotion (slant_keepsSign _ both.1)).setMotion
        (slant_keepsSign _ both.2)
    | wheel =>
      exact ((Report.Within.refl report).setMotion (timesInvSqrt2_keepsSign _)).setMotion
        (timesInvSqrt2_keepsSign _)
  · exact Report.Within.refl report

theorem changeSpeed_within (valid : cfg.Valid) (s : State) (speed : Speed) :
    (changeSpeed cfg s speed).mouseReport.Within s.mouseReport ∧
      (changeSpeed cfg s speed).mousekeyRepeat = s.mousekeyRepeat := by
  unfold changeSpeed
  split
  · refine ⟨?_, rfl⟩
    refine (diagonal_within _ .wheel).trans ((diagonal_within _ .cursor).trans fun axis => ?_)
    obtain ⟨low, high⟩ := valid axis.pair speed
    exact adjust_keepsSign low high _
  · exact ⟨Report.Within.refl _, rfl⟩

/-- What holds between any two calls. -/
structure Sound (held : Held) (s : Core) : Prop where
  signed : s.mouseReport.Signed held
  unrepeated : ∀ pair, s.mousekeyRepeat pair = 0

theorem changeSpeed_sound (valid : cfg.Valid) (sound : Sound held s.toCore) (speed : Speed) :
    Sound held (changeSpeed cfg s speed).toCore := by
  obtain ⟨within, repeats⟩ := changeSpeed_within valid s speed
  exact ⟨sound.signed.within within, repeats ▸ sound.unrepeated⟩

theorem mousekeyOn_sound (valid : cfg.Valid) (sound : Sound held s.toCore) (code : Byte)
    (clock : Reading → BitVec 16) :
    Sound ((Event.on code clock).held cfg.viaEnable held) (mousekeyOn cfg s code).toCore := by
  unfold mousekeyOn Event.held
  dsimp only
  cases Direction.ofCode cfg.viaEnable code with
  | some direction =>
    obtain ⟨low, high⟩ := valid direction.axis.pair s.mkSpeed
    exact ⟨sound.signed.press direction low high, sound.unrepeated⟩
  | none =>
    dsimp only
    split
    · exact ⟨sound.signed, sound.unrepeated⟩
    · split
      · exact changeSpeed_sound valid sound _
      · exact sound

theorem mousekeyOff_sound (valid : cfg.Valid) (sound : Sound held s.toCore) (code : Byte) :
    Sound ((Event.off code).held cfg.viaEnable held) (mousekeyOff cfg s code).toCore := by
  unfold mousekeyOff Event.held
  dsimp only
  cases Direction.ofCode cfg.viaEnable code with
  | some direction => exact ⟨sound.signed.release direction, sound.unrepeated⟩
  | none =>
    dsimp only
    split
    · exact ⟨sound.signed, sound.unrepeated⟩
    · split
      · split
        · exact changeSpeed_sound valid sound _
        · exact sound
      · exact sound

/-- One event on the firmware and on the held keys. -/
def follow (cfg : Config) (s : State × Held) (event : Event) : State × Held :=
  (match event with
    | .on code _ => mousekeyOn cfg s.1 code
    | .off code => mousekeyOff cfg s.1 code
    | .task clock => mousekeyTask cfg s.1 clock
    | .send now => { s.1 with toCore := mousekeySend s.1.toCore now }
    | .clear => { s.1 with toCore := mousekeyClear s.1.toCore },
    event.held cfg.viaEnable s.2)

theorem follow_sound (valid : cfg.Valid) (s : State × Held) (event : Event)
    (sound : Sound s.2 s.1.toCore) : Sound (follow cfg s event).2 (follow cfg s event).1.toCore := by
  cases event with
  | on code clock => exact mousekeyOn_sound valid sound code clock
  | off code => exact mousekeyOff_sound valid sound code
  | task clock =>
    obtain ⟨report, repeats, -⟩ := mousekeyTask_spec cfg s.1 clock
    refine ⟨?_, fun pair => (congrFun repeats pair).trans (sound.unrepeated pair)⟩
    exact report ▸ sound.signed
  | send now => exact ⟨sound.signed, sound.unrepeated⟩
  | clear => exact ⟨fun _ moved => absurd rfl moved, fun _ => rfl⟩

end ThreeSpeed

/-- Whatever is pressed, released and repeated in whatever order, no axis of the report
and of what `mousekey_task` sends moves against the held direction keys, and without any of
them everything stands still, in both implementations. -/
theorem no_phantom_motion {Interval : Type} (cfg : Accelerated.Config Interval)
    (valid : cfg.Valid) (interval : Interval) (speeds : ThreeSpeed.Config)
    (speedsValid : speeds.Valid) (events : List Event) :
    let s := run (Accelerated.follow cfg) ({ mkWheelInterval := interval }, fun _ => false) events
    let t := run (ThreeSpeed.follow speeds) ({ mkSpeed := speeds.initialSpeed }, fun _ => false) events
    (NoPhantom s.2 s.1.toCore ∧ ∀ clock, ∃ sent,
      (Accelerated.mousekeyTask cfg s.1 clock).sent = s.1.sent ++ sent ∧
        ∀ report ∈ sent, report.Signed s.2) ∧
      NoPhantom t.2 t.1.toCore ∧ ∀ clock, ∃ sent,
        (ThreeSpeed.mousekeyTask speeds t.1 clock).sent = t.1.sent ++ sent ∧
          ∀ report ∈ sent, report.Signed t.2 := by
  intro s t
  constructor
  · have sound : Accelerated.Sound s.2 s.1.toCore :=
      run_keeps (fun s : Accelerated.State Interval × Held => Accelerated.Sound s.2 s.1.toCore)
        (Accelerated.follow_sound valid) ⟨fun _ moved => absurd rfl moved, fun _ _ => rfl⟩ events
    refine ⟨noPhantom_of_quiet sound.signed sound.quiet, fun clock => ?_⟩
    obtain ⟨-, -, sent, appended, within⟩ := Accelerated.mousekeyTask_spec valid s.1 clock
    exact ⟨sent, appended, fun report member => sound.signed.within (within report member)⟩
  · have sound : ThreeSpeed.Sound t.2 t.1.toCore :=
      run_keeps (fun s : ThreeSpeed.State × Held => ThreeSpeed.Sound s.2 s.1.toCore)
        (ThreeSpeed.follow_sound speedsValid) ⟨fun _ moved => absurd rfl moved, fun _ => rfl⟩ events
    refine ⟨noPhantom_of_quiet sound.signed fun pair _ => sound.unrepeated pair, fun clock => ?_⟩
    obtain ⟨-, -, sent, appended, within⟩ := ThreeSpeed.mousekeyTask_spec speeds t.1 clock
    exact ⟨sent, appended, fun report member => sound.signed.within (within report member)⟩

/-- The default parameters. -/
def defaults : Accelerated.Config Unit where
  ramp
    | .cursor => { delta := 5, maxSpeed := 10, timeToMax := 20, max := 127 }
    | .wheel => { delta := 1, maxSpeed := 8, timeToMax := 40, max := 127 }
  mkInterval
    | .cursor => 50
    | .wheel => 100
  mkDelay _ := 30

/-- The default offsets and intervals of `MK_3_SPEED`. -/
def defaultSpeeds : ThreeSpeed.Config where
  offsets
    | .cursor, .unmod => 16
    | .cursor, .speed number => ![1, 4, 32] number
    | .wheel, _ => 1
  intervals
    | .cursor, .speed 0 => 32
    | .cursor, _ => 16
    | .wheel, .unmod => 40
    | .wheel, .speed number => ![360, 120, 20] number

theorem defaultSpeeds_valid : defaultSpeeds.Valid := by
  intro pair speed
  cases pair with
  | cursor =>
    cases speed with
    | unmod => decide
    | speed number => revert number; decide
  | wheel => exact ⟨le_refl 1, by simp [defaultSpeeds]⟩

/-- The left key is let go under the right one, which then moves the cursor. -/
theorem opposite_keys_signed :
    let clock : Reading → BitVec 16 := fun _ => 400
    let events : List Event := [.on 0xEF clock, .on 0xF0 clock, .off 0xEF]
    let s := run (Accelerated.follow defaults) ({ mkWheelInterval := () }, fun _ => false) events
    s.1.mouseReport.motion .x = 5 ∧ s.2 .right = true ∧ s.2 .left = false ∧
      (Accelerated.mousekeyTask defaults s.1 clock).sent.map (·.motion .x) = [2] ∧
      NoPhantom s.2 s.1.toCore := by
  intro clock events s
  have valid : defaults.Valid := fun pair => by cases pair <;> decide
  have honest := no_phantom_motion defaults valid () defaultSpeeds defaultSpeeds_valid events
  exact ⟨by decide +kernel, by decide +kernel, by decide +kernel, by decide +kernel, honest.1.1⟩

end QmkSonix.Mousekey
