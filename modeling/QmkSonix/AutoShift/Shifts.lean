import QmkSonix.AutoShift.Ends

/-! Whether Auto Shift gives the shifts back that it has removed, also where keys repeat. -/

namespace QmkSonix.AutoShift

open Lib

variable {World : Type*} {cfg : Config} {host : Host World} {s after : State World}
  {held : List (BitVec 16)} {key : BitVec 16}

/-! ### The keys that are down -/

/-- The firmware, and the keys that are physically down. -/
structure Board (World : Type*) where
  firmware : State World
  held : List (BitVec 16) := []

/-- What an event does to the keys that are down. -/
def Event.hold (held : List (BitVec 16)) : Event → List (BitVec 16)
  | .scan _ => held
  | .key _ key true => key :: held
  | .key _ key false => held.erase key

def Board.exec (cfg : Config) (host : Host World) (board : Board World) (event : Event) :
    Board World where
  firmware := step cfg host board.firmware event
  held := event.hold board.held

/-- An auto-shift key is down. -/
def Down (cfg : Config) (held : List (BitVec 16)) (key : BitVec 16) : Prop :=
  key ∈ held ∧ cfg.getAutoShiftedKey key = true ∧ ¬isRetro key

/-- No auto-shift key is down, or the shifts are as they are held, and none is away. -/
def GivenBack (cfg : Config) (board : Board World) : Prop :=
  (∃ key, Down cfg board.held key) ∨
    (kcLsft ∈ board.held → board.firmware.mods.getLsbD 1 = true) ∧
      (kcRsft ∈ board.held → board.firmware.mods.getLsbD 5 = true) ∧
      board.firmware.cancellingLshift = false ∧ board.firmware.cancellingRshift = false

/-! ### What an event keeps -/

/-- Shifts are away only for an auto-shift key that is down, the last one. -/
structure Owned (cfg : Config) (held : List (BitVec 16)) (s : State World) : Prop where
  pending : s.inProgress = true → Down cfg held s.lastkey
  away : s.cancellingLshift = true ∨ s.cancellingRshift = true → Down cfg held s.lastkey
  off : s.enabled = false →
    s.inProgress = false ∧ s.cancellingLshift = false ∧ s.cancellingRshift = false

/-- A shift that is down is in the real modifiers, or away. -/
structure Shifts (held : List (BitVec 16)) (s : State World) : Prop where
  left : kcLsft ∈ held → s.mods.getLsbD 1 = true ∨ s.cancellingLshift = true
  right : kcRsft ∈ held → s.mods.getLsbD 5 = true ∨ s.cancellingRshift = true

/-- Nothing is pending and no shift is away. -/
structure Rested (s : State World) : Prop where
  rests : s.inProgress = false
  left : s.cancellingLshift = false
  right : s.cancellingRshift = false

theorem Rested.owned (rested : Rested s) (cfg : Config) (held : List (BitVec 16)) :
    Owned cfg held s := by
  refine ⟨fun pending => ?_, fun away => ?_, fun _ => ⟨rested.rests, rested.left, rested.right⟩⟩
  · simp [rested.rests] at pending
  · simp [rested.left, rested.right] at away

theorem Owned.mono {more : List (BitVec 16)} (owned : Owned cfg held s)
    (kept : Down cfg held s.lastkey → Down cfg more s.lastkey) : Owned cfg more s :=
  ⟨fun pending => kept (owned.pending pending), fun away => kept (owned.away away), owned.off⟩

theorem Shifts.mono {fewer : List (BitVec 16)} (shifts : Shifts held s)
    (left : kcLsft ∈ fewer → kcLsft ∈ held) (right : kcRsft ∈ fewer → kcRsft ∈ held) :
    Shifts fewer s :=
  ⟨fun down => shifts.left (left down), fun down => shifts.right (right down)⟩

theorem Down.cons {other : BitVec 16} (down : Down cfg held other) (key : BitVec 16) :
    Down cfg (key :: held) other :=
  ⟨List.mem_cons_of_mem key down.1, down.2⟩

theorem Down.erase {other : BitVec 16} (down : Down cfg held other) (apart : other ≠ key) :
    Down cfg (held.erase key) other :=
  ⟨(List.mem_erase_of_ne apart).mpr down.1, down.2⟩

/-- Shift keys are not among the auto-shift keys. -/
theorem ne_shift_of_auto (auto : cfg.getAutoShiftedKey key = true) :
    key ≠ kcLsft ∧ key ≠ kcRsft := by
  have shift (keycode : BitVec 16) (modifier : isMod keycode)
      (plain : ((decide (0x04 ≤ keycode ∧ keycode ≤ 0x1D) || decide (0x1E ≤ keycode ∧ keycode ≤ 0x27)) ||
        decide (keycode = 0x2B) || decide (0x2D ≤ keycode ∧ keycode ≤ 0x38) ||
        decide (keycode = 0x64)) = false) : cfg.getAutoShiftedKey keycode = false := by
    unfold Config.getAutoShiftedKey
    rw [plain, Bool.false_or]
    exact Bool.eq_false_iff.mpr fun custom => cfg.notMod keycode custom modifier
  constructor
  · rintro rfl
    rw [shift kcLsft ⟨by decide, by decide⟩ (by decide)] at auto
    cases auto
  · rintro rfl
    rw [shift kcRsft ⟨by decide, by decide⟩ (by decide)] at auto
    cases auto

/-! ### The functions of Auto Shift -/

theorem cancelled_bits (mods : BitVec 8) (left right : Bool) :
    ((mods ||| ((if left then leftShift else 0) ||| (if right then rightShift else 0))).getLsbD 1 =
        (mods.getLsbD 1 || left)) ∧
      ((mods ||| ((if left then leftShift else 0) ||| (if right then rightShift else 0))).getLsbD 5 =
        (mods.getLsbD 5 || right)) := by
  cases left <;> cases right <;> simp [leftShift, rightShift, BitVec.getLsbD_or]

theorem Shifts.restored (shifts : Shifts held s) (mods : after.mods = s.mods ||| s.cancelled) :
    Shifts held after := by
  obtain ⟨left, right⟩ := cancelled_bits s.mods s.cancellingLshift s.cancellingRshift
  refine ⟨fun down => .inl ?_, fun down => .inl ?_⟩
  · rw [mods, State.cancelled, left, Bool.or_eq_true]
    exact shifts.left down
  · rw [mods, State.cancelled, right, Bool.or_eq_true]
    exact shifts.right down

theorem Decides.rested {now : BitVec 16} (decides : Decides s after now) : Rested after :=
  ⟨decides.rests, decides.left, decides.right⟩

/-- The head of `process_auto_shift` for a press leaves nothing pending. -/
theorem settle_keeps (owned : Owned cfg held s) (shifts : Shifts held s) (host : Host World)
    (now : BitVec 16) :
    Owned cfg held (settle cfg host s now) ∧ Shifts held (settle cfg host s now) ∧
      (settle cfg host s now).inProgress = false := by
  unfold settle
  by_cases pending : s.inProgress = true
  · rw [if_pos pending]
    have decides : Decides s (autoshiftEnd cfg host s kcNo now false) now :=
      autoshiftEnd_decides host pending (.inr rfl) (by simp)
    exact ⟨decides.rested.owned cfg held, shifts.restored decides.mods, decides.rests⟩
  · rw [if_neg pending]
    exact ⟨owned, shifts, Bool.eq_false_iff.mpr pending⟩

theorem changeSettings_keeps (owned : Owned cfg held s) (shifts : Shifts held s)
    (rests : s.inProgress = false) (host : Host World) (key : BitVec 16) :
    Owned cfg held (changeSettings host s key) ∧ Shifts held (changeSettings host s key) ∧
      (changeSettings host s key).inProgress = false := by
  have sets := changeSettings_sets host s key
  have still := sets.inProgress.trans rests
  rcases sets.shifts with ⟨mods, left, right, enabled, -⟩ | ⟨mods, left, right⟩
  · refine ⟨⟨?_, ?_, ?_⟩, ⟨?_, ?_⟩, still⟩
    · intro pending
      rw [still] at pending
      cases pending
    · rw [left, right, sets.lastkey]
      exact owned.away
    · intro off
      rcases enabled with same | on
      · rw [left, right]
        exact ⟨still, (owned.off (same ▸ off)).2⟩
      · rw [on] at off
        cases off
    · rw [mods, left]
      exact shifts.left
    · rw [mods, right]
      exact shifts.right
  · exact ⟨Rested.owned ⟨still, left, right⟩ cfg held, shifts.restored mods, still⟩

/-- A press that can be shifted, or that finds no shift away, keeps the shifts owned. -/
theorem autoshiftPress_keeps (owned : Owned cfg held s) (shifts : Shifts held s)
    (rests : s.inProgress = false) (auto : cfg.getAutoShiftedKey key = true) (plain : ¬isRetro key)
    (enabled : s.enabled = true) (fine : Rested s ∨ s.otherMods = 0) (host : Host World)
    (now : BitVec 16) :
    Owned cfg (key :: held) (autoshiftPress cfg host s key now) ∧
      Shifts (key :: held) (autoshiftPress cfg host s key now) := by
  obtain ⟨notLeft, notRight⟩ := ne_shift_of_auto auto
  have shifts : Shifts (key :: held) s :=
    shifts.mono (fun down => (List.mem_cons.mp down).resolve_left notLeft.symm)
      (fun down => (List.mem_cons.mp down).resolve_left notRight.symm)
  have down : Down cfg (key :: held) key := ⟨List.mem_cons_self, auto, plain⟩
  unfold autoshiftPress
  split
  · next other =>
    have rested := fine.resolve_right other
    refine ⟨Rested.owned ⟨?_, ?_, ?_⟩ cfg (key :: held), shifts.left, shifts.right⟩
    · exact rested.rests
    · exact rested.left
    · exact rested.right
  · split
    · next again =>
      rw [cancelShifts_eq]
      refine ⟨⟨fun _ => again.2.1 ▸ down, fun _ => again.2.1 ▸ down, fun off => ?_⟩, ?_, ?_⟩
      · exact absurd (enabled.symm.trans off) (by decide)
      · intro held
        have bit := shifts.left held
        exact .inr (by simpa [pressUser, Bool.or_eq_true, or_comm] using bit)
      · intro held
        have bit := shifts.right held
        exact .inr (by simpa [pressUser, Bool.or_eq_true, or_comm] using bit)
    · refine ⟨⟨fun _ => down, fun _ => down, fun off => ?_⟩, shifts.left, shifts.right⟩
      exact absurd (enabled.symm.trans off) (by decide)

/-! ### The rest of the firmware -/

/-- The rest of the firmware leaves the shifts in the real modifiers alone. -/
def Neutral (host : Host World) (key : BitVec 16) (pressed : Bool) : Prop :=
  ∀ firmware, (host.processAction key pressed firmware).1.getLsbD 1 = firmware.1.getLsbD 1 ∧
    (host.processAction key pressed firmware).1.getLsbD 5 = firmware.1.getLsbD 5

theorem shift_bits : ∀ mods : BitVec 8,
    ((mods ||| leftShift).getLsbD 1 = true ∧ (mods ||| leftShift).getLsbD 5 = mods.getLsbD 5) ∧
      ((mods ||| rightShift).getLsbD 5 = true ∧ (mods ||| rightShift).getLsbD 1 = mods.getLsbD 1) ∧
      (mods &&& ~~~leftShift).getLsbD 5 = mods.getLsbD 5 ∧
      (mods &&& ~~~rightShift).getLsbD 1 = mods.getLsbD 1 := by
  decide +kernel

theorem processAction_owned (owned : Owned cfg held s) (key : BitVec 16) (pressed : Bool) :
    Owned cfg held (processAction host s key pressed) := by
  obtain ⟨mods, oneshotMods, world, is⟩ := processAction_keeps host s key pressed
  rw [is]
  exact ⟨owned.pending, owned.away, owned.off⟩

theorem processAction_neutral (shifts : Shifts held s) {pressed : Bool}
    (other : ¬(key = kcLsft ∨ key = kcRsft)) (neutral : Neutral host key pressed) :
    Shifts held (processAction host s key pressed) := by
  obtain ⟨left, right⟩ := neutral (s.mods, s.oneshotMods, s.world)
  unfold processAction
  rw [if_neg other]
  refine ⟨fun down => ?_, fun down => ?_⟩
  · dsimp only
    rw [left]
    exact shifts.left down
  · dsimp only
    rw [right]
    exact shifts.right down

theorem processAction_press (shifts : Shifts held s)
    (neutral : key = kcLsft ∨ key = kcRsft ∨ Neutral host key true) :
    Shifts (key :: held) (processAction host s key true) := by
  obtain ⟨⟨left, rightKept⟩, ⟨right, leftKept⟩, -⟩ := shift_bits s.mods
  by_cases isLeft : key = kcLsft
  · subst isLeft
    have mods : (processAction host s kcLsft true).mods = s.mods ||| leftShift := rfl
    refine ⟨fun _ => .inl (by rw [mods, left]), fun down => ?_⟩
    rw [mods, rightKept]
    exact shifts.right ((List.mem_cons.mp down).resolve_left (by decide))
  · by_cases isRight : key = kcRsft
    · subst isRight
      have mods : (processAction host s kcRsft true).mods = s.mods ||| rightShift := rfl
      refine ⟨fun down => ?_, fun _ => .inl (by rw [mods, right])⟩
      rw [mods, leftKept]
      exact shifts.left ((List.mem_cons.mp down).resolve_left (by decide))
    · have calm := (neutral.resolve_left isLeft).resolve_left isRight
      exact (processAction_neutral shifts (not_or.mpr ⟨isLeft, isRight⟩) calm).mono
        (fun down => (List.mem_cons.mp down).resolve_left (Ne.symm isLeft))
        (fun down => (List.mem_cons.mp down).resolve_left (Ne.symm isRight))

theorem processAction_release (shifts : Shifts (held.erase key) s)
    (neutral : if key = kcLsft ∨ key = kcRsft then key ∉ held.erase key
      else Neutral host key false) :
    Shifts (held.erase key) (processAction host s key false) := by
  obtain ⟨-, -, rightKept, leftKept⟩ := shift_bits s.mods
  by_cases isLeft : key = kcLsft
  · subst isLeft
    rw [if_pos (.inl rfl)] at neutral
    have mods : (processAction host s kcLsft false).mods = s.mods &&& ~~~leftShift := rfl
    refine ⟨fun down => absurd down neutral, fun down => ?_⟩
    rw [mods, rightKept]
    exact shifts.right down
  · by_cases isRight : key = kcRsft
    · subst isRight
      rw [if_pos (.inr rfl)] at neutral
      have mods : (processAction host s kcRsft false).mods = s.mods &&& ~~~rightShift := rfl
      refine ⟨fun down => ?_, fun down => absurd down neutral⟩
      rw [mods, leftKept]
      exact shifts.left down
    · rw [if_neg (not_or.mpr ⟨isLeft, isRight⟩)] at neutral
      exact processAction_neutral shifts (not_or.mpr ⟨isLeft, isRight⟩) neutral

/-- The release of a shift that is away. -/
theorem forgetShift_keeps_shifts (owned : Owned cfg held s) (shifts : Shifts held s)
    (alone : key = kcLsft ∨ key = kcRsft → key ∉ held.erase key) :
    Owned cfg held (forgetShift s key) ∧ Shifts (held.erase key) (forgetShift s key) := by
  unfold forgetShift
  split_ifs with isLeft isRight
  · refine ⟨⟨owned.pending, fun away => owned.away (.inr ?_), fun off => ?_⟩, ?_, ?_⟩
    · exact away.resolve_left Bool.false_ne_true
    · exact ⟨(owned.off off).1, rfl, (owned.off off).2.2⟩
    · intro down
      rw [isLeft] at alone down
      exact absurd down (alone (.inl rfl))
    · exact fun down => shifts.right (List.mem_of_mem_erase down)
  · refine ⟨⟨owned.pending, fun away => owned.away (.inl ?_), fun off => ?_⟩, ?_, ?_⟩
    · exact away.resolve_right Bool.false_ne_true
    · exact ⟨(owned.off off).1, (owned.off off).2.1, rfl⟩
    · exact fun down => shifts.left (List.mem_of_mem_erase down)
    · intro down
      rw [isRight] at alone down
      exact absurd down (alone (.inr rfl))
  · exact ⟨owned, shifts.mono List.mem_of_mem_erase List.mem_of_mem_erase⟩

/-! ### Steps and runs -/

/-- No press makes Auto Shift forget for which key a shift is away: the key can be shifted,
or turns Auto Shift off, or the pending key is decided first. No shift is released that
another key holds, and the rest of the firmware leaves the shifts to their keys. -/
def Gentle (cfg : Config) (host : Host World) (board : Board World) : Event → Prop
  | .scan _ => True
  | .key _ key true =>
    (key = kcLsft ∨ key = kcRsft ∨ Neutral host key true) ∧
      (board.firmware.inProgress = true ∨
        (board.firmware.cancellingLshift = false ∧ board.firmware.cancellingRshift = false) ∨
        (key = kcAstg ∨ key = kcAsoff) ∨
        (cfg.getAutoShiftedKey key = true ∧ ¬isRetro key ∧ board.firmware.otherMods = 0))
  | .key _ key false =>
    if key = kcLsft ∨ key = kcRsft then key ∉ board.held.erase key else Neutral host key false

/-- What a gentle press finds behind the head of `process_auto_shift`. -/
theorem rested_of_gentle (owned : Owned cfg held s) (shifts : Shifts held s) (host : Host World)
    (now : BitVec 16)
    (gentle : s.inProgress = true ∨ (s.cancellingLshift = false ∧ s.cancellingRshift = false) ∨
      (key = kcAstg ∨ key = kcAsoff) ∨
      (cfg.getAutoShiftedKey key = true ∧ ¬isRetro key ∧ s.otherMods = 0)) :
    Rested (changeSettings host (settle cfg host s now) key) ∨
      (cfg.getAutoShiftedKey key = true ∧ ¬isRetro key ∧
        (changeSettings host (settle cfg host s now) key).otherMods = 0) := by
  obtain ⟨ownedThen, shiftsThen, rests⟩ := settle_keeps owned shifts host now
  have still := (changeSettings_keeps ownedThen shiftsThen rests host key).2.2
  have sets := changeSettings_sets host (settle cfg host s now) key
  rcases sets.shifts with ⟨mods, left, right, -, plain⟩ | ⟨-, left, right⟩
  · by_cases pending : s.inProgress = true
    · have decides : Decides s (settle cfg host s now) now := by
        unfold settle
        rw [if_pos pending]
        exact autoshiftEnd_decides host pending (.inr rfl) (by simp)
      exact .inl ⟨still, left.trans decides.left, right.trans decides.right⟩
    · have same : settle cfg host s now = s := if_neg pending
      rw [same] at mods left right sets ⊢
      rcases gentle with busy | ⟨noLeft, noRight⟩ | off | ⟨auto, tap, alone⟩
      · exact absurd busy pending
      · rw [same] at still
        exact .inl ⟨still, left.trans noLeft, right.trans noRight⟩
      · exact absurd off plain
      · refine .inr ⟨auto, tap, ?_⟩
        rw [State.otherMods, mods, sets.oneshotMods]
        exact alone
  · exact .inl ⟨still, left, right⟩

theorem press_keeps (owned : Owned cfg held s) (shifts : Shifts held s) (now : Nat)
    (gentle : Gentle cfg host ⟨s, held⟩ (.key now key true)) :
    Owned cfg (key :: held) (step cfg host s (.key now key true)) ∧
      Shifts (key :: held) (step cfg host s (.key now key true)) := by
  obtain ⟨neutral, gentle⟩ := gentle
  have fine := rested_of_gentle owned shifts host (BitVec.ofNat 16 now) gentle
  obtain ⟨ownedThen, shiftsThen, rests⟩ :=
    settle_keeps owned shifts host (BitVec.ofNat 16 now)
  obtain ⟨owned, shifts, still⟩ := changeSettings_keeps ownedThen shiftsThen rests host key
  rw [step_press]
  generalize changeSettings host (settle cfg host s (BitVec.ofNat 16 now)) key = t at *
  have cleared (rested : Rested t) (plain : ¬(cfg.getAutoShiftedKey key = true ∧ ¬isRetro key)) :
      Owned cfg (key :: held) (processAction host { t with lastkey := kcNo } key true) ∧
        Shifts (key :: held) (processAction host { t with lastkey := kcNo } key true) := by
    have forgot : Rested { t with lastkey := kcNo } := ⟨rested.rests, rested.left, rested.right⟩
    have shifts : Shifts held { t with lastkey := kcNo } := ⟨shifts.left, shifts.right⟩
    exact ⟨processAction_owned (forgot.owned cfg _) key true, processAction_press shifts neutral⟩
  dsimp only
  split_ifs with retro off auto
  · have rested := fine.resolve_right fun both => both.2.1 retro
    exact cleared rested fun both => both.2 retro
  · obtain ⟨-, left, right⟩ := owned.off off
    have rested : Rested t := ⟨still, left, right⟩
    exact ⟨processAction_owned (rested.owned cfg _) key true, processAction_press shifts neutral⟩
  · have enabled : t.enabled = true := by simpa using off
    exact autoshiftPress_keeps owned shifts still auto retro enabled (fine.imp_right (·.2.2)) host _
  · have rested := fine.resolve_right fun both => auto both.1
    exact cleared rested fun both => auto both.1

theorem release_keeps (owned : Owned cfg held s) (shifts : Shifts held s) (now : Nat)
    (gentle : Gentle cfg host ⟨s, held⟩ (.key now key false)) :
    Owned cfg (held.erase key) (step cfg host s (.key now key false)) ∧
      Shifts (held.erase key) (step cfg host s (.key now key false)) := by
  have fewer : Shifts (held.erase key) s := shifts.mono List.mem_of_mem_erase List.mem_of_mem_erase
  have neutral : if key = kcLsft ∨ key = kcRsft then key ∉ held.erase key
      else Neutral host key false := gentle
  by_cases retro : isRetro key
  · have apart : Down cfg held s.lastkey → s.lastkey ≠ key := fun down same => down.2.2 (same ▸ retro)
    rw [step_release_retro s now retro]
    split
    · next pending =>
      have decides : Decides s (autoshiftEnd cfg host s kcNo (BitVec.ofNat 16 now) false)
          (BitVec.ofNat 16 now) :=
        autoshiftEnd_decides host pending.1 (.inr rfl) (by simp)
      exact ⟨processAction_owned (decides.rested.owned cfg _) key false,
        processAction_release (fewer.restored decides.mods) neutral⟩
    · exact ⟨processAction_owned (owned.mono fun down => down.erase (apart down)) key false,
        processAction_release fewer neutral⟩
  · by_cases auto : s.enabled = true ∧ cfg.getAutoShiftedKey key = true
    · obtain ⟨notLeft, notRight⟩ := ne_shift_of_auto auto.2
      have same : forgetShift s key = s := by
        unfold forgetShift
        rw [if_neg notLeft, if_neg notRight]
      rw [step_release_auto now retro auto.1 auto.2, same]
      by_cases decider : s.inProgress = true ∧ (key = s.lastkey ∨ key = kcNo)
      · have decides : Decides s (autoshiftEnd cfg host s key (BitVec.ofNat 16 now) false)
            (BitVec.ofNat 16 now) :=
          autoshiftEnd_decides host decider.1 decider.2 (by simp)
        exact ⟨decides.rested.owned cfg _, fewer.restored decides.mods⟩
      · have releases : Releases s (autoshiftEnd cfg host s key (BitVec.ofNat 16 now) false) key
            (BitVec.ofNat 16 now) :=
          autoshiftEnd_releases host decider
        have kept := releases.shifts
        by_cases last : key = s.lastkey
        · rw [if_pos last] at kept
          have rests : s.inProgress = false :=
            Bool.eq_false_iff.mpr fun pending => decider ⟨pending, .inl last⟩
          exact ⟨Rested.owned ⟨releases.inProgress.trans rests, kept.2.1, kept.2.2⟩ cfg _,
            fewer.restored kept.1⟩
        · rw [if_neg last] at kept
          have still (down : Down cfg held s.lastkey) : Down cfg (held.erase key) s.lastkey :=
            down.erase (Ne.symm last)
          refine ⟨⟨?_, ?_, ?_⟩, ?_, ?_⟩
          · rw [releases.inProgress, releases.lastkey]
            exact fun pending => still (owned.pending pending)
          · rw [kept.2.1, kept.2.2, releases.lastkey]
            exact fun away => still (owned.away away)
          · rw [releases.enabled, releases.inProgress, kept.2.1, kept.2.2]
            exact owned.off
          · rw [kept.1, kept.2.1]
            exact fewer.left
          · rw [kept.1, kept.2.2]
            exact fewer.right
    · have alone (shift : key = kcLsft ∨ key = kcRsft) : key ∉ held.erase key := by
        rwa [if_pos shift] at neutral
      obtain ⟨ownedThen, shiftsThen⟩ := forgetShift_keeps_shifts owned shifts alone
      obtain ⟨cancelLeft, cancelRight, forgets⟩ := forgetShift_keeps s key
      have lastkey : (forgetShift s key).lastkey = s.lastkey := by rw [forgets]
      have enabled : (forgetShift s key).enabled = s.enabled := by rw [forgets]
      have ownedLater : Owned cfg (held.erase key) (forgetShift s key) := by
        by_cases off : s.enabled = false
        · obtain ⟨rests, left, right⟩ := ownedThen.off (enabled.trans off)
          exact Rested.owned ⟨rests, left, right⟩ cfg _
        · refine ownedThen.mono fun down => down.erase ?_
          rintro same
          exact auto ⟨by simpa using off, same ▸ down.2.1⟩
      rw [step_release_other s now retro auto]
      exact ⟨processAction_owned ownedLater key false, processAction_release shiftsThen neutral⟩

theorem scan_keeps (owned : Owned cfg held s) (shifts : Shifts held s) (host : Host World)
    (now : Nat) :
    Owned cfg held (step cfg host s (.scan now)) ∧ Shifts held (step cfg host s (.scan now)) := by
  by_cases late : s.inProgress = true ∧ s.timeout ≤ BitVec.ofNat 16 now - s.time
  · have ends : step cfg host s (.scan now) =
        autoshiftEnd cfg host s s.lastkey (BitVec.ofNat 16 now) true := if_pos late
    rw [ends]
    by_cases again : cfg.autoShiftRepeat = true ∧ ¬cfg.autoShiftNoAutoRepeat = true
    · have repeats : Repeats s (autoshiftEnd cfg host s s.lastkey (BitVec.ofNat 16 now) true) :=
        autoshiftEnd_repeats host late.1 (.inl rfl) again.1 again.2
      have enabled : s.enabled = true := by
        by_contra off
        have rests := (owned.off (by simpa using off)).1
        rw [late.1] at rests
        cases rests
      refine ⟨⟨?_, ?_, ?_⟩, ?_, ?_⟩
      · rw [repeats.rests]
        exact fun pending => absurd pending Bool.false_ne_true
      · rw [repeats.lastkey]
        exact fun _ => owned.pending late.1
      · rw [repeats.enabled, enabled]
        exact fun off => absurd off.symm Bool.false_ne_true
      · rw [repeats.left, Bool.or_comm, Bool.or_eq_true]
        exact fun down => .inr (shifts.left down)
      · rw [repeats.right, Bool.or_comm, Bool.or_eq_true]
        exact fun down => .inr (shifts.right down)
    · have decides : Decides s (autoshiftEnd cfg host s s.lastkey (BitVec.ofNat 16 now) true)
          (BitVec.ofNat 16 now) :=
        autoshiftEnd_decides host late.1 (.inl rfl) fun all => again ⟨all.1, all.2.1⟩
      exact ⟨decides.rested.owned cfg held, shifts.restored decides.mods⟩
  · have same : step cfg host s (.scan now) = s := if_neg late
    rw [same]
    exact ⟨owned, shifts⟩

/-- What every gentle step keeps. -/
def Kept (cfg : Config) (board : Board World) : Prop :=
  Owned cfg board.held board.firmware ∧ Shifts board.held board.firmware

theorem Kept.exec {board : Board World} (kept : Kept cfg board) {event : Event}
    (gentle : Gentle cfg host board event) : Kept cfg (board.exec cfg host event) := by
  cases event with
  | scan now => exact scan_keeps kept.1 kept.2 host now
  | key now key pressed =>
    cases pressed with
    | true => exact press_keeps kept.1 kept.2 now gentle
    | false => exact release_keeps kept.1 kept.2 now gentle

theorem kept_start (cfg : Config) (world : World) :
    Kept cfg ({ firmware := State.start cfg world } : Board World) :=
  ⟨Rested.owned ⟨rfl, rfl, rfl⟩ cfg [], fun down => absurd down List.not_mem_nil,
    fun down => absurd down List.not_mem_nil⟩

theorem Kept.givenBack {board : Board World} (kept : Kept cfg board) : GivenBack cfg board := by
  by_cases down : ∃ key, Down cfg board.held key
  · exact .inl down
  · obtain ⟨left, right⟩ : ¬board.firmware.cancellingLshift = true ∧
        ¬board.firmware.cancellingRshift = true :=
      not_or.mp fun away => down ⟨_, kept.1.away away⟩
    exact .inr ⟨fun held => (kept.2.left held).resolve_right left,
      fun held => (kept.2.right held).resolve_right right, Bool.eq_false_iff.mpr left,
      Bool.eq_false_iff.mpr right⟩

/-- Whatever the options, in every run of gentle steps the shifts are given back whenever no
auto-shift key is down. -/
theorem shifts_given_back (cfg : Config) (host : Host World) (world : World) {events : List Event}
    (gentle : Along (Board.exec cfg host) (Gentle cfg host) ⟨State.start cfg world, []⟩ events)
    {earlier : List Event} (within : earlier <+: events) :
    GivenBack cfg (run (Board.exec cfg host) ⟨State.start cfg world, []⟩ earlier) := by
  obtain ⟨later, rfl⟩ := within
  have along := (along_append _ earlier later).mp gentle
  have kept : Kept cfg (run (Board.exec cfg host) ⟨State.start cfg world, []⟩ earlier) :=
    run_invariant (fun _ _ kept gentle => kept.exec gentle) (kept_start cfg world) along.1
  exact kept.givenBack

/-! ### A shift that is away for a key that repeats -/

/-- `AUTO_SHIFT_REPEAT`, with no keys of the user's own. -/
def repeating : Config where
  autoShiftRepeat := true
  autoShiftNoAutoRepeat := false
  ignoreModTapInterrupt := false
  autoShiftTimeout := 175
  getTappingTerm _ := 200
  getCustomAutoShiftedKey _ := false
  notMod := none_custom

/-- Left shift and `KC_A` are pressed, and the shift goes away while `KC_A` repeats. -/
def shiftedRepeat : List Event :=
  [.key 0 kcLsft true, .key 10 0x04 true, .scan 200]

theorem released_key_gives_back :
    GivenBack repeating (run (Board.exec repeating silent) ⟨State.start repeating (), []⟩
      (shiftedRepeat ++ [.key 230 0x04 false])) := by
  have neutral (key : BitVec 16) (pressed : Bool) : Neutral silent key pressed :=
    fun _ => ⟨rfl, rfl⟩
  refine shifts_given_back repeating silent () ?_ List.prefix_rfl
  exact ⟨⟨.inl rfl, .inr (.inl ⟨rfl, rfl⟩)⟩, ⟨.inr (.inr (neutral _ _)), .inr (.inl ⟨rfl, rfl⟩)⟩,
    trivial, neutral _ _, trivial⟩

/-- A key that Auto Shift does not know is tapped meanwhile: the release of `KC_A` leaves the
shift away, though it is held. -/
theorem tap_keeps_shift_away :
    ¬GivenBack repeating (run (Board.exec repeating silent) ⟨State.start repeating (), []⟩
      (shiftedRepeat ++ [.key 210 0x28 true, .key 220 0x28 false, .key 230 0x04 false])) := by
  rintro (⟨key, down, auto, -⟩ | ⟨-, -, left, -⟩)
  · have only : key = kcLsft := List.mem_singleton.mp down
    exact (ne_shift_of_auto auto).1 only
  · revert left
    decide

end QmkSonix.AutoShift
