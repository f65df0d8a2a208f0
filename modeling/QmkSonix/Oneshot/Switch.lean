import Mathlib
import QmkSonix.Lib.Run
import QmkSonix.Oneshot.Bookkeeping

/-! The switch of the one-shot keys. `oneshot_enable` sets the very flag that
makes the setters refuse, and `is_oneshot_enabled` reports it. -/

namespace QmkSonix.Oneshot

open Lib Layer

variable {cfg : Config}

/-- Commands that are there to create a pending one-shot. -/
def Op.Creates : Op cfg → Prop
  | .setOneshotMods mods => mods ≠ 0
  | .layer (.setOneshotLayer _ _) => True
  | _ => False

/-- The commands mean what `is_oneshot_enabled` reports. A setter makes its
one-shot pending when it reports true and only then, and no one-shot modifier,
one-shot state or one-shot layer outlives switching off. -/
structure Honest (s : State cfg) (op : Op cfg) : Prop where
  modsAsReported : ∀ mods, op = .setOneshotMods mods → mods ≠ 0 → s.oneshotMods ≠ mods →
    ((op.exec s).oneshotMods = mods ↔ isOneshotEnabled s)
  layerAsReported : ∀ layer state, op = .layer (.setOneshotLayer layer state) →
    ¬ isOneshotLayerActive s → (isOneshotLayerActive (op.exec s) ↔ isOneshotEnabled s)
  switchedOff : isOneshotEnabled s → ¬ isOneshotEnabled (op.exec s) →
    (op.exec s).oneshotMods = 0 ∧ ¬ isOneshotLayerActive (op.exec s) ∧
      (isOneshotLayerActive s →
        (op.exec s).layerState.getLsbD (getOneshotLayer s).toNat = false)

/-! ### The switch and the setters -/

@[simp] theorem isOneshotEnabled_clearOneshotLayerState (state : Fullfillment) (s : State cfg) :
    isOneshotEnabled (clearOneshotLayerState state s) = isOneshotEnabled s :=
  exec_oneshotDisable s (.clearOneshotLayerState state)

theorem isOneshotEnabled_oneshotSet (active : Bool) (s : State cfg) :
    isOneshotEnabled (oneshotSet active s) = active := by
  rw [oneshotSet]
  split
  · rw [isOneshotEnabled_clearOneshotLayerState]
    rfl
  · rename_i same
    exact not_not.mp same

@[simp] theorem oneshotMods_clearOneshotLayerState (state : Fullfillment) (s : State cfg) :
    (clearOneshotLayerState state s).oneshotMods = s.oneshotMods := by
  rw [clearOneshotLayerState]
  split <;> rfl

/-- Switching leaves every pending modifier where it is. -/
@[simp] theorem oneshotMods_oneshotSet (active : Bool) (s : State cfg) :
    (oneshotSet active s).oneshotMods = s.oneshotMods := by
  rw [oneshotSet]
  split
  · rw [oneshotMods_clearOneshotLayerState]
  · rfl

/-- `set_oneshot_mods` heeds the opposite of what `is_oneshot_enabled` reports. -/
theorem setOneshotMods_iff {s : State cfg} {mods : Byte} (fresh : s.oneshotMods ≠ mods) :
    (setOneshotMods mods s).oneshotMods = mods ↔ ¬ isOneshotEnabled s := by
  rw [setOneshotMods, isOneshotEnabled]
  cases s.oneshotDisable <;> simp [fresh]

/-- `set_oneshot_layer` heeds the opposite of what `is_oneshot_enabled` reports. -/
theorem setOneshotLayer_iff {s : State cfg} (idle : ¬ isOneshotLayerActive s) (layer : Byte)
    (state : Fullfillment) :
    isOneshotLayerActive (setOneshotLayer layer state s) ↔ ¬ isOneshotEnabled s := by
  rw [isOneshotLayerActive_iff] at idle ⊢
  rw [setOneshotLayer, isOneshotEnabled]
  cases s.oneshotDisable with
  | false =>
    simp only [Bool.false_eq_true, if_false, layerOn, not_false_iff, iff_true]
    rw [packed_state]
    exact fun nothing => state.2 ((setWidth_eq_zero_iff _).mp nothing)
  | true => simpa [layerOn] using idle

/-! ### Runs -/

/-- No one-shot is pending. -/
structure Idle (s : State cfg) : Prop where
  noMods : s.oneshotMods = 0
  noLayer : s.oneshotLayerData = 0

theorem Idle.inactive {s : State cfg} (idle : Idle s) : ¬ isOneshotLayerActive s := by
  rw [isOneshotLayerActive_iff, idle.noLayer]
  decide

theorem Idle.clearOneshotLayerState {s : State cfg} (idle : Idle s) (state : Fullfillment) :
    Idle (clearOneshotLayerState state s) := by
  refine ⟨by rw [oneshotMods_clearOneshotLayerState, idle.noMods], ?_⟩
  rw [Oneshot.clearOneshotLayerState]
  split
  · rfl
  · simp [removeState, idle.noLayer]

theorem Idle.oneshotSet {s : State cfg} (idle : Idle s) (active : Bool) :
    Idle (oneshotSet active s) := by
  rw [Oneshot.oneshotSet]
  split
  · have flagged : Idle { s with oneshotDisable := active } := ⟨idle.noMods, idle.noLayer⟩
    exact flagged.clearOneshotLayerState _
  · exact idle

theorem Idle.exec {s : State cfg} (idle : Idle s) {op : Op cfg} (creates : ¬ op.Creates) :
    Idle (op.exec s) := by
  cases op with
  | oneshotEnable => exact idle.oneshotSet _
  | oneshotDisable => exact idle.oneshotSet _
  | oneshotToggle => exact idle.oneshotSet _
  | setOneshotMods mods =>
    obtain rfl : mods = 0 := not_not.mp creates
    simpa [Op.exec, setOneshotMods, idle.noMods] using idle
  | clearOneshotMods => simpa [Op.exec, clearOneshotMods, idle.noMods] using idle
  | sendKeyboardReport around => simpa [Op.exec, sendKeyboardReport, idle.noMods] using idle
  | layer op =>
    cases op with
    | setOneshotLayer layer state => exact absurd trivial creates
    | clearOneshotLayerState state => exact idle.clearOneshotLayerState state
    | resetOneshotLayer => exact ⟨idle.noMods, rfl⟩

/-- While nothing is pending, a command is honest unless it creates a one-shot. -/
theorem Idle.honest_iff {s : State cfg} (idle : Idle s) (op : Op cfg) :
    Honest s op ↔ ¬ op.Creates := by
  constructor
  · intro honest creates
    cases op with
    | setOneshotMods mods =>
      have fresh : s.oneshotMods ≠ mods := by
        rw [idle.noMods]
        exact Ne.symm creates
      have reported := honest.modsAsReported mods rfl creates fresh
      exact iff_not_self (reported.symm.trans (setOneshotMods_iff fresh))
    | layer op =>
      cases op with
      | setOneshotLayer layer state =>
        have reported := honest.layerAsReported layer state rfl idle.inactive
        exact iff_not_self (reported.symm.trans (setOneshotLayer_iff idle.inactive _ state))
      | clearOneshotLayerState state => exact creates
      | resetOneshotLayer => exact creates
    | _ => exact creates
  · intro creates
    refine ⟨?_, ?_, ?_⟩
    · rintro mods rfl nonzero _
      exact absurd nonzero creates
    · rintro layer state rfl _
      exact absurd trivial creates
    · intro _ _
      have after := idle.exec creates
      exact ⟨after.noMods, after.inactive, fun active => absurd active idle.inactive⟩

/-- The one-shot switch means what it says in a run exactly when the run creates
no one-shot: whatever the stored flag, the first one created is created against
what `is_oneshot_enabled` reports. -/
theorem one_shot_switch_honest_iff (stored : Bool) (layers : LayerState cfg)
    (ops : List (Op cfg)) :
    Along Op.exec Honest { oneshotDisable := stored, layerState := layers } ops ↔
      ∀ op ∈ ops, ¬ op.Creates := by
  have every : ∀ s : State cfg, Idle s →
      (Along Op.exec Honest s ops ↔ ∀ op ∈ ops, ¬ op.Creates) := by
    induction ops with
    | nil => simp [Along]
    | cons op rest ih =>
      intro s idle
      rw [Along, idle.honest_iff, List.forall_mem_cons]
      exact and_congr_right fun creates => ih _ (idle.exec creates)
  exact every _ ⟨rfl, rfl⟩

/-- Enabled one-shot keys refuse a modifier, and one pending beforehand survives
being switched on and off. -/
theorem enabled_one_shot_refused :
    let enabled : State oneKey := oneshotEnable {}
    let switched : State oneKey := oneshotDisable (oneshotEnable (setOneshotMods 2 {}))
    isOneshotEnabled enabled ∧ (setOneshotMods 2 enabled).oneshotMods = 0 ∧
      ¬ Honest enabled (.setOneshotMods 2) ∧
      isOneshotEnabled switched = false ∧ switched.oneshotMods = 2 := by
  intro enabled switched
  have dishonest : ¬ Honest enabled (.setOneshotMods 2) := by
    have idle : Idle enabled := Idle.oneshotSet ⟨rfl, rfl⟩ true
    rw [idle.honest_iff]
    exact fun refused => refused (show (2 : Byte) ≠ 0 by decide)
  exact ⟨by decide, by decide, dishonest, by decide, by decide⟩

end QmkSonix.Oneshot
