import Mathlib
import QmkSonix.Lib.Run
import QmkSonix.Layer.Sticky
import QmkSonix.Oneshot.Model

/-! Which layer the one-shot byte stands for. The byte holds layers below 16
only: from there on its sign bit is a layer bit. -/

namespace QmkSonix.Oneshot

open Lib Layer

/-! ### The packed byte -/

theorem packed_state : ∀ (layer : BitVec 8) (state : BitVec 3),
    (layer <<< 3 ||| state.setWidth 8) &&& 0b111 = state.setWidth 8 := by decide +kernel

theorem packed_msb : ∀ (layer : Fin 32) (state : BitVec 3),
    (BitVec.ofNat 8 layer <<< 3 ||| state.setWidth 8).msb = decide (16 ≤ layer.val) := by
  decide +kernel

theorem packed_layer_iff : ∀ (layer : Fin 32) (state : BitVec 3),
    ((BitVec.ofNat 8 layer <<< 3 ||| state.setWidth 8).sshiftRight 3).toNat = layer ↔
      layer.val < 16 := by decide +kernel

theorem setWidth_eq_zero_iff : ∀ state : BitVec 3, state.setWidth 8 = (0 : BitVec 8) ↔ state = 0 := by
  decide

/-- Removing state bits leaves the layer bits, the sign among them. -/
theorem masked_layer : ∀ (data : BitVec 8) (state : BitVec 3),
    (data &&& ~~~state.setWidth 8).sshiftRight 3 = data.sshiftRight 3 ∧
      (data &&& ~~~state.setWidth 8).msb = data.msb := by decide +kernel

/-- The test of `clear_oneshot_layer_state` on a byte that is not negative. -/
theorem cleared_iff : ∀ (data : BitVec 8) (state : BitVec 3), data.msb = false →
    (((data &&& ~~~state.setWidth 8) &&& 0b111 = 0 ∧
        (data.toNat : Int) ≠ (data &&& ~~~state.setWidth 8).toInt) ↔
      (data &&& 0b111 ≠ 0 ∧ (data &&& 0b111) &&& ~~~state.setWidth 8 = 0)) := by
  decide +kernel

section Runs

variable {cfg : Config}

theorem layer_lt (layer : Fin cfg.maxLayer) : layer.val < 32 := by
  have bits : 2 ^ cfg.maxLayerBits ≤ 2 ^ 5 := Nat.pow_le_pow_right (by decide) cfg.bitsFit
  have layers := cfg.layersFit
  omega

/-- The layer of the latest `set_oneshot_layer`. -/
def remember (last : Option (Fin cfg.maxLayer)) : LayerOp cfg → Option (Fin cfg.maxLayer)
  | .setOneshotLayer layer _ => some layer
  | .clearOneshotLayerState _ => last
  | .resetOneshotLayer => last

def lastSet (ops : List (LayerOp cfg)) : Option (Fin cfg.maxLayer) := run remember none ops

/-- Clearing `state` takes the last state bit away. -/
def RemovesLastBit (state : Fullfillment) (s : State cfg) : Prop :=
  isOneshotLayerActive s ∧ getOneshotLayerState s &&& ~~~state.1.setWidth 8 = 0

instance (state : Fullfillment) (s : State cfg) : Decidable (RemovesLastBit state s) :=
  inferInstanceAs (Decidable (_ ∧ _))

/-- The one-shot layer is the one last set, and clearing turns off that layer
and no other, when the last state bit goes and only then. -/
structure Bookkept (s : State cfg) (last : Option (Fin cfg.maxLayer)) : Prop where
  remembers : isOneshotLayerActive s →
    ∃ layer, last = some layer ∧ (getOneshotLayer s).toNat = layer.val
  turnsOff : ∀ state, layerTurnedOff state s =
    if RemovesLastBit state s then last.map (fun layer => BitVec.ofNat 8 layer.val) else none
  keepsOthers : ∀ state i, (clearOneshotLayerState state s).layerState.getLsbD i =
    (s.layerState.getLsbD i &&
      !decide (RemovesLastBit state s ∧ last.map Fin.val = some i))

/-- What the byte keeps while every layer set is below 16. -/
structure Packed (s : State cfg) (last : Option (Fin cfg.maxLayer)) : Prop where
  enabled : s.oneshotDisable = false
  nonnegative : s.oneshotLayerData.msb = false
  remembers : isOneshotLayerActive s →
    ∃ layer, last = some layer ∧ (getOneshotLayer s).toNat = layer.val

theorem isOneshotLayerActive_iff (s : State cfg) :
    isOneshotLayerActive s ↔ s.oneshotLayerData &&& 0b111 ≠ 0 :=
  decide_eq_true_iff

theorem getLsbD_layerBit (layer : Byte) (i : Nat) :
    (layerBit layer : LayerState cfg).getLsbD i =
      (decide (i < 2 ^ cfg.maxLayerBits) && decide (layer.toNat = i)) := by
  rw [layerBit, BitVec.getLsbD_shiftLeft, BitVec.getLsbD_one]
  by_cases inside : i < 2 ^ cfg.maxLayerBits
  · simp only [inside, decide_true, Bool.true_and]
    grind
  · simp [inside]

theorem getLsbD_layerOff (layer : Byte) (s : State cfg) (i : Nat) :
    (layerOff layer s).layerState.getLsbD i =
      (s.layerState.getLsbD i && !decide (layer.toNat = i)) := by
  rw [layerOff, BitVec.getLsbD_and, BitVec.getLsbD_not, getLsbD_layerBit]
  by_cases inside : i < 2 ^ cfg.maxLayerBits
  · simp [inside]
  · simp [BitVec.getLsbD_of_ge s.layerState i (by omega)]

@[simp] theorem getOneshotLayer_removeState (state : Fullfillment) (s : State cfg) :
    getOneshotLayer (removeState state s) = getOneshotLayer s :=
  (masked_layer s.oneshotLayerData state.1).1

theorem Packed.layerTurnedOff {s : State cfg} {last : Option (Fin cfg.maxLayer)}
    (packed : Packed s last) (state : Fullfillment) :
    layerTurnedOff state s = if RemovesLastBit state s then some (getOneshotLayer s) else none := by
  have test := cleared_iff s.oneshotLayerData state.1 packed.nonnegative
  have same : (getOneshotLayerState (removeState state s) = 0 ∧
      (s.oneshotLayerData.toNat : Int) ≠ (removeState state s).oneshotLayerData.toInt) ↔
      RemovesLastBit state s := by
    rw [RemovesLastBit, isOneshotLayerActive_iff]
    exact test
  simp only [Oneshot.layerTurnedOff, same, packed.enabled, getOneshotLayer_removeState]
  simp

theorem Packed.bookkept {s : State cfg} {last : Option (Fin cfg.maxLayer)}
    (packed : Packed s last) : Bookkept s last := by
  have named : ∀ state, RemovesLastBit state s →
      ∃ layer, last = some layer ∧ getOneshotLayer s = BitVec.ofNat 8 layer.val := by
    intro state removes
    obtain ⟨layer, isLast, number⟩ := packed.remembers removes.1
    exact ⟨layer, isLast, by rw [← number, BitVec.ofNat_toNat, BitVec.setWidth_eq]⟩
  refine ⟨packed.remembers, ?_, ?_⟩
  · intro state
    rw [packed.layerTurnedOff]
    split
    · obtain ⟨layer, isLast, number⟩ := named state ‹_›
      simp [isLast, number]
    · rfl
  · intro state i
    rw [clearOneshotLayerState, packed.layerTurnedOff]
    by_cases removes : RemovesLastBit state s
    · obtain ⟨layer, isLast, number⟩ := named state removes
      have small := layer_lt layer
      have byte : (BitVec.ofNat 8 layer.val).toNat = layer.val := by
        rw [BitVec.toNat_ofNat]
        omega
      simp only [removes, if_true, resetOneshotLayer]
      rw [getLsbD_layerOff, number, byte]
      simp [isLast, removeState]
    · simp [removes, removeState]

/-- Below 16 every step keeps the byte packed. -/
theorem Packed.exec {s : State cfg} {last : Option (Fin cfg.maxLayer)} (packed : Packed s last)
    (op : LayerOp cfg) (low : ∀ layer state, op = .setOneshotLayer layer state → layer.val < 16) :
    Packed (op.exec s) (remember last op) := by
  cases op with
  | setOneshotLayer layer state =>
    have below := low layer state rfl
    have number := (packed_layer_iff ⟨layer.val, layer_lt layer⟩ state.1).mpr below
    have sign := packed_msb ⟨layer.val, layer_lt layer⟩ state.1
    simp only [LayerOp.exec, setOneshotLayer, packed.enabled, Bool.false_eq_true, if_false]
    refine ⟨rfl, sign.trans (by simpa using below), fun _ => ⟨layer, rfl, number⟩⟩
  | clearOneshotLayerState state =>
    simp only [LayerOp.exec, clearOneshotLayerState, packed.layerTurnedOff, remember]
    by_cases removes : RemovesLastBit state s
    · simp only [removes, if_true]
      exact ⟨packed.enabled, BitVec.msb_zero, fun active => by
        simp [resetOneshotLayer, isOneshotLayerActive_iff] at active⟩
    · simp only [removes, if_false]
      refine ⟨packed.enabled, ?_, ?_⟩
      · exact (masked_layer s.oneshotLayerData state.1).2.trans packed.nonnegative
      · intro active
        rw [getOneshotLayer_removeState]
        apply packed.remembers
        rw [isOneshotLayerActive_iff] at active ⊢
        intro nothing
        apply active
        simp only [removeState]
        rw [BitVec.and_assoc, BitVec.and_comm _ 0b111, ← BitVec.and_assoc, nothing]
        exact BitVec.zero_and
  | resetOneshotLayer =>
    exact ⟨packed.enabled, BitVec.msb_zero, fun active => by
      simp [LayerOp.exec, resetOneshotLayer, isOneshotLayerActive_iff] at active⟩

theorem exec_oneshotDisable (s : State cfg) (op : LayerOp cfg) :
    (op.exec s).oneshotDisable = s.oneshotDisable := by
  cases op with
  | setOneshotLayer layer state =>
    simp only [LayerOp.exec, setOneshotLayer]
    split <;> rfl
  | clearOneshotLayerState state =>
    simp only [LayerOp.exec, clearOneshotLayerState]
    split <;> rfl
  | resetOneshotLayer => rfl

/-- From layer 16 on the layer read back is not the layer set. -/
theorem not_bookkept_of_high {s : State cfg} (enabled : s.oneshotDisable = false)
    {layer : Fin cfg.maxLayer} (state : Fullfillment) (high : 16 ≤ layer.val) :
    ¬ Bookkept (LayerOp.exec s (.setOneshotLayer layer state)) (some layer) := by
  intro kept
  have active : isOneshotLayerActive (LayerOp.exec s (.setOneshotLayer layer state)) := by
    rw [isOneshotLayerActive_iff]
    simp only [LayerOp.exec, setOneshotLayer, enabled, Bool.false_eq_true, if_false, layerOn]
    rw [packed_state]
    exact fun nothing => state.2 ((setWidth_eq_zero_iff _).mp nothing)
  obtain ⟨same, isLast, number⟩ := kept.remembers active
  obtain rfl : layer = same := Option.some.inj isLast
  have below : layer.val < 16 := by
    apply (packed_layer_iff ⟨layer.val, layer_lt layer⟩ state.1).mp
    simpa [LayerOp.exec, setOneshotLayer, enabled, layerOn, getOneshotLayer] using number
  omega

/-- The one-shot layer is kept track of throughout a run exactly when no layer
from 16 on becomes a one-shot layer in it. -/
theorem one_shot_layer_bookkept_iff (layers : LayerState cfg) (ops : List (LayerOp cfg)) :
    (∀ cut, Bookkept (run LayerOp.exec { layerState := layers } (ops.take cut))
      (lastSet (ops.take cut))) ↔
    ∀ layer state, .setOneshotLayer layer state ∈ ops → layer.val < 16 := by
  constructor
  · intro kept layer state member
    by_contra high
    obtain ⟨earlier, later, rfl⟩ := List.append_of_mem member
    have here := kept (earlier.length + 1)
    rw [List.take_append, List.take_of_length_le (by omega)] at here
    simp only [Nat.add_sub_cancel_left, List.take_succ_cons, List.take_zero, lastSet,
      run_append, run_cons, run_nil, remember] at here
    have keeps : ∀ (s : State cfg) (op : LayerOp cfg), s.oneshotDisable = false → True →
        (op.exec s).oneshotDisable = false :=
      fun s op enabled _ => (exec_oneshotDisable s op).trans enabled
    exact not_bookkept_of_high
      (run_invariant keeps rfl (along_of_forall (fun _ _ => trivial) _ earlier)) state
      (by omega) here
  · intro low cut
    have keeps : ∀ (s : State cfg) (last : Option (Fin cfg.maxLayer)) (op : LayerOp cfg),
        Packed s last → (∀ layer state, op = .setOneshotLayer layer state → layer.val < 16) →
        Packed (op.exec s) (remember last op) :=
      fun s last op packed fine => packed.exec op fine
    have initial : Packed ({ layerState := layers } : State cfg) none :=
      ⟨rfl, BitVec.msb_zero, fun active => by simp [isOneshotLayerActive_iff] at active⟩
    rw [lastSet]
    apply Packed.bookkept
    refine run_simulates keeps initial (along_of_mem ?_ _)
    rintro op member layer state rfl
    exact low layer state (List.mem_of_mem_take member)

end Runs

/-- A one-key build with the default 32 layers. -/
def oneKey : Config :=
  { largeConfig with
    matrixRows := 1
    matrixCols := 1
    rowsFit := by decide
    colsAdmitted := by decide }

/-- Layer 16 is read back as layer 240, and is still on when the one-shot is over. -/
theorem layer_sixteen_misread :
    let set : LayerOp oneKey := .setOneshotLayer ⟨16, by decide⟩ oneshotStart
    let cleared := [set, .clearOneshotLayerState oneshotPressed,
      .clearOneshotLayerState oneshotOtherKeyPressed]
    ¬ Bookkept (run LayerOp.exec {} [set]) (lastSet [set]) ∧
      getOneshotLayer (run LayerOp.exec {} [set]) = 240 ∧
      (run LayerOp.exec {} cleared).oneshotLayerData = 0 ∧
      (run LayerOp.exec {} cleared).layerState.getLsbD 16 := by
  intro set cleared
  have misread : ¬ Bookkept (LayerOp.exec {} set) (some ⟨16, by decide⟩) :=
    not_bookkept_of_high rfl oneshotStart (by decide)
  exact ⟨misread, by decide, by decide, by decide⟩

end QmkSonix.Oneshot
