import QmkSonix.Layer.Model

/-! Held keys keep the layer they were pressed on. The cache stores it by bit
planes under an eight-bit key number, so that this holds for matrices of up to
256 keys and fails for larger ones. -/

namespace QmkSonix.Layer

open QmkSonix.Lib

/-- What the cache is for: every key remembers the layer of its last press. -/
structure Memory (cfg : Config) where
  layerOf : KeyPos cfg → Nat := fun _ => 0
  layerState : LayerState cfg := 0
  defaultLayerState : LayerState cfg := 0

section Memory

variable {cfg : Config}

/-- The layer that the layer states select for a key. -/
def Memory.select (keymap : Keymap cfg) (m : Memory cfg) (key : KeyPos cfg) : Nat :=
  topLayer keymap (m.layerState ||| m.defaultLayerState) key cfg.maxLayer

def Memory.press (keymap : Keymap cfg) (m : Memory cfg) (key : KeyPos cfg) : Memory cfg :=
  { m with layerOf := Function.update m.layerOf key (m.select keymap key) }

@[simp] theorem Memory.press_self (keymap : Keymap cfg) (m : Memory cfg) (key : KeyPos cfg) :
    (m.press keymap key).layerOf key = m.select keymap key := Function.update_self ..

theorem Memory.press_of_ne (keymap : Keymap cfg) (m : Memory cfg) {key other : KeyPos cfg}
    (apart : other ≠ key) : (m.press keymap key).layerOf other = m.layerOf other :=
  Function.update_of_ne apart ..

def Memory.step (keymap : Keymap cfg) (m : Memory cfg) : Event cfg → Memory cfg
  | .storeOrGetAction pressed key => if pressed then m.press keymap key else m
  | .getEventKeycode pressed update key => if pressed && update then m.press keymap key else m
  | .setLayers layerState defaultLayerState => { m with layerState, defaultLayerState }

end Memory

section Planes

variable {cfg : Config}

/-- One bit of one plane, as the cache functions address it. -/
def planeBit (cache : Nat → Nat → Byte) (key : KeyPos cfg) (bitNumber : Nat) : Bool :=
  (cache (storageRow key) bitNumber).getLsbD (storageBit key)

theorem storageBit_lt (key : KeyPos cfg) : storageBit key < 8 := Nat.mod_lt _ (by decide)

theorem getLsbD_bitMask (bit other : Nat) (below : other < 8) :
    (bitMask bit).getLsbD other = decide (other = bit) := by
  rw [bitMask, BitVec.getLsbD_shiftLeft]
  by_cases same : other = bit
  · subst same
    simp [below]
  · simp only [below, same, decide_true, Bool.true_and, decide_false, Bool.and_eq_false_iff]
    rcases Nat.lt_or_gt_of_ne same with lower | higher
    · exact .inl (by simpa using lower)
    · have above : ¬other - bit = 0 := by omega
      exact .inr (by simp [above])

/-- `value & (1 << bit)` tests a bit. -/
theorem and_shift_ne_zero (value : Byte) (bit : Nat) (below : bit < 8) :
    value &&& bitMask bit ≠ 0 ↔ value.getLsbD bit = true := by
  constructor
  · intro nonzero
    by_contra clear
    apply nonzero
    apply BitVec.eq_of_getLsbD_eq
    intro other below'
    rw [BitVec.getLsbD_and, getLsbD_bitMask bit other below']
    by_cases same : other = bit
    · subst same
      simpa using clear
    · simp [same]
  · intro present zero
    have bits := congrArg (fun value : Byte => value.getLsbD bit) zero
    simp [getLsbD_bitMask bit bit below, present] at bits

/-- The xor trick of the cache sets one bit and leaves the others. -/
theorem getLsbD_blend (plane : Byte) (wanted : Bool) (bit other : Nat) (below : other < 8) :
    (plane ^^^ (((if wanted then -1 else 0) ^^^ plane) &&& bitMask bit)).getLsbD other =
      if other = bit then wanted else plane.getLsbD other := by
  rw [BitVec.getLsbD_xor, BitVec.getLsbD_and, BitVec.getLsbD_xor, getLsbD_bitMask bit other below]
  have ones : (-1 : Byte) = BitVec.allOnes 8 := by decide
  by_cases same : other = bit
  · subst same
    cases wanted with
    | false => simp
    | true =>
      rw [if_pos rfl, ones, BitVec.getLsbD_allOnes]
      simp [below]
  · simp [same]

section Update

variable (cache : Nat → Nat → Byte) (key other : KeyPos cfg) (layer : Byte)

/-- The cache after `update_source_layers_cache` has gone through `count` planes. -/
def updatePlanes (count : Nat) : Nat → Nat → Byte :=
  (List.range count).foldl
    (fun cache bitNumber =>
      let plane := cache (storageRow key) bitNumber
      let wanted : Byte := if layer &&& bitMask bitNumber ≠ 0 then -1 else 0
      Function.update cache (storageRow key) (Function.update (cache (storageRow key)) bitNumber
        (plane ^^^ ((wanted ^^^ plane) &&& bitMask (storageBit key)))))
    cache

theorem updatePlanes_succ (count : Nat) :
    updatePlanes cache key layer (count + 1) =
      let earlier := updatePlanes cache key layer count
      Function.update earlier (storageRow key) (Function.update (earlier (storageRow key)) count
        (earlier (storageRow key) count ^^^
          (((if layer &&& bitMask count ≠ 0 then -1 else 0) ^^^ earlier (storageRow key) count) &&&
            bitMask (storageBit key)))) := by
  rw [updatePlanes, List.range_succ, List.foldl_append]
  rfl

/-- A key number is its storage row and its storage bit. -/
theorem keyNumber_eq_iff :
    keyNumber other = keyNumber key ↔
      storageRow other = storageRow key ∧ storageBit other = storageBit key := by
  unfold storageRow storageBit
  rw [← BitVec.toNat_inj]
  omega

theorem planeBit_updatePlanes (count bitNumber : Nat) (below : count ≤ 8) :
    planeBit (updatePlanes cache key layer count) other bitNumber =
      if bitNumber < count ∧ keyNumber other = keyNumber key then layer.getLsbD bitNumber
      else planeBit cache other bitNumber := by
  induction count with
  | zero => simp [updatePlanes]
  | succ count ih =>
    have earlier := ih (by omega)
    rw [updatePlanes_succ]
    by_cases row : storageRow other = storageRow key
    · by_cases plane : bitNumber = count
      · subst plane
        have wanted := and_shift_ne_zero layer bitNumber (by omega)
        have unset : ¬bitNumber < bitNumber := Nat.lt_irrefl _
        simp only [unset, false_and, ↓reduceIte] at earlier
        simp only [planeBit, row, Function.update_self, wanted] at earlier ⊢
        rw [getLsbD_blend _ _ _ _ (storageBit_lt other), earlier]
        simp [keyNumber_eq_iff, row]
      · have same : bitNumber < count + 1 ↔ bitNumber < count := by omega
        simp only [same]
        rw [← earlier]
        simp only [planeBit, row, Function.update_self, Function.update_of_ne plane]
    · have apart : keyNumber other ≠ keyNumber key := fun same =>
        row ((keyNumber_eq_iff key other).mp same).1
      simp only [apart, and_false, ↓reduceIte] at earlier ⊢
      rw [← earlier]
      simp only [planeBit, Function.update_of_ne row]

end Update

/-- Reading the planes of a key gives back the bits stored for it. -/
theorem getLsbD_readSourceLayersCache (cache : Nat → Nat → Byte) (key : KeyPos cfg)
    (bitNumber : Nat) (below : bitNumber < 8) :
    (readSourceLayersCache cache key).getLsbD bitNumber =
      (decide (bitNumber < cfg.maxLayerBits) && planeBit cache key bitNumber) := by
  have planes (count : Nat) : ((List.range count).foldl
      (fun layer bitNumber =>
        let bit : Byte :=
          if cache (storageRow key) bitNumber &&& bitMask (storageBit key) ≠ 0 then 1 else 0
        layer ||| (bit <<< bitNumber)) (0 : Byte)).getLsbD bitNumber =
      (decide (bitNumber < count) && planeBit cache key bitNumber) := by
    induction count with
    | zero => simp
    | succ count ih =>
      rw [List.range_succ, List.foldl_append, List.foldl_cons, List.foldl_nil, BitVec.getLsbD_or,
        ih]
      have tested := and_shift_ne_zero (cache (storageRow key) count) _ (storageBit_lt key)
      have shifted : (((if cache (storageRow key) count &&& bitMask (storageBit key) ≠ 0
          then 1 else 0) : Byte) <<< count).getLsbD bitNumber =
          (decide (bitNumber = count) && planeBit cache key count) := by
        simp only [tested]
        cases set : (cache (storageRow key) count).getLsbD (storageBit key) with
        | false => simp [planeBit, set]
        | true =>
          have mask := getLsbD_bitMask count bitNumber below
          rw [if_pos rfl, ← bitMask, mask, planeBit, set, Bool.and_true]
      rw [shifted]
      by_cases here : bitNumber = count
      · subst here
        simp
      · have same : bitNumber < count + 1 ↔ bitNumber < count := by omega
        simp [here, same]
  exact planes cfg.maxLayerBits

end Planes

section Refinement

variable {cfg : Config} {keymap : Keymap cfg} {s : State cfg} {m : Memory cfg}

/-- The cache holds what the keys remember. -/
structure Remembers (s : State cfg) (m : Memory cfg) : Prop where
  enabled : s.disableActionCache = false
  layerState : s.layerState = m.layerState
  defaultLayerState : s.defaultLayerState = m.defaultLayerState
  bounded : ∀ key, m.layerOf key < cfg.maxLayer
  planes : ∀ key, ∀ bitNumber < cfg.maxLayerBits,
    planeBit s.sourceLayersCache key bitNumber = (m.layerOf key).testBit bitNumber

theorem topLayer_lt (keymap : Keymap cfg) (layers : LayerState cfg) (key : KeyPos cfg)
    (positive : 0 < count) : topLayer keymap layers key count < count := by
  induction count with
  | zero => omega
  | succ count ih =>
    rw [topLayer]
    split
    · omega
    · rcases Nat.eq_zero_or_pos count with rfl | more
      · rw [topLayer]
        omega
      · have below := ih more
        omega

theorem maxLayer_le (cfg : Config) : cfg.maxLayer ≤ 32 :=
  calc cfg.maxLayer ≤ 2 ^ cfg.maxLayerBits := cfg.layersFit
    _ ≤ 2 ^ 5 := Nat.pow_le_pow_right (by decide) cfg.bitsFit

/-- Keys that share a key number are the same key, or there is one layer only. -/
theorem same_key (few : cfg.matrixRows * cfg.matrixCols ≤ 256) {key other : KeyPos cfg}
    (same : keyNumber other = keyNumber key) : other = key := by
  have inside (key : KeyPos cfg) : key.col.val + key.row.val * cfg.matrixCols < 256 := by
    have row : (key.row.val + 1) * cfg.matrixCols ≤ cfg.matrixRows * cfg.matrixCols :=
      Nat.mul_le_mul_right _ key.row.isLt
    have col := key.col.isLt
    rw [Nat.succ_mul] at row
    omega
  have numbers : other.col.val + other.row.val * cfg.matrixCols =
      key.col.val + key.row.val * cfg.matrixCols := by
    have values := congrArg BitVec.toNat same
    simp only [keyNumber, BitVec.toNat_ofNat] at values
    rwa [Nat.mod_eq_of_lt (inside other), Nat.mod_eq_of_lt (inside key)] at values
  have cols : other.col.val = key.col.val := by
    have columns := congrArg (· % cfg.matrixCols) numbers
    simpa [Nat.mod_eq_of_lt other.col.isLt, Nat.mod_eq_of_lt key.col.isLt] using columns
  have rows : other.row.val = key.row.val := by
    have positive : 0 < cfg.matrixCols := Nat.lt_of_le_of_lt (Nat.zero_le _) key.col.isLt
    apply Nat.eq_of_mul_eq_mul_right positive
    omega
  obtain ⟨row, col⟩ := other
  obtain ⟨row', col'⟩ := key
  rw [KeyPos.mk.injEq]
  exact ⟨Fin.ext rows, Fin.ext cols⟩

theorem Remembers.read (remembers : Remembers s m) (key : KeyPos cfg) :
    (readSourceLayersCache s.sourceLayersCache key).toNat = m.layerOf key := by
  have small := remembers.bounded key
  have limit := maxLayer_le cfg
  have stored : readSourceLayersCache s.sourceLayersCache key =
      BitVec.ofNat 8 (m.layerOf key) := by
    apply BitVec.eq_of_getLsbD_eq
    intro bitNumber below
    rw [getLsbD_readSourceLayersCache _ _ _ below, BitVec.getLsbD_ofNat]
    by_cases within : bitNumber < cfg.maxLayerBits
    · simp [within, below, remembers.planes key bitNumber within]
    · have high : (m.layerOf key).testBit bitNumber = false := by
        apply Nat.testBit_lt_two_pow
        calc m.layerOf key < cfg.maxLayer := small
          _ ≤ 2 ^ cfg.maxLayerBits := cfg.layersFit
          _ ≤ 2 ^ bitNumber := Nat.pow_le_pow_right (by decide) (Nat.not_lt.mp within)
      simp [within, high]
  rw [stored, BitVec.toNat_ofNat, Nat.mod_eq_of_lt (by omega)]

/-- A press stores the selected layer for its key and for no other. -/
theorem Remembers.press (remembers : Remembers s m)
    (separate : cfg.matrixRows * cfg.matrixCols ≤ 256 ∨ cfg.maxLayer = 1) (keymap : Keymap cfg)
    (key : KeyPos cfg) :
    Remembers
      { s with
        sourceLayersCache := updateSourceLayersCache s.sourceLayersCache key
          (BitVec.ofNat 8 (layerSwitchGetLayer keymap s key)) }
      (m.press keymap key) := by
  have selected : layerSwitchGetLayer keymap s key = m.select keymap key := by
    rw [layerSwitchGetLayer, Memory.select, remembers.layerState, remembers.defaultLayerState]
  have small : m.select keymap key < cfg.maxLayer := topLayer_lt keymap _ key cfg.someLayer
  have limit := cfg.bitsFit
  refine ⟨remembers.enabled, remembers.layerState, remembers.defaultLayerState, ?_, ?_⟩
  · intro other
    by_cases hit : other = key
    · subst hit
      rwa [Memory.press_self]
    · rw [Memory.press_of_ne keymap m hit]
      exact remembers.bounded other
  · intro other bitNumber within
    have planes := planeBit_updatePlanes s.sourceLayersCache key other
      (BitVec.ofNat 8 (layerSwitchGetLayer keymap s key)) cfg.maxLayerBits bitNumber (by omega)
    have narrow : bitNumber < 8 := by omega
    refine planes.trans ?_
    by_cases hit : other = key
    · subst hit
      rw [if_pos ⟨within, rfl⟩, Memory.press_self, selected, BitVec.getLsbD_ofNat]
      simp [narrow]
    · rw [Memory.press_of_ne keymap m hit, ← remembers.planes other bitNumber within]
      by_cases clash : keyNumber other = keyNumber key
      · rcases separate with few | single
        · exact absurd (same_key few clash) hit
        · have held := remembers.bounded other
          have zero : m.layerOf other = 0 := by omega
          have zero' : layerSwitchGetLayer keymap s key = 0 := by omega
          rw [remembers.planes other bitNumber within, zero, zero']
          simp
      · simp [clash]

theorem Remembers.exec (remembers : Remembers s m)
    (separate : cfg.matrixRows * cfg.matrixCols ≤ 256 ∨ cfg.maxLayer = 1) (keymap : Keymap cfg)
    (event : Event cfg) : Remembers (event.exec keymap s) (m.step keymap event) := by
  have enabled : ¬s.disableActionCache = true := by
    rw [remembers.enabled]
    decide
  cases event with
  | storeOrGetAction pressed key =>
    rw [Event.exec, storeOrGetAction, if_neg enabled, Memory.step]
    cases pressed with
    | false => exact remembers
    | true => exact remembers.press separate keymap key
  | getEventKeycode pressed update key =>
    rw [Event.exec, getEventKeycode, if_neg enabled, Memory.step]
    cases pressed && update with
    | false => exact remembers
    | true => exact remembers.press separate keymap key
  | setLayers layerState defaultLayerState =>
    exact ⟨remembers.enabled, rfl, rfl, remembers.bounded, remembers.planes⟩

theorem remembers_initial (cfg : Config) : Remembers ({} : State cfg) {} := by
  refine ⟨rfl, rfl, rfl, fun _ => cfg.someLayer, ?_⟩
  intro key bitNumber _
  simp [planeBit]

end Refinement

section Collision

variable {cfg : Config}

theorem topLayer_none (keymap : Keymap cfg) (key : KeyPos cfg) (count : Nat) :
    topLayer keymap (0 : LayerState cfg) key count = 0 := by
  induction count with
  | zero => rfl
  | succ count ih =>
    rw [topLayer, ih]
    simp

theorem topLayer_one (keymap : Keymap cfg) (key : KeyPos cfg) (wide : 1 < 2 ^ cfg.maxLayerBits)
    (used : keymap 1 key ≠ actionTransparent) (count : Nat) (above : 1 < count) :
    topLayer keymap (BitVec.twoPow _ 1) key count = 1 := by
  induction count with
  | zero => omega
  | succ count ih =>
    rw [topLayer, BitVec.getLsbD_twoPow]
    by_cases here : count = 1
    · subst here
      simp [wide, used]
    · have apart : ¬1 = count := Ne.symm here
      simp [apart, ih (by omega)]

/-- The key with the number 256, which a byte cannot tell from the first key. -/
theorem collision (cfg : Config) (many : 256 < cfg.matrixRows * cfg.matrixCols) :
    ∃ first second : KeyPos cfg, first ≠ second ∧ keyNumber first = keyNumber second := by
  have cols : 0 < cfg.matrixCols := by
    apply Nat.pos_of_ne_zero
    intro none
    rw [none] at many
    omega
  have rows : 256 / cfg.matrixCols < cfg.matrixRows :=
    Nat.div_lt_of_lt_mul (by rwa [Nat.mul_comm])
  have admitted := cfg.colsAdmitted
  have positive : 0 < 256 / cfg.matrixCols := Nat.div_pos (by omega) cols
  refine ⟨⟨⟨0, by omega⟩, ⟨0, cols⟩⟩,
    ⟨⟨256 / cfg.matrixCols, rows⟩, ⟨256 % cfg.matrixCols, Nat.mod_lt _ cols⟩⟩, ?_, ?_⟩
  · intro same
    rw [KeyPos.mk.injEq, Fin.mk.injEq] at same
    omega
  · have total : 256 % cfg.matrixCols + 256 / cfg.matrixCols * cfg.matrixCols = 256 := by
      rw [Nat.mul_comm]
      exact Nat.mod_add_div 256 cfg.matrixCols
    simp [keyNumber, total]

/-- The first key is pressed on layer 1, then the second on layer 0: releasing
the first key acts on layer 0. -/
theorem collision_unsticks (manyLayers : 1 < cfg.maxLayer) {first second : KeyPos cfg}
    (apart : first ≠ second) (same : keyNumber first = keyNumber second) (keymap : Keymap cfg)
    (used : keymap 1 first ≠ actionTransparent) :
    let events : List (Event cfg) := [.setLayers (BitVec.twoPow _ 1) 0,
      .storeOrGetAction true first, .setLayers 0 0, .storeOrGetAction true second]
    (storeOrGetAction keymap (run (Event.exec keymap) {} events) false first).2 =
        keymap 0 first ∧
      (run (Memory.step keymap) {} events).layerOf first = 1 := by
  have wide : 1 < 2 ^ cfg.maxLayerBits := Nat.lt_of_lt_of_le manyLayers cfg.layersFit
  have top := topLayer_one keymap first wide used cfg.maxLayer manyLayers
  have joined : (BitVec.twoPow (2 ^ cfg.maxLayerBits) 1 ||| 0 : LayerState cfg) =
      BitVec.twoPow _ 1 := BitVec.or_zero
  have none := topLayer_none keymap second cfg.maxLayer
  have joined' : (0 ||| 0 : LayerState cfg) = 0 := BitVec.or_zero
  constructor
  · simp only [run_cons, run_nil, Event.exec, storeOrGetAction, Bool.false_eq_true, ↓reduceIte]
    have selected : topLayer keymap (0 ||| 0) second cfg.maxLayer = 0 := by rw [joined', none]
    simp only [layerSwitchGetLayer, selected]
    have erased (cache : Nat → Nat → Byte) : readSourceLayersCache
        (updateSourceLayersCache cache second (BitVec.ofNat 8 0)) first = 0 := by
      apply BitVec.eq_of_getLsbD_eq
      intro bitNumber below
      have limit := cfg.bitsFit
      have planes := planeBit_updatePlanes cache second first (BitVec.ofNat 8 0)
        cfg.maxLayerBits bitNumber (by omega)
      rw [getLsbD_readSourceLayersCache _ _ _ below]
      by_cases within : bitNumber < cfg.maxLayerBits
      · rw [if_pos ⟨within, same⟩] at planes
        rw [updateSourceLayersCache, ← updatePlanes, planes]
        simp
      · simp [within]
    rw [erased]
    rfl
  · simp only [run_cons, run_nil, Memory.step, ↓reduceIte]
    rw [Memory.press_of_ne _ _ apart]
    refine (Memory.press_self ..).trans ?_
    simp only [Memory.select]
    rw [joined, top]

end Collision

/-- A release acts on the layer of the last press of its key, in every run and
under every keymap, exactly when the key numbers fit a byte or there is only one
layer. -/
theorem layers_stick_iff (cfg : Config) :
    (∀ (keymap : Keymap cfg) (events : List (Event cfg)) (key : KeyPos cfg),
        (storeOrGetAction keymap (run (Event.exec keymap) {} events) false key).2 =
          keymap ((run (Memory.step keymap) {} events).layerOf key) key) ↔
      cfg.matrixRows * cfg.matrixCols ≤ 256 ∨ cfg.maxLayer = 1 := by
  constructor
  · intro sticks
    by_contra wide
    obtain ⟨first, second, apart, same⟩ := collision cfg (by omega)
    have manyLayers : 1 < cfg.maxLayer := by
      have some := cfg.someLayer
      omega
    -- a keymap that shows the layer
    obtain ⟨acts, pressed⟩ := collision_unsticks manyLayers apart same
      (fun layer _ => BitVec.ofNat 16 (layer + 2)) (by decide)
    have held := (sticks (fun layer _ => BitVec.ofNat 16 (layer + 2)) _ first).symm.trans acts
    rw [pressed] at held
    exact absurd held (by decide)
  · intro separate keymap events key
    have remembers : Remembers (run (Event.exec keymap) {} events)
        (run (Memory.step keymap) {} events) :=
      run_simulates (fun _ _ event related _ => related.exec separate keymap event)
        (remembers_initial cfg) (along_of_forall (fun _ _ => trivial) _ events)
    have enabled : ¬(run (Event.exec keymap) {} events).disableActionCache = true := by
      rw [remembers.enabled]
      decide
    rw [storeOrGetAction, if_neg enabled, if_neg Bool.false_ne_true]
    exact congrArg (keymap · key) (remembers.read key)

/-- A matrix of 17 rows and 16 columns. -/
def largeConfig : Config where
  matrixRows := 17
  matrixCols := 16
  maxLayerBits := 5
  maxLayer := 32

/-- The first key of the last row has the number of the very first key. -/
theorem large_matrix_unsticks :
    let keymap : Keymap largeConfig := fun layer _ => BitVec.ofNat 16 (layer + 4)
    let held : KeyPos largeConfig := ⟨⟨0, by decide⟩, ⟨0, by decide⟩⟩
    let other : KeyPos largeConfig := ⟨⟨16, by decide⟩, ⟨0, by decide⟩⟩
    let events : List (Event largeConfig) := [.setLayers 2 1, .storeOrGetAction true held,
      .setLayers 0 1, .storeOrGetAction true other]
    (storeOrGetAction keymap (run (Event.exec keymap) {} events) false held).2 = 4 ∧
      (run (Memory.step keymap) {} events).layerOf held = 1 ∧ keymap 1 held = 5 := by
  decide

end QmkSonix.Layer
