import Mathlib
import QmkSonix.Lib.Run

/-! Layer selection and the source layer cache of `action_layer.c`, built
without `STRICT_LAYER_RELEASE`. -/

namespace QmkSonix.Layer

abbrev Byte := BitVec 8

/-- `action_t`, by its code. -/
abbrev Action := BitVec 16

def actionTransparent : Action := 1

/-- The matrix size and the layer options of a build. `keypos_t` holds a row in
a byte, `matrix.h` admits up to 32 columns, and `layer_state_t` has one bit for
each of the `2 ^ MAX_LAYER_BITS` layers. -/
structure Config where
  matrixRows : Nat
  matrixCols : Nat
  maxLayerBits : Nat
  maxLayer : Nat
  rowsFit : matrixRows < 256 := by decide
  colsAdmitted : matrixCols ≤ 32 := by decide
  someLayer : 0 < maxLayer := by decide
  layersFit : maxLayer ≤ 2 ^ maxLayerBits := by decide
  bitsFit : maxLayerBits ≤ 5 := by decide

/-- A key of the matrix. -/
structure KeyPos (cfg : Config) where
  row : Fin cfg.matrixRows
  col : Fin cfg.matrixCols
  deriving DecidableEq

/-- `action_for_key`, by layer and key. -/
abbrev Keymap (cfg : Config) := Nat → KeyPos cfg → Action

abbrev LayerState (cfg : Config) := BitVec (2 ^ cfg.maxLayerBits)

/-- The variables that decide the layer of a key. `sourceLayersCache` has one
plane of key bits for each bit of a layer number. -/
structure State (cfg : Config) where
  sourceLayersCache : Nat → Nat → Byte := fun _ _ => 0
  layerState : LayerState cfg := 0
  defaultLayerState : LayerState cfg := 0
  disableActionCache : Bool := false

section Functions

variable {cfg : Config}

/-- The `key_number` of the cache functions, a `uint8_t`. -/
def keyNumber (key : KeyPos cfg) : Byte :=
  BitVec.ofNat 8 (key.col.val + key.row.val * cfg.matrixCols)

def storageRow (key : KeyPos cfg) : Nat := (keyNumber key).toNat / 8

def storageBit (key : KeyPos cfg) : Nat := (keyNumber key).toNat % 8

/-- `1U << bit` -/
def bitMask (bit : Nat) : Byte := (1 : Byte) <<< bit

/-- `update_source_layers_cache` -/
def updateSourceLayersCache (cache : Nat → Nat → Byte) (key : KeyPos cfg) (layer : Byte) :
    Nat → Nat → Byte :=
  (List.range cfg.maxLayerBits).foldl
    (fun cache bitNumber =>
      let plane := cache (storageRow key) bitNumber
      let wanted : Byte := if layer &&& bitMask bitNumber ≠ 0 then -1 else 0
      Function.update cache (storageRow key) (Function.update (cache (storageRow key)) bitNumber
        (plane ^^^ ((wanted ^^^ plane) &&& bitMask (storageBit key)))))
    cache

/-- `read_source_layers_cache` -/
def readSourceLayersCache (cache : Nat → Nat → Byte) (key : KeyPos cfg) : Byte :=
  (List.range cfg.maxLayerBits).foldl
    (fun layer bitNumber =>
      let bit : Byte :=
        if cache (storageRow key) bitNumber &&& bitMask (storageBit key) ≠ 0 then 1 else 0
      layer ||| (bit <<< bitNumber))
    0

/-- The loop of `layer_switch_get_layer` from layer `count - 1` down. -/
def topLayer (keymap : Keymap cfg) (layers : LayerState cfg) (key : KeyPos cfg) : Nat → Nat
  | 0 => 0
  | i + 1 =>
    if layers.getLsbD i ∧ keymap i key ≠ actionTransparent then i
    else topLayer keymap layers key i

/-- `layer_switch_get_layer` -/
def layerSwitchGetLayer (keymap : Keymap cfg) (s : State cfg) (key : KeyPos cfg) : Nat :=
  topLayer keymap (s.layerState ||| s.defaultLayerState) key cfg.maxLayer

/-- `layer_switch_get_action` -/
def layerSwitchGetAction (keymap : Keymap cfg) (s : State cfg) (key : KeyPos cfg) : Action :=
  keymap (layerSwitchGetLayer keymap s key) key

/-- `store_or_get_action` -/
def storeOrGetAction (keymap : Keymap cfg) (s : State cfg) (pressed : Bool) (key : KeyPos cfg) :
    State cfg × Action :=
  if s.disableActionCache then (s, layerSwitchGetAction keymap s key)
  else if pressed then
    let layer := BitVec.ofNat 8 (layerSwitchGetLayer keymap s key)
    ({ s with sourceLayersCache := updateSourceLayersCache s.sourceLayersCache key layer },
      keymap layer.toNat key)
  else
    let layer := readSourceLayersCache s.sourceLayersCache key
    (s, keymap layer.toNat key)

/-- The layer at which `get_event_keycode` looks up the keycode, with the cache it leaves. -/
def getEventKeycode (keymap : Keymap cfg) (s : State cfg) (pressed updateLayerCache : Bool)
    (key : KeyPos cfg) : State cfg × Byte :=
  if s.disableActionCache then (s, BitVec.ofNat 8 (layerSwitchGetLayer keymap s key))
  else if pressed && updateLayerCache then
    let layer := BitVec.ofNat 8 (layerSwitchGetLayer keymap s key)
    ({ s with sourceLayersCache := updateSourceLayersCache s.sourceLayersCache key layer }, layer)
  else (s, readSourceLayersCache s.sourceLayersCache key)

end Functions

/-- What happens to the cache and the layer states. -/
inductive Event (cfg : Config) where
  | storeOrGetAction (pressed : Bool) (key : KeyPos cfg)
  | getEventKeycode (pressed updateLayerCache : Bool) (key : KeyPos cfg)
  | setLayers (layerState defaultLayerState : LayerState cfg)

def Event.exec {cfg : Config} (keymap : Keymap cfg) (s : State cfg) : Event cfg → State cfg
  | .storeOrGetAction pressed key => (Layer.storeOrGetAction keymap s pressed key).1
  | .getEventKeycode pressed update key => (Layer.getEventKeycode keymap s pressed update key).1
  | .setLayers layerState defaultLayerState => { s with layerState, defaultLayerState }

end QmkSonix.Layer
