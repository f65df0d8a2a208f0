import QmkSonix.Keycodes.Meaning

/-! The layers over whole runs of key records: they are the ones that the keymap means, and
no layer stays on for a key that has been released. -/

namespace QmkSonix.Keycodes

open Lib
open Keyboard (KeyRecord Tap)
open Layer (Byte Config LayerState KeyPos Remembers topLayer actionTransparent)
open Oneshot (World Build matrixKey layerBit isOneshotLayerActive memoryOf)
open Tapping (Action isNoEvent)

section Keymap

variable {cfg : Config}

/-- A keymap of the layers of a build. -/
abbrev Keys (cfg : Config) := Fin cfg.maxLayer → KeyPos cfg → Binding cfg

/-- The firmware with a keymap. The source layers are cached, and every record is passed
on to `process_action`. -/
def firmwareOf (options : Options) (config : KeymapConfig) (taps : ℕ) (keys : Keys cfg) :
    Build cfg where
  keymap := fun layer key =>
    if inside : layer < cfg.maxLayer then
      actionForKeycode options config (keys ⟨layer, inside⟩ key).keycode
    else 0
  tappingToggle := taps

/-- The layers of a keymap: those that are on, the default ones, and for each key the
layer on which it was pressed last. -/
structure Desk (cfg : Config) where
  on : Finset (Fin cfg.maxLayer) := ∅
  base : Finset (Fin cfg.maxLayer) := ∅
  source : KeyPos cfg → Fin cfg.maxLayer := fun _ => ⟨0, cfg.someLayer⟩

namespace Desk

variable (keys : Keys cfg) (desk : Desk cfg)

/-- The layers on which a key is not transparent. -/
def candidates (key : KeyPos cfg) : Finset (Fin cfg.maxLayer) :=
  (desk.on ∪ desk.base).filter fun layer => keys layer key ≠ .transparent

/-- The layer on which a key is pressed: the highest on which it is not transparent. -/
def select (key : KeyPos cfg) : Fin cfg.maxLayer :=
  if some : (desk.candidates keys key).Nonempty then (desk.candidates keys key).max' some
  else ⟨0, cfg.someLayer⟩

/-- What a key does when a record about it is processed. -/
def layerFor (record : KeyRecord) (key : KeyPos cfg) : Fin cfg.maxLayer :=
  if record.pressed then desk.select keys key else desk.source key

/-- A record is processed. A release does what its press was for. -/
def feed (taps : ℕ) (desk : Desk cfg) (record : KeyRecord) : Desk cfg :=
  if isNoEvent record.event then desk
  else
    match matrixKey record.key with
    | some key =>
      let layer := desk.layerFor keys record key
      { on := (keys layer key).turn taps record desk.on
        base := (keys layer key).turnDefault record desk.base
        source := Function.update desk.source key layer }
    | none => desk

end Desk

theorem topLayer_spec (keymap : Layer.Keymap cfg) (layers : LayerState cfg) (key : KeyPos cfg)
    (count : ℕ) :
    (∀ i < count, layers.getLsbD i = true → keymap i key ≠ actionTransparent →
      i ≤ topLayer keymap layers key count) ∧
      (topLayer keymap layers key count = 0 ∨
        layers.getLsbD (topLayer keymap layers key count) = true ∧
          keymap (topLayer keymap layers key count) key ≠ actionTransparent) := by
  induction count with
  | zero => exact ⟨fun i below => absurd below (Nat.not_lt_zero i), .inl rfl⟩
  | succ count ih =>
    rw [topLayer]
    split
    · next taken => exact ⟨fun i below _ _ => Nat.lt_succ_iff.mp below, .inr taken⟩
    · next passed =>
      refine ⟨fun i below set visible => ?_, ih.2⟩
      rcases Nat.lt_succ_iff_lt_or_eq.mp below with lower | rfl
      · exact ih.1 i lower set visible
      · exact absurd ⟨set, visible⟩ passed

variable {options : Options} {config : KeymapConfig} {taps : ℕ} {keys : Keys cfg}
  {world : World cfg} {desk : Desk cfg} {record : KeyRecord} {key : KeyPos cfg}

theorem keymap_eq (layer : Fin cfg.maxLayer) (key : KeyPos cfg) :
    (firmwareOf options config taps keys).keymap layer key =
      actionForKeycode options config (keys layer key).keycode :=
  dif_pos layer.isLt

/-- The firmware has the layers of the keymap, and its cache the layer of every press. No
one-shot layer is pending. -/
structure Follows (build : Build cfg) (world : World cfg) (desk : Desk cfg) : Prop where
  idle : world.oneshot.oneshotLayerData = 0
  on : Shows world.oneshot.layerState desk.on
  base : Shows world.defaultLayerState desk.base
  source : Remembers (build.layers world) (memoryOf world fun key => (desk.source key).val)

theorem Follows.select (follows : Follows (firmwareOf options config taps keys) world desk)
    (layered : options.actionLayer = true) :
    Layer.layerSwitchGetLayer (firmwareOf options config taps keys).keymap
      ((firmwareOf options config taps keys).layers world) key = (desk.select keys key).val := by
  let build := firmwareOf options config taps keys
  have bits (layer : Fin cfg.maxLayer) :
      (world.oneshot.layerState ||| world.defaultLayerState).getLsbD layer.val = true ↔
        layer ∈ desk.on ∪ desk.base := by
    rw [BitVec.getLsbD_or, Bool.or_eq_true, follows.on.mem, follows.base.mem, Finset.mem_union]
  have shown (layer : Fin cfg.maxLayer) :
      build.keymap layer key ≠ actionTransparent ↔ keys layer key ≠ .transparent := by
    rw [keymap_eq]
    exact not_congr (binding_means layered _).visible
  obtain ⟨above, taken⟩ := topLayer_spec build.keymap
    (world.oneshot.layerState ||| world.defaultLayerState) key cfg.maxLayer
  have found : ∃ layer : Fin cfg.maxLayer, layer.val = topLayer build.keymap
      (world.oneshot.layerState ||| world.defaultLayerState) key cfg.maxLayer :=
    ⟨⟨_, Layer.topLayer_lt _ _ _ cfg.someLayer⟩, rfl⟩
  obtain ⟨top, isTop⟩ := found
  rw [← isTop] at above taken
  have candidate (layer : Fin cfg.maxLayer) : layer ∈ desk.candidates keys key ↔
      (world.oneshot.layerState ||| world.defaultLayerState).getLsbD layer.val = true ∧
        build.keymap layer key ≠ actionTransparent := by
    rw [Desk.candidates, Finset.mem_filter, bits, shown]
  have highest (layer : Fin cfg.maxLayer) (member : layer ∈ desk.candidates keys key) :
      layer ≤ top :=
    above layer layer.isLt ((candidate layer).mp member).1 ((candidate layer).mp member).2
  change topLayer build.keymap _ key cfg.maxLayer = _
  refine isTop.symm.trans (congrArg Fin.val ?_)
  rw [Desk.select]
  split
  · next some =>
    refine le_antisymm ?_ (highest _ (Finset.max'_mem _ some))
    rcases taken with zero | taken
    · exact Fin.le_def.mpr (zero ▸ Nat.zero_le _)
    · exact Finset.le_max' _ _ ((candidate top).mpr taken)
  · next none =>
    rcases taken with zero | taken
    · exact Fin.ext zero
    · exact absurd ⟨top, (candidate top).mpr taken⟩ none

/-- Without a pending one-shot layer a record runs the switch once. -/
theorem processRecord_idle (build : Build cfg) (passes : build.processRecordQuantum record = true)
    (idle : world.oneshot.oneshotLayerData = 0) (event : isNoEvent record.event = false) :
    (build.firmware.processRecord world record).world =
      let stored := build.storeOrGetAction world record.pressed record.key
      build.perform stored.2 record stored.1 := by
  have same : (build.storeOrGetAction world record.pressed record.key).2.oneshot =
      world.oneshot := by
    rw [Build.storeOrGetAction]
    split <;> rfl
  have inactive : isOneshotLayerActive
      (build.storeOrGetAction world record.pressed record.key).2.oneshot = false := by
    rw [same, isOneshotLayerActive, Oneshot.getOneshotLayerState, idle]
    rfl
  simp only [Tapping.Firmware.processRecord, Tapping.Firmware.processRecordBody, event,
    Build.firmware_processRecordQuantum, passes, Tapping.Firmware.processRecordHandler,
    Build.firmware_storeOrGetAction, Tapping.Firmware.processAction,
    Tapping.Firmware.usesOneshotLayer, Build.firmware_isOneshotLayerActive, inactive,
    Build.firmware_perform, Build.firmware_postProcessRecordQuantum, Bool.false_eq_true, if_false,
    if_true, false_and, decide_false, Bool.false_and]

theorem perform_means {binding : Binding cfg} {action : Action} {build : Build cfg}
    (means : Means action binding) (on : Shows world.oneshot.layerState desk.on)
    (base : Shows world.defaultLayerState desk.base) :
    let after := build.perform world record action
    after.oneshot.oneshotLayerData = world.oneshot.oneshotLayerData ∧
      Shows after.oneshot.layerState (binding.turn build.tappingToggle record desk.on) ∧
      Shows after.defaultLayerState (binding.turnDefault record desk.base) := by
  simp only [Build.perform, means.notOneshot, Bool.false_eq_true, if_false, true_and]
  exact ⟨means.turn build record _ _ on, means.turnDefault record _ _ base⟩

/-- What a record finds in the keymap, and what the cache remembers then. -/
theorem Follows.stored (follows : Follows (firmwareOf options config taps keys) world desk)
    (layered : options.actionLayer = true)
    (separate : cfg.matrixRows * cfg.matrixCols ≤ 256 ∨ cfg.maxLayer = 1)
    (inMatrix : matrixKey record.key = some key) :
    let build := firmwareOf options config taps keys
    let layer := desk.layerFor keys record key
    let stored := build.storeOrGetAction world record.pressed record.key
    stored.1 = actionForKeycode options config (keys layer key).keycode ∧
      stored.2.oneshot = world.oneshot ∧ stored.2.defaultLayerState = world.defaultLayerState ∧
      Remembers (build.layers stored.2)
        (memoryOf stored.2 fun other => (Function.update desk.source key layer other).val) := by
  intro build layer stored
  have enabled : ¬(build.layers world).disableActionCache = true := by
    rw [follows.source.enabled]
    decide
  have selected := @Follows.select _ _ _ _ _ _ _ key follows layered
  have limit := layer_lt (desk.select keys key)
  cases pressed : record.pressed with
  | true =>
    have there : layer = desk.select keys key := if_pos pressed
    have found : stored = (build.keymap layer key, { world with
        sourceLayersCache := Layer.updateSourceLayersCache world.sourceLayersCache key
          (BitVec.ofNat 8 layer.val) }) := by
      simp only [stored, Build.storeOrGetAction, inMatrix, Layer.storeOrGetAction, if_neg enabled,
        pressed, if_true, build, selected, BitVec.toNat_ofNat, there]
      rw [Nat.mod_eq_of_lt (by omega)]
      rfl
    rw [found]
    refine ⟨@keymap_eq _ options config taps keys _ _, rfl, rfl, ?_⟩
    have remembers := follows.source.press separate build.keymap key
    have sources : (fun other => (Function.update desk.source key layer other).val) =
        Function.update (fun other => (desk.source other).val) key layer.val := by
      funext other
      by_cases same : other = key
      · rw [same, Function.update_self, Function.update_self]
      · rw [Function.update_of_ne same, Function.update_of_ne same]
    have chosen : (memoryOf world fun other => (desk.source other).val).select build.keymap key =
        layer.val := selected.trans (congrArg Fin.val there.symm)
    rw [Layer.Memory.press, chosen, selected, ← there] at remembers
    rw [sources]
    exact remembers
  | false =>
    have there : layer = desk.source key := if_neg (by simp [pressed])
    have kept : (Layer.storeOrGetAction build.keymap (build.layers world) false key).1 =
        build.layers world := by
      rw [Layer.storeOrGetAction, if_neg enabled, if_neg Bool.false_ne_true]
    have found : stored = (build.keymap layer key, world) := by
      simp only [stored, Build.storeOrGetAction, inMatrix, pressed]
      rw [Oneshot.release_remembered build follows.source, kept, there]
      rfl
    rw [found]
    refine ⟨@keymap_eq _ options config taps keys _ _, rfl, rfl, ?_⟩
    rw [there, Function.update_eq_self]
    exact follows.source

/-- The firmware does with a record what the keymap means. -/
theorem Follows.feed (follows : Follows (firmwareOf options config taps keys) world desk)
    (layered : options.actionLayer = true)
    (separate : cfg.matrixRows * cfg.matrixCols ≤ 256 ∨ cfg.maxLayer = 1) (record : KeyRecord) :
    Follows (firmwareOf options config taps keys)
      ((firmwareOf options config taps keys).firmware.processRecord world record).world
      (desk.feed keys taps record) := by
  let build := firmwareOf options config taps keys
  by_cases event : isNoEvent record.event = true
  · have same : (build.firmware.processRecord world record).world = world := by
      rw [Tapping.Firmware.processRecord, Tapping.Firmware.processRecordBody, if_pos event]
    rw [same, Desk.feed, if_pos event]
    exact follows
  · have real : isNoEvent record.event = false := Bool.eq_false_iff.mpr event
    rw [processRecord_idle build rfl follows.idle real, Desk.feed, if_neg event]
    cases inMatrix : matrixKey record.key with
    | none =>
      have stored : build.storeOrGetAction world record.pressed record.key = (0, world) := by
        rw [Build.storeOrGetAction, inMatrix]
      rw [stored]
      have plain : Plain 0 := plain_of_basic (by decide) (by decide) (by decide)
      have means : Means (0 : Action) (.plain ⟨0, plain⟩ : Binding cfg) :=
        quiet_means ⟨by decide, by decide⟩ (fun _ _ _ => rfl) (fun _ _ => rfl) (by simp)
      obtain ⟨data, on, base⟩ :=
        @perform_means _ _ desk record _ _ build means follows.on follows.base
      exact ⟨data.trans follows.idle, on, base,
        Oneshot.remembers_after build follows.source rfl rfl⟩
    | some key =>
      obtain ⟨found, oneshot, base, remembers⟩ := follows.stored layered separate inMatrix
      have means := @binding_means _ options config layered
        (keys (desk.layerFor keys record key) key)
      rw [← found] at means
      obtain ⟨data, on, base⟩ := @perform_means _ _ desk record _ _ build means
        (by rw [oneshot]; exact follows.on) (by rw [base]; exact follows.base)
      refine ⟨data.trans (by rw [oneshot]; exact follows.idle), on, base, ?_⟩
      exact Oneshot.remembers_after build remembers rfl rfl

/-- `process_record` with a record. -/
def process (build : Build cfg) (world : World cfg) (record : KeyRecord) : World cfg :=
  (build.firmware.processRecord world record).world

theorem follows_start {bits : LayerState cfg} {base : Finset (Fin cfg.maxLayer)}
    (shows : Shows bits base) :
    Follows (firmwareOf options config taps keys) { defaultLayerState := bits }
      { base := base } :=
  ⟨rfl, shows_nothing, shows,
    @Oneshot.remembers_after _ (firmwareOf options config taps keys) {} _ _
      (Layer.remembers_initial cfg) rfl rfl⟩

theorem follows_run (layered : options.actionLayer = true)
    (separate : cfg.matrixRows * cfg.matrixCols ≤ 256 ∨ cfg.maxLayer = 1)
    {bits : LayerState cfg} {base : Finset (Fin cfg.maxLayer)} (shows : Shows bits base)
    (records : List KeyRecord) :
    Follows (firmwareOf options config taps keys)
      (run (process (firmwareOf options config taps keys)) { defaultLayerState := bits } records)
      (run (Desk.feed keys taps) { base := base } records) :=
  run_simulates (fun _ _ record follows _ => follows.feed layered separate record)
    (follows_start shows) (along_of_forall (fun _ _ => trivial) _ records)

/-- In every run of key records, through the keymap as it is compiled to actions, the bits
of `layer_state` and `default_layer_state` are the layers that the keycodes stand for, a
key acts on the highest of them on which it is not transparent, and its release on the
layer of its press. -/
theorem layers_follow_keymap (layered : options.actionLayer = true)
    (separate : cfg.matrixRows * cfg.matrixCols ≤ 256 ∨ cfg.maxLayer = 1)
    {bits : LayerState cfg} {base : Finset (Fin cfg.maxLayer)} (shows : Shows bits base)
    (records : List KeyRecord) :
    let build := firmwareOf options config taps keys
    let world := run (process build) { defaultLayerState := bits } records
    let desk := run (Desk.feed keys taps) { base := base } records
    Shows world.oneshot.layerState desk.on ∧ Shows world.defaultLayerState desk.base ∧
      ∀ key, Layer.layerSwitchGetLayer build.keymap (build.layers world) key =
          (desk.select keys key).val ∧
        (Layer.readSourceLayersCache world.sourceLayersCache key).toNat =
          (desk.source key).val := by
  have follows := @follows_run _ options config taps keys layered separate _ _ shows records
  exact ⟨follows.on, follows.base, fun key => ⟨follows.select layered, follows.source.read key⟩⟩

/-- The layers of a board with two keys. -/
def twoKeys : Config where
  matrixRows := 1
  matrixCols := 2
  maxLayerBits := 1
  maxLayer := 2
  rowsFit := (by decide : 1 + 0 < 256)
  colsAdmitted := (by decide : 2 + 0 ≤ 32)
  someLayer := (by decide : 0 < 1 + 1)

/-- A momentary key for layer 1 and a letter on both layers. -/
def fnKeys : Keys twoKeys := fun layer key =>
  if key.col.val = 1 then .plain ⟨4, plain_of_basic (by decide) (by decide) (by decide)⟩
  else if layer.val = 0 then .momentary ⟨1, by decide⟩
  else .transparent

/-- A record about one of two keys. -/
def keyRecord (col : Byte) (pressed : Bool) : KeyRecord where
  event := { key := ⟨0, col⟩, pressed := pressed, time := 1 }

def lowest : Fin twoKeys.maxLayer := ⟨0, by decide⟩

theorem layers_follow_keymap_held :
    let world := run (process (firmwareOf {} {} 5 fnKeys))
      { defaultLayerState := layerBit (layerByte lowest) } [keyRecord 0 true]
    world.oneshot.layerState.getLsbD 1 = true := by
  have follows := @layers_follow_keymap twoKeys {} {} 5 fnKeys rfl (.inl (by decide)) _ _
    (@shows_bit twoKeys lowest) [keyRecord 0 true]
  exact (@Shows.mem _ _ _ ⟨1, by decide⟩ follows.1).mpr (by decide)

end Keymap

/-! ### No layer gets stuck -/

namespace Binding

variable {cfg : Config}

/-- The layer that a key holds on while it is down. -/
def held (tap : Tap) : Binding cfg → Option (Fin cfg.maxLayer)
  | .momentary layer => some layer
  | .layerMod layer _ => some layer.val
  | .layerTap layer _ => if 0 < tap.count then none else some layer.val
  | _ => none

/-- Keys that switch a layer on to stay. -/
def latches : Binding cfg → Bool
  | .moveTo _ | .toggle _ | .tapToggle _ => true
  | _ => false

/-- The layers switched on to stay. The release of a key takes the layer it held back. -/
def latch (taps : ℕ) (record : KeyRecord) (on latched : Finset (Fin cfg.maxLayer))
    (binding : Binding cfg) : Finset (Fin cfg.maxLayer) :=
  if binding.latches then
    binding.turn taps record on \ (on \ latched)
  else
    match binding.held record.tap with
    | some layer => if record.pressed then latched else latched.erase layer
    | none => latched

end Binding

section Sittings

variable {cfg : Config}

/-- The layers, the keys that are down with their taps, and what has been switched on to
stay. -/
structure Sitting (cfg : Config) where
  desk : Desk cfg := {}
  down : KeyPos cfg → Option Tap := fun _ => none
  latched : Finset (Fin cfg.maxLayer) := ∅

/-- A record is processed. -/
def Sitting.feed (keys : Keys cfg) (taps : ℕ) (sitting : Sitting cfg) (record : KeyRecord) :
    Sitting cfg :=
  if isNoEvent record.event then sitting
  else
    match matrixKey record.key with
    | some key =>
      { desk := sitting.desk.feed keys taps record
        down := Function.update sitting.down key (if record.pressed then some record.tap else none)
        latched := (keys (sitting.desk.layerFor keys record key) key).latch taps record
          sitting.desk.on sitting.latched }
    | none => sitting

/-- A press of a key that is up, or the release of one that is down, with the tap of its
press. -/
def Turn (sitting : Sitting cfg) (record : KeyRecord) : Prop :=
  isNoEvent record.event = false ∧ ∃ key, matrixKey record.key = some key ∧
    sitting.down key = if record.pressed then none else some record.tap

/-- A key that is down holds a layer on. -/
def Held (keys : Keys cfg) (sitting : Sitting cfg) (layer : Fin cfg.maxLayer) : Prop :=
  ∃ key tap, sitting.down key = some tap ∧
    (keys (sitting.desk.source key) key).held tap = some layer

/-- Every layer that is on was switched on to stay or is held. -/
def Owned (keys : Keys cfg) (sitting : Sitting cfg) : Prop :=
  ∀ layer ∈ sitting.desk.on, layer ∈ sitting.latched ∨ Held keys sitting layer

variable {keys : Keys cfg} {taps : ℕ} {sitting : Sitting cfg} {record : KeyRecord}
  {layer : Fin cfg.maxLayer} {binding : Binding cfg} {on latched : Finset (Fin cfg.maxLayer)}

theorem sitting_desk (sitting : Sitting cfg) (record : KeyRecord) :
    (sitting.feed keys taps record).desk = sitting.desk.feed keys taps record := by
  rw [Sitting.feed, Desk.feed]
  split
  · rfl
  · cases found : matrixKey record.key with
    | none => rfl
    | some key => simp [Desk.feed, found, *]

theorem held_of_latches (latches : binding.latches = true) (tap : Tap) :
    binding.held tap = none := by
  cases binding <;> first | rfl | cases latches

/-- A key that switches nothing on to stay holds a layer or leaves the layers alone. -/
theorem turn_of_held (passing : binding.latches = false) :
    (binding.held record.tap = none ∧ binding.turn taps record on = on) ∨
      ∃ layer, binding.held record.tap = some layer ∧
        binding.turn taps record on = Binding.hold record layer on := by
  cases binding with
  | transparent => exact .inl ⟨rfl, rfl⟩
  | plain _ => exact .inl ⟨rfl, rfl⟩
  | setDefault _ => exact .inl ⟨rfl, rfl⟩
  | momentary layer => exact .inr ⟨layer, rfl, rfl⟩
  | layerMod layer _ => exact .inr ⟨layer, rfl, rfl⟩
  | layerTap layer _ =>
    by_cases typed : 0 < record.tap.count
    · exact .inl ⟨if_pos typed, if_pos typed⟩
    · exact .inr ⟨layer, if_neg typed, if_neg typed⟩
  | moveTo _ => cases passing
  | toggle _ => cases passing
  | tapToggle _ => cases passing

/-- Where a layer that is on after a record comes from. -/
theorem turn_cases (after : layer ∈ binding.turn taps record on) :
    layer ∈ binding.latch taps record on latched ∨
      (record.pressed = true ∧ binding.held record.tap = some layer) ∨
      (layer ∈ on ∧ layer ∉ latched ∧
        (record.pressed = false → binding.held record.tap ≠ some layer)) := by
  by_cases stays : binding.latches = true
  · by_cases old : layer ∈ on ∧ layer ∉ latched
    · refine .inr (.inr ⟨old.1, old.2, fun _ => ?_⟩)
      rw [held_of_latches stays]
      exact nofun
    · left
      rw [Binding.latch, if_pos stays, Finset.mem_sdiff, Finset.mem_sdiff]
      exact ⟨after, old⟩
  · have passing := Bool.eq_false_iff.mpr stays
    rw [Binding.latch, if_neg stays]
    by_cases kept : layer ∈ latched
    · rcases @turn_of_held _ taps record _ on passing with ⟨none, -⟩ | ⟨own, held, turned⟩
      · left
        rwa [none]
      · rw [held]
        rw [turned, Binding.hold] at after
        cases pressed : record.pressed with
        | true => exact .inl kept
        | false =>
          rw [pressed] at after
          exact .inl (Finset.mem_erase.mpr ⟨(Finset.mem_erase.mp after).1, kept⟩)
    · rcases @turn_of_held _ taps record _ on passing with ⟨none, turned⟩ | ⟨own, held, turned⟩
      · rw [turned] at after
        refine .inr (.inr ⟨after, kept, fun _ => ?_⟩)
        rw [none]
        exact nofun
      · rw [turned, Binding.hold] at after
        rw [held]
        cases pressed : record.pressed with
        | true =>
          rw [pressed, if_pos rfl, Finset.mem_insert] at after
          rcases after with rfl | before
          · exact .inr (.inl ⟨rfl, rfl⟩)
          · exact .inr (.inr ⟨before, kept, fun released => absurd released (by decide)⟩)
        | false =>
          rw [pressed] at after
          obtain ⟨apart, before⟩ := Finset.mem_erase.mp after
          exact .inr (.inr ⟨before, kept, fun _ same => apart (Option.some.inj same).symm⟩)

theorem Owned.feed (owned : Owned keys sitting) (turn : Turn sitting record) :
    Owned keys (sitting.feed keys taps record) := by
  obtain ⟨event, key, inMatrix, state⟩ := turn
  have real : ¬isNoEvent record.event = true := Bool.eq_false_iff.mp event
  intro layer after
  have fed : sitting.feed keys taps record =
      { desk := sitting.desk.feed keys taps record
        down := Function.update sitting.down key (if record.pressed then some record.tap else none)
        latched := (keys (sitting.desk.layerFor keys record key) key).latch taps record
          sitting.desk.on sitting.latched } := by
    rw [Sitting.feed, if_neg real, inMatrix]
  have desk : sitting.desk.feed keys taps record =
      { on := (keys (sitting.desk.layerFor keys record key) key).turn taps record sitting.desk.on
        base := (keys (sitting.desk.layerFor keys record key) key).turnDefault record
          sitting.desk.base
        source := Function.update sitting.desk.source key
          (sitting.desk.layerFor keys record key) } := by
    rw [Desk.feed, if_neg real, inMatrix]
  rw [fed, desk] at after ⊢
  rcases @turn_cases _ taps record layer _ _ sitting.latched after with
    latched | ⟨pressed, held⟩ | ⟨before, unlatched, given⟩
  · exact .inl latched
  · refine .inr ⟨key, record.tap, ?_, ?_⟩
    · exact (Function.update_self ..).trans (if_pos pressed)
    · show (keys (Function.update sitting.desk.source key _ key) key).held record.tap = some layer
      rw [Function.update_self]
      exact held
  · rcases owned layer before with latched | ⟨other, tap, down, holds⟩
    · exact absurd latched unlatched
    · have apart : other ≠ key := by
        rintro rfl
        rw [state] at down
        cases pressed : record.pressed with
        | true => simp [pressed] at down
        | false =>
          have same : record.tap = tap := by simpa [pressed] using down
          have source : sitting.desk.layerFor keys record other = sitting.desk.source other :=
            if_neg (by simp [pressed])
          exact given pressed (by rw [same, source]; exact holds)
      refine .inr ⟨other, tap, ?_, ?_⟩
      · exact (Function.update_of_ne apart ..).trans down
      · show (keys (Function.update sitting.desk.source key _ other) other).held tap = some layer
        rw [Function.update_of_ne apart]
        exact holds

theorem latch_of_passing (passing : binding.latches = false) (none : latched = ∅) :
    binding.latch taps record on latched = ∅ := by
  rw [Binding.latch, if_neg (by simp [passing]), none]
  cases binding.held record.tap with
  | none => rfl
  | some layer => simp

theorem latched_feed (passing : ∀ layer key, (keys layer key).latches = false)
    (none : sitting.latched = ∅) : (sitting.feed keys taps record).latched = ∅ := by
  rw [Sitting.feed]
  split
  · exact none
  · split
    · exact latch_of_passing (passing _ _) none
    · exact none

theorem run_sitting_desk (sitting : Sitting cfg) (records : List KeyRecord) :
    (run (Sitting.feed keys taps) sitting records).desk =
      run (Desk.feed keys taps) sitting.desk records :=
  @run_simulates _ _ _ _ (fun _ _ => True) _
    (fun (sitting : Sitting cfg) (desk : Desk cfg) => sitting.desk = desk)
    (fun _ _ _ same _ => by rw [sitting_desk, same]) _ _ rfl _
    (along_of_forall (fun _ _ => trivial) _ records)

/-- In every run of presses and releases every layer that is on is held by a key that is
down or was switched on to stay by `TO`, `TG` or `TT`. Without such keys no layer is on
once all keys are up. -/
theorem no_stuck_layers {options : Options} {config : KeymapConfig}
    (layered : options.actionLayer = true)
    (separate : cfg.matrixRows * cfg.matrixCols ≤ 256 ∨ cfg.maxLayer = 1)
    {bits : LayerState cfg} {base : Finset (Fin cfg.maxLayer)} (shows : Shows bits base)
    {records : List KeyRecord}
    (turns : Along (Sitting.feed keys taps) Turn { desk := { base := base } } records) :
    let world := run (process (firmwareOf options config taps keys))
      { defaultLayerState := bits } records
    let sitting := run (Sitting.feed keys taps) { desk := { base := base } } records
    (∀ layer : Fin cfg.maxLayer, world.oneshot.layerState.getLsbD layer.val = true →
      layer ∈ sitting.latched ∨ Held keys sitting layer) ∧
      ((∀ layer key, (keys layer key).latches = false) → (∀ key, sitting.down key = none) →
        world.oneshot.layerState = 0) := by
  intro world sitting
  have follows := @follows_run _ options config taps keys layered separate _ _ shows records
  have owned : Owned keys sitting :=
    run_invariant (fun _ _ owned turn => owned.feed turn) (fun layer none => by simp at none) turns
  have desk : sitting.desk = run (Desk.feed keys taps) { base := base } records :=
    run_sitting_desk _ _
  have on : Shows world.oneshot.layerState sitting.desk.on := desk ▸ follows.on
  refine ⟨fun layer set => owned layer (on.mem.mp set), fun passing up => ?_⟩
  have latched : sitting.latched = ∅ :=
    run_keeps (fun sitting : Sitting cfg => sitting.latched = ∅)
      (fun _ _ none => latched_feed passing none) rfl records
  have off : sitting.desk.on = ∅ := by
    apply Finset.eq_empty_of_forall_notMem
    intro layer member
    rcases owned layer member with stays | ⟨key, tap, down, -⟩
    · rw [latched] at stays
      exact absurd stays (Finset.notMem_empty layer)
    · rw [up key] at down
      cases down
  rw [off] at on
  apply BitVec.eq_of_getLsbD_eq
  intro i inside
  rw [show (0 : LayerState cfg).getLsbD i = false by simp, Bool.eq_false_iff]
  intro set
  obtain ⟨layer, member, -⟩ := (on i).mp set
  exact absurd member (Finset.notMem_empty layer)

theorem no_stuck_layers_typed :
    let world := run (process (firmwareOf {} {} 5 fnKeys))
      { defaultLayerState := layerBit (layerByte lowest) }
      [keyRecord 0 true, keyRecord 1 true, keyRecord 0 false, keyRecord 1 false]
    world.oneshot.layerState = 0 := by
  have passing : ∀ layer key, (fnKeys layer key).latches = false := by
    intro layer key
    rw [fnKeys]
    split_ifs <;> rfl
  have turns : Along (Sitting.feed fnKeys 5) Turn { desk := { base := {lowest} } }
      [keyRecord 0 true, keyRecord 1 true, keyRecord 0 false, keyRecord 1 false] := by
    refine ⟨⟨rfl, _, rfl, rfl⟩, ⟨rfl, _, rfl, ?_⟩, ⟨rfl, _, rfl, ?_⟩, ⟨rfl, _, rfl, ?_⟩, trivial⟩
    all_goals decide
  refine (@no_stuck_layers twoKeys fnKeys 5 {} {} rfl (.inl (by decide)) _ _
    (@shows_bit twoKeys lowest) _ turns).2 passing ?_
  rintro ⟨row, col⟩
  revert row col
  decide

end Sittings

end QmkSonix.Keycodes
