import Mathlib
import QmkSonix.Lib.Run
import QmkSonix.Oneshot.Release

/-! No key gets stuck. With the source layer cache a release runs the action of
its press whatever the layers have become, also when a one-shot layer has made up
a release before it, so that a registered code belongs to a key that is held. -/

namespace QmkSonix.Oneshot

open Lib
open Keyboard (KeyRecord Tap)
open Layer (Byte Config LayerState Remembers)
open Tapping (Action isNoEvent Processed)

variable {cfg : Config}

/-- The firmware and the keys that are down, each with the tap that processing
its press left. -/
structure Board (cfg : Config) where
  world : World cfg
  held : Layer.KeyPos cfg → Option Tap := fun _ => none

/-- `process_record` with the next record. -/
def Build.feed (build : Build cfg) (board : Board cfg) (record : KeyRecord) : Board cfg :=
  let processed := build.firmware.processRecord board.world record
  { world := processed.world
    held :=
      match matrixKey record.key with
      | some key =>
        Function.update board.held key (if record.pressed then some processed.record.tap else none)
      | none => board.held }

/-- A press of a key that is up, or the release of one that is down, with the tap
of its press. -/
def Turn (board : Board cfg) (record : KeyRecord) : Prop :=
  isNoEvent record.event = false ∧ ∃ key, matrixKey record.key = some key ∧
    board.held key = if record.pressed then none else some record.tap

/-- `process_record_quantum` passes on the releases of the keys whose presses it
passes on. -/
def Build.Fair (build : Build cfg) : Prop :=
  ∀ press release : KeyRecord, press.pressed = true → release.pressed = false →
    release.key = press.key → build.processRecordQuantum press = true →
    build.processRecordQuantum release = true

/-- Every release of the key with this tap unregisters the code. -/
def Backs (build : Build cfg) (key : Layer.KeyPos cfg) (layer : Nat) (tap : Tap) (code : Byte) :
    Prop :=
  Tapping.Action.code (build.keymap layer key) = code ∧ code ≠ 0 ∧
    ∀ release : KeyRecord, matrixKey release.key = some key → release.pressed = false →
      release.tap = tap → build.processRecordQuantum release = true ∧
        build.sendsCode release (build.keymap layer key) = true

/-- What the layer cache holds, next to the layers as they are. -/
def memoryOf (world : World cfg) (layerOf : Layer.KeyPos cfg → Nat) : Layer.Memory cfg where
  layerOf := layerOf
  layerState := world.oneshot.layerState
  defaultLayerState := world.defaultLayerState

/-- The cache is in use and remembers the layer of every press, and every
registered code will be unregistered by the release of a key that is down. -/
structure Unstuck (build : Build cfg) (board : Board cfg) : Prop where
  cached : (build.strictLayerRelease || board.world.disableActionCache) = false
  backed : ∃ layerOf, Remembers (build.layers board.world) (memoryOf board.world layerOf) ∧
    ∀ code, registered board.world.codes code = true →
      ∃ key tap, board.held key = some tap ∧ Backs build key (layerOf key) tap code

section Records

variable (build : Build cfg) {world after : World cfg} {record : KeyRecord}
  {key : Layer.KeyPos cfg} {action : Action}

@[simp] theorem perform_cache :
    (build.perform world record action).sourceLayersCache = world.sourceLayersCache := rfl

@[simp] theorem perform_disable :
    (build.perform world record action).disableActionCache = world.disableActionCache := rfl

@[simp] theorem perform_codes : (build.perform world record action).codes =
    world.codes ++ build.codeCalls record action := rfl

/-- The switch sends codes by the tap count of a release and nothing else of it. -/
theorem sendsCode_tap {release release' : KeyRecord} (up : release.pressed = false)
    (up' : release'.pressed = false) (same : release.tap = release'.tap) :
    build.sendsCode release action = build.sendsCode release' action := by
  simp [Build.sendsCode, up, up', same]

/-- Remembering is about the cache: the layers may have become anything. -/
theorem remembers_after {layerOf : Layer.KeyPos cfg → Nat}
    (remembers : Remembers (build.layers world) (memoryOf world layerOf))
    (cache : after.sourceLayersCache = world.sourceLayersCache)
    (disable : after.disableActionCache = world.disableActionCache) :
    Remembers (build.layers after) (memoryOf after layerOf) := by
  have enabled := remembers.enabled
  have planes := remembers.planes
  simp only [Build.layers] at enabled planes
  refine ⟨?_, rfl, rfl, remembers.bounded, ?_⟩
  · simpa only [Build.layers, disable] using enabled
  · simpa only [Build.layers, cache, memoryOf] using planes

/-- A release finds the action of the layer remembered for its key. -/
theorem release_remembered {layerOf : Layer.KeyPos cfg → Nat}
    (remembers : Remembers (build.layers world) (memoryOf world layerOf)) :
    (Layer.storeOrGetAction build.keymap (build.layers world) false key).2 =
      build.keymap (layerOf key) key := by
  have enabled : ¬(build.layers world).disableActionCache = true := by
    rw [remembers.enabled]
    decide
  rw [Layer.storeOrGetAction, if_neg enabled, if_neg Bool.false_ne_true]
  exact congrArg (build.keymap · key) (remembers.read key)

/-- What a release does. -/
theorem processRecord_release {layerOf : Layer.KeyPos cfg → Nat}
    (remembers : Remembers (build.layers world) (memoryOf world layerOf))
    (inMatrix : matrixKey record.key = some key) (up : record.pressed = false)
    (event : isNoEvent record.event = false) :
    (build.firmware.processRecord world record).world =
      if build.processRecordQuantum record then
        build.perform world record (build.keymap (layerOf key) key)
      else world := by
  rw [Tapping.Firmware.processRecord, process_release _ inMatrix up event,
    release_remembered build remembers]

/-- What a press does to the cache and to the codes: it registers its own code
and leaves its tap to the release, or it has been released already. -/
structure Pressed (before : World cfg) (record : KeyRecord) (key : Layer.KeyPos cfg)
    (processed : Processed (World cfg)) : Prop where
  cache : processed.world.sourceLayersCache =
    (Layer.storeOrGetAction build.keymap (build.layers before) true key).1.sourceLayersCache
  disable : processed.world.disableActionCache = before.disableActionCache
  codes :
    (processed.record.tap = (build.releaseOf before record (build.pressAction before key)).tap ∧
      processed.world.codes = before.codes ++
        build.codeCalls record (build.pressAction before key)) ∨
    processed.world.codes = before.codes ++
      build.codeCalls record (build.pressAction before key) ++
      (build.codeCalls record (build.pressAction before key)).map fun call => (call.1, false)

/-- A world that differs from another in its one-shot layer at most. -/
structure SameKeys (world after : World cfg) : Prop where
  cache : after.sourceLayersCache = world.sourceLayersCache
  disable : after.disableActionCache = world.disableActionCache
  codes : after.codes = world.codes

/-- The world with the press in the cache. -/
def Build.storedPress (world : World cfg) (key : Layer.KeyPos cfg) : World cfg :=
  { world with
    sourceLayersCache :=
      (Layer.storeOrGetAction build.keymap (build.layers world) true key).1.sourceLayersCache }

theorem pressed_held (same : SameKeys (build.storedPress world key) after) :
    Pressed build world record key
      { world := build.perform after record (build.pressAction world key)
        record := build.firmware.leaveRecord after record (build.pressAction world key)
        calls := [] } := by
  refine ⟨same.cache, same.disable, .inl ⟨rfl, ?_⟩⟩
  rw [perform_codes, same.codes]
  rfl

/-- The made-up release finds the action of its press in the cache. -/
theorem pressed_released (fair : build.Fair)
    (cached : (build.strictLayerRelease || world.disableActionCache) = false)
    (presses : Presses record key) (passed : build.processRecordQuantum record = true)
    (same : SameKeys (build.storedPress world key) after) :
    let performed := build.perform after record (build.pressAction world key)
    let left := build.firmware.leaveRecord after record (build.pressAction world key)
    let released := build.firmware.processRecordBody
      (fun world record => { world := world, record := record, calls := [] })
      (build.firmware.oneshotLayerOn performed)
      { left with event := { left.event with pressed := false } }
    Pressed build world record key
      { released with world := build.firmware.oneshotLayerOff released.world } := by
  intro performed left released
  have inMatrix : matrixKey (build.releaseOf world record (build.pressAction world key)).key =
      some key := by rw [releaseOf_key build presses.pressed, presses.inMatrix]
  have passes : build.processRecordQuantum
      (build.releaseOf world record (build.pressAction world key)) = true :=
    fair record _ presses.pressed rfl (releaseOf_key build presses.pressed) passed
  have looked := release_action build world key
    (show (build.firmware.oneshotLayerOn performed).sourceLayersCache = _ from same.cache)
    (show (build.firmware.oneshotLayerOn performed).disableActionCache = _ from same.disable)
  have whole : released.world = build.perform (build.firmware.oneshotLayerOn performed)
      (build.releaseOf world record (build.pressAction world key))
      (build.pressAction world key) := by
    have step := @process_release cfg build key
      (fun world record => { world := world, record := record, calls := [] })
      (build.releaseOf world record (build.pressAction world key)) inMatrix rfl
      (releaseOf_event presses _) (build.firmware.oneshotLayerOn performed)
    rw [passes, if_pos rfl, looked, cached] at step
    exact step
  refine ⟨?_, ?_, .inr ?_⟩
  · rw [Build.firmware_oneshotLayerOff, whole]
    exact same.cache
  · rw [Build.firmware_oneshotLayerOff, whole]
    exact same.disable
  · rw [Build.firmware_oneshotLayerOff, whole]
    show performed.codes ++ _ = _
    rw [codeCalls_release build presses.pressed, perform_codes, same.codes]
    rfl

theorem handled_press (fair : build.Fair)
    (cached : (build.strictLayerRelease || world.disableActionCache) = false)
    (presses : Presses record key) (passed : build.processRecordQuantum record = true) :
    Pressed build world record key (build.firmware.processRecordHandler
      (build.firmware.processRecordBody fun world record =>
        { world := world, record := record, calls := [] }) world record) := by
  have stored : build.storeOrGetAction world true record.key =
      (build.pressAction world key, build.storedPress world key) := by
    simp only [Build.storeOrGetAction, presses.inMatrix, press_action]
    rfl
  have same : SameKeys (build.storedPress world key)
      (if build.firmware.usesOneshotLayer (build.storedPress world key) record
          (build.pressAction world key) = true then
        build.firmware.clearOneshotLayerState (build.storedPress world key)
      else build.storedPress world key) := by
    split <;> exact ⟨rfl, rfl, rfl⟩
  rw [Tapping.Firmware.processRecordHandler, Build.firmware_storeOrGetAction, presses.pressed,
    stored, Tapping.Firmware.processAction]
  generalize (if build.firmware.usesOneshotLayer (build.storedPress world key) record
      (build.pressAction world key) = true then
    build.firmware.clearOneshotLayerState (build.storedPress world key)
    else build.storedPress world key) = cleared at same ⊢
  split
  · exact pressed_released build fair cached presses passed same
  · exact pressed_held build same

theorem processRecord_press (fair : build.Fair)
    (cached : (build.strictLayerRelease || world.disableActionCache) = false)
    (presses : Presses record key) (passed : build.processRecordQuantum record = true) :
    Pressed build world record key (build.firmware.processRecord world record) := by
  have handled := handled_press build fair cached presses passed
  have same : build.firmware.processRecord world record =
      { build.firmware.processRecordHandler (build.firmware.processRecordBody fun world record =>
          { world := world, record := record, calls := [] }) world record with
        calls := (build.firmware.processRecord world record).calls } := by
    simp [Tapping.Firmware.processRecord, Tapping.Firmware.processRecordBody, presses.event,
      passed]
  rw [same]
  exact ⟨handled.cache, handled.disable, handled.codes⟩

/-- A press that is stopped gives the one-shot layer up at most. -/
theorem processRecord_stopped (event : isNoEvent record.event = false)
    (stopped : ¬build.processRecordQuantum record = true) :
    SameKeys world (build.firmware.processRecord world record).world := by
  simp only [Tapping.Firmware.processRecord, Tapping.Firmware.processRecordBody, event,
    Bool.false_eq_true, if_false, Build.firmware_processRecordQuantum, stopped]
  split <;> exact ⟨rfl, rfl, rfl⟩

end Records

section Codes

variable {build : Build cfg} {record : KeyRecord} {action : Action} {codes : List (Byte × Bool)}
  {code : Byte}

theorem registered_press (down : record.pressed = true)
    (held : registered (codes ++ build.codeCalls record action) code = true) :
    registered codes code = true ∨
      (action.code = code ∧ code ≠ 0 ∧ build.sendsCode record action = true) := by
  rw [Build.codeCalls] at held
  split at held
  · rename_i sends
    by_cases same : action.code = code
    · exact .inr ⟨same, same ▸ sends.2, sends.1⟩
    · left
      simpa [registered, same] using held
  · left
    simpa using held

theorem registered_release (up : record.pressed = false)
    (held : registered (codes ++ build.codeCalls record action) code = true) :
    registered codes code = true ∧
      ¬(action.code = code ∧ code ≠ 0 ∧ build.sendsCode record action = true) := by
  rw [Build.codeCalls] at held
  split at held
  · rename_i sends
    by_cases same : action.code = code
    · simp [registered, same, up] at held
    · exact ⟨by simpa [registered, same] using held, fun sent => same sent.1⟩
  · rename_i silent
    refine ⟨by simpa using held, ?_⟩
    rintro ⟨rfl, nonzero, sends⟩
    exact silent ⟨sends, nonzero⟩

end Codes

theorem matrixKey_inj {first second : Keyboard.KeyPos} {key : Layer.KeyPos cfg}
    (here : matrixKey first = some key) (there : matrixKey second = some key) :
    first = second := by
  unfold matrixKey at here there
  split at here
  · split at there
    · obtain rfl := Option.some.inj here
      have parts := Option.some.inj there
      rw [Layer.KeyPos.mk.injEq, Fin.mk.injEq, Fin.mk.injEq] at parts
      obtain ⟨row, col⟩ := first
      obtain ⟨row', col'⟩ := second
      rw [Keyboard.KeyPos.mk.injEq]
      exact ⟨BitVec.eq_of_toNat_eq parts.1.symm, BitVec.eq_of_toNat_eq parts.2.symm⟩
    · cases there
  · cases here

section Steps

variable {build : Build cfg} {board : Board cfg} {record : KeyRecord} {key : Layer.KeyPos cfg}

/-- A press stores the layer that its action comes from. -/
theorem remembers_press (few : cfg.matrixRows * cfg.matrixCols ≤ 256 ∨ cfg.maxLayer = 1)
    {world : World cfg} {layerOf : Layer.KeyPos cfg → Nat}
    (remembers : Remembers (build.layers world) (memoryOf world layerOf)) :
    Remembers (build.layers (build.storedPress world key))
      (memoryOf (build.storedPress world key) (Function.update layerOf key
        (Layer.layerSwitchGetLayer build.keymap (build.layers world) key))) := by
  have pressed := remembers.press few build.keymap key
  have enabled : ¬(build.layers world).disableActionCache = true := by
    rw [remembers.enabled]
    decide
  have stored : (build.storedPress world key).sourceLayersCache =
      Layer.updateSourceLayersCache world.sourceLayersCache key
        (BitVec.ofNat 8 (Layer.layerSwitchGetLayer build.keymap (build.layers world) key)) := by
    rw [Build.storedPress, Layer.storeOrGetAction, if_neg enabled, if_pos rfl]
    rfl
  refine ⟨pressed.enabled, rfl, rfl, pressed.bounded, ?_⟩
  have planes := pressed.planes
  simp only [Build.layers] at planes ⊢
  rw [stored]
  exact planes

theorem Unstuck.release (unstuck : Unstuck build board) (inMatrix : matrixKey record.key = some key)
    (up : record.pressed = false) (event : isNoEvent record.event = false)
    (down : board.held key = some record.tap) : Unstuck build (build.feed board record) := by
  obtain ⟨layerOf, remembers, backing⟩ := unstuck.backed
  have world := processRecord_release build remembers inMatrix up event
  have held : (build.feed board record).held = Function.update board.held key none := by
    simp only [Build.feed, inMatrix, up]
    rfl
  have same : (build.feed board record).world.sourceLayersCache = board.world.sourceLayersCache ∧
      (build.feed board record).world.disableActionCache = board.world.disableActionCache := by
    simp only [Build.feed, world]
    split <;> exact ⟨rfl, rfl⟩
  refine ⟨by rw [same.2]; exact unstuck.cached, layerOf,
    remembers_after build remembers same.1 same.2, ?_⟩
  intro code registers
  -- the code was registered, and not by this key
  have earlier : registered board.world.codes code = true ∧
      ¬Backs build key (layerOf key) record.tap code := by
    simp only [Build.feed, world] at registers
    split at registers
    · obtain ⟨before, silent⟩ := registered_release up registers
      refine ⟨before, ?_⟩
      rintro ⟨sameCode, nonzero, sends⟩
      exact silent ⟨sameCode, nonzero, (sends record inMatrix up rfl).2⟩
    · rename_i stopped
      refine ⟨registers, ?_⟩
      rintro ⟨_, _, sends⟩
      exact stopped (sends record inMatrix up rfl).1
  obtain ⟨other, tap, otherDown, backs⟩ := backing code earlier.1
  have apart : other ≠ key := by
    rintro rfl
    obtain rfl : record.tap = tap := Option.some.inj (down.symm.trans otherDown)
    exact earlier.2 backs
  exact ⟨other, tap, by rw [held, Function.update_of_ne apart, otherDown], backs⟩

theorem Unstuck.press (few : cfg.matrixRows * cfg.matrixCols ≤ 256 ∨ cfg.maxLayer = 1)
    (fair : build.Fair) (unstuck : Unstuck build board) (presses : Presses record key)
    (up : board.held key = none) : Unstuck build (build.feed board record) := by
  obtain ⟨layerOf, remembers, backing⟩ := unstuck.backed
  have held : (build.feed board record).held = Function.update board.held key
      (some (build.firmware.processRecord board.world record).record.tap) := by
    simp only [Build.feed, presses.inMatrix, presses.pressed]
    rfl
  have others {other : Layer.KeyPos cfg} {tap : Tap} (down : board.held other = some tap) :
      other ≠ key := by
    rintro rfl
    rw [up] at down
    cases down
  by_cases passed : build.processRecordQuantum record = true
  · have pressed := processRecord_press build fair unstuck.cached presses passed
    have stored := @remembers_press cfg build key few _ _ remembers
    refine ⟨?_, _, remembers_after build stored pressed.cache pressed.disable, ?_⟩
    · rw [show (build.feed board record).world.disableActionCache = _ from pressed.disable]
      exact unstuck.cached
    intro code registers
    have earlier (before : registered board.world.codes code = true) : ∃ other tap,
        (build.feed board record).held other = some tap ∧
          Backs build other (Function.update layerOf key
            (Layer.layerSwitchGetLayer build.keymap (build.layers board.world) key) other)
            tap code := by
      obtain ⟨other, tap, down, backs⟩ := backing code before
      refine ⟨other, tap, by rw [held, Function.update_of_ne (others down), down], ?_⟩
      rwa [Function.update_of_ne (others down)]
    rcases pressed.codes with ⟨sameTap, codes⟩ | codes
    · rw [show (build.feed board record).world.codes = _ from codes] at registers
      rcases registered_press presses.pressed registers with before | ⟨sameCode, nonzero, sends⟩
      · exact earlier before
      · refine ⟨key, _, by rw [held, Function.update_self], ?_⟩
        rw [Function.update_self]
        refine ⟨sameCode, nonzero, ?_⟩
        intro release inMatrix lifted ofPress
        have sameKey := matrixKey_inj inMatrix presses.inMatrix
        refine ⟨fair record release presses.pressed lifted sameKey passed, ?_⟩
        rw [← @sendsCode_release cfg build board.world _ _ presses.pressed] at sends
        rw [← sends]
        exact sendsCode_tap build lifted rfl (ofPress.trans sameTap)
    · rw [show (build.feed board record).world.codes = _ from codes] at registers
      have few := @codeCalls_pressed cfg build record presses.pressed
        (build.pressAction board.world key)
      exact earlier (registered_released _ _ code few.1 few.2 registers)
  · have same := @processRecord_stopped cfg build board.world _ presses.event passed
    refine ⟨?_, layerOf, remembers_after build remembers same.cache same.disable, ?_⟩
    · rw [show (build.feed board record).world.disableActionCache = _ from same.disable]
      exact unstuck.cached
    · intro code registers
      rw [show (build.feed board record).world.codes = _ from same.codes] at registers
      obtain ⟨other, tap, down, backs⟩ := backing code registers
      exact ⟨other, tap, by rw [held, Function.update_of_ne (others down), down], backs⟩

end Steps

theorem unstuck_initial (build : Build cfg) (cached : build.strictLayerRelease = false)
    (s : State cfg) (defaultLayers : LayerState cfg) :
    Unstuck build { world := { oneshot := s, defaultLayerState := defaultLayers } } := by
  have fresh : Remembers (build.layers { oneshot := s, defaultLayerState := defaultLayers })
      (memoryOf { oneshot := s, defaultLayerState := defaultLayers } fun _ => 0) := by
    refine ⟨by simp [Build.layers, cached], rfl, rfl, fun _ => cfg.someLayer, ?_⟩
    intro key bitNumber _
    simp [Layer.planeBit, Build.layers, memoryOf]
  refine ⟨by simp [cached], _, fresh, ?_⟩
  intro code registers
  simp [registered] at registers

/-- With the source layer cache, on a matrix whose key numbers fit a byte, every
registered code is the code of a key that is down, in every run of presses and
releases, whatever layers and one-shot layers do: with all keys up no code is
registered. -/
theorem no_stuck_keys (build : Build cfg) (cached : build.strictLayerRelease = false)
    (few : cfg.matrixRows * cfg.matrixCols ≤ 256 ∨ cfg.maxLayer = 1) (fair : build.Fair)
    (s : State cfg) (defaultLayers : LayerState cfg) (records : List KeyRecord)
    (turns : Along build.feed Turn { world := { oneshot := s, defaultLayerState := defaultLayers } }
      records) :
    let board := run build.feed { world := { oneshot := s, defaultLayerState := defaultLayers } }
      records
    ∀ code, registered board.world.codes code = true →
      ∃ key layer, board.held key ≠ none ∧ Tapping.Action.code (build.keymap layer key) = code := by
  intro board code registers
  have keeps : ∀ (board : Board cfg) (record : KeyRecord), Unstuck build board →
      Turn board record → Unstuck build (build.feed board record) := by
    rintro board record unstuck ⟨event, key, inMatrix, turn⟩
    cases direction : record.pressed with
    | true =>
      rw [direction] at turn
      exact unstuck.press few fair ⟨inMatrix, direction, event⟩ turn
    | false =>
      rw [direction] at turn
      exact unstuck.release inMatrix direction event turn
  have final : Unstuck build board := run_invariant keeps (unstuck_initial build cached s _) turns
  obtain ⟨layerOf, _, backing⟩ := final.backed
  obtain ⟨key, tap, down, sameCode, _⟩ := backing code registers
  exact ⟨key, layerOf key, by rw [down]; exact Option.some_ne_none tap, sameCode⟩

/-- A key that is held keeps its code registered. -/
theorem held_key_registered :
    let build : Build oneKey := { keymap := fun layer _ => BitVec.ofNat 16 (4 + layer) }
    let press : KeyRecord :=
      { event := { key := { row := 0, col := 0 }, pressed := true, time := 1 } }
    let board := run build.feed { world := { oneshot := {}, defaultLayerState := 1 } } [press]
    registered board.world.codes 4 = true ∧
      ∃ key layer, board.held key ≠ none ∧
        Tapping.Action.code (build.keymap layer key) = 4 := by
  intro build press board
  have registers : registered board.world.codes 4 = true := by decide
  refine ⟨registers, no_stuck_keys build rfl (.inl (by decide)) ?_ {} 1 [press] ?_ 4 registers⟩
  · exact fun _ _ _ _ _ _ => rfl
  · exact ⟨⟨by decide, ⟨⟨0, by decide⟩, ⟨0, by decide⟩⟩, by decide, rfl⟩, trivial⟩

end QmkSonix.Oneshot
