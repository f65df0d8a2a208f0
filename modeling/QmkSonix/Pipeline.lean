import QmkSonix.Keyboard.Reporting
import QmkSonix.Keycodes.Layers
import QmkSonix.Tapping.Offer

/-! From the switches to the key codes: `keyboard_task` hands its events to `action_exec`,
tapping passes them on, and `process_record` registers and unregisters codes. For keymaps
without tap keys, and built without `ONESHOT_TIMEOUT`, `SWAP_HANDS_ENABLE`, `COMBO_ENABLE` and
`AUTO_SHIFT_ENABLE`. -/

namespace QmkSonix.Pipeline

open Lib
open Keyboard (Board KeyEvent KeyRecord Progress Reported Reports Scan tickEvent)
open Layer (Byte Config KeyPos LayerState)
open Oneshot (Build Unstuck World matrixKey registered isOneshotLayerKey)
open Tapping (Action actLmods actRmods isNoEvent isTapAction noRecord)

theorem rows_le (cfg : Config) : cfg.matrixRows ≤ 255 := Nat.le_of_lt_succ cfg.rowsFit

/-- The matrix of a build. -/
abbrev boardOf (cfg : Config) (keysPerScan : Option ℕ) : Board where
  matrixRows := cfg.matrixRows
  matrixCols := cfg.matrixCols
  keysPerScan := keysPerScan
  rows_fit := rows_le cfg
  cols_fit := cfg.colsAdmitted

/-- A build, with `QMK_KEYS_PER_SCAN`. -/
structure Machine (cfg : Config) where
  build : Build cfg
  keysPerScan : Option ℕ := none

variable {cfg : Config}

abbrev Machine.board (m : Machine cfg) : Board := boardOf cfg m.keysPerScan

/-- `matrix_prev` of `keyboard_task`, and the statics of tapping with the rest of the
firmware. -/
structure Running (m : Machine cfg) where
  matrixPrev : m.board.Matrix := fun _ => 0
  tapping : Tapping.State (World cfg)

namespace Machine

variable (m : Machine cfg)

/-- `action_exec`, the weak modifiers apart -/
def actionExec (s : Tapping.State (World cfg)) (event : KeyEvent) : Tapping.State (World cfg) :=
  m.build.firmware.actionTappingProcess s { event := event }

/-- `keyboard_task` -/
def step (running : Running m) (scan : Scan m.board) : Running m :=
  let progress := m.board.keyboardTask running.matrixPrev scan
  { matrixPrev := progress.matrixPrev
    tapping := progress.executed.foldl m.actionExec running.tapping }

/-- The start, with the default layers. -/
def start (defaultLayers : LayerState cfg) : Running m where
  tapping := { world := { defaultLayerState := defaultLayers } }

/-- No action of the keymap is one for taps, and nothing stops a record. -/
structure Plain : Prop where
  tapFree : ∀ layer key, isTapAction (m.build.keymap layer key) = false
  passes : ∀ record, m.build.processRecordQuantum record = true

/-- Each layer has a code for the key, and no other key has any of them. -/
structure Own (key : KeyPos cfg) : Prop where
  sends : ∀ layer, Tapping.Action.kindId (m.build.keymap layer key) ∈ [actLmods, actRmods] ∧
    Tapping.Action.code (m.build.keymap layer key) ≠ 0
  apart : ∀ other ≠ key, ∀ layer layer', Tapping.Action.code (m.build.keymap layer other) ≠
    Tapping.Action.code (m.build.keymap layer' key)

end Machine

variable {m : Machine cfg}

/-- The key is down in a matrix. -/
def isDown (matrix : m.board.Matrix) (key : KeyPos cfg) : Bool := matrix.isOn key.row key.col

/-! ### One event -/

section Events

variable {world : World cfg} {record : KeyRecord} {s : Tapping.State (World cfg)} {key : KeyPos cfg}

/-- Without tap keys every record is processed at once. -/
theorem actionExec_eq (plain : m.Plain) (idle : s.tappingKey = noRecord)
    (empty : s.waitingBuffer = []) (event : KeyEvent) :
    m.actionExec s event = (m.build.firmware.process s { event := event }).1 := by
  have noTap (world : World cfg) (record : KeyRecord) :
      m.build.firmware.isTapRecord world record = false := by
    rw [Tapping.Firmware.isTapRecord]
    show isTapAction (((matrixKey record.key).map fun key =>
      Layer.layerSwitchGetAction m.build.keymap (m.build.layers world) key).getD 0) = false
    cases matrixKey record.key with
    | none =>
      show isTapAction 0 = false
      decide
    | some key => exact plain.tapFree _ key
  have taken : m.build.firmware.processTapping s { event := event } =
      { state := (m.build.firmware.process s { event := event }).1
        keyp := (m.build.firmware.process s { event := event }).2
        done := true } := by
    rw [Tapping.Firmware.processTapping, Tapping.State.isTappingPressed,
      Tapping.State.isTappingReleased, idle]
    simp [Tapping.Firmware.processNotTapping, noTap]
  have left : (m.build.firmware.process s { event := event }).1.waitingBuffer = [] := empty
  rw [Machine.actionExec, Tapping.Firmware.actionTappingProcess, Tapping.Firmware.admitRecord,
    taken]
  simp only [if_true, left, List.length_nil, Tapping.Firmware.drain]

/-- The action of a record comes from some layer of its key. -/
theorem stored_action (inMatrix : matrixKey record.key = some key) :
    ∃ layer, (m.build.storeOrGetAction world record.pressed record.key).1 =
      m.build.keymap layer key := by
  simp only [Build.storeOrGetAction, inMatrix]
  unfold Layer.storeOrGetAction
  split
  · exact ⟨_, rfl⟩
  · split <;> exact ⟨_, rfl⟩

theorem notOneshot_of_tapFree {action : Action} (free : isTapAction action = false) :
    isOneshotLayerKey action = false := by
  apply Bool.eq_false_iff.mpr
  intro oneshot
  obtain ⟨kind, code⟩ := of_decide_eq_true oneshot
  have member : action.kindId ∈ [Tapping.actLmodsTap, Tapping.actRmodsTap, Tapping.actLayerTap,
      Tapping.actLayerTapExt] := by
    rcases kind with kind | kind <;> simp [kind]
  rw [isTapAction, if_pos member, code] at free
  simp at free

/-- What the switch leaves of the record, while no one-shot layer is pending. -/
theorem left_idle (passes : m.build.processRecordQuantum record = true)
    (idle : world.oneshot.oneshotLayerData = 0) (event : isNoEvent record.event = false) :
    Tapping.Left record (m.build.firmware.processRecord world record).record := by
  have same : (m.build.storeOrGetAction world record.pressed record.key).2.oneshot =
      world.oneshot := by
    rw [Build.storeOrGetAction]
    split <;> rfl
  have inactive : Oneshot.isOneshotLayerActive
      (m.build.storeOrGetAction world record.pressed record.key).2.oneshot = false := by
    rw [same, Oneshot.isOneshotLayerActive, Oneshot.getOneshotLayerState, idle]
    rfl
  have left : (m.build.firmware.processRecord world record).record =
      m.build.firmware.leaveRecord (m.build.storeOrGetAction world record.pressed record.key).2
        record (m.build.storeOrGetAction world record.pressed record.key).1 := by
    simp only [Tapping.Firmware.processRecord, Tapping.Firmware.processRecordBody, event,
      Build.firmware_processRecordQuantum, passes, Tapping.Firmware.processRecordHandler,
      Build.firmware_storeOrGetAction, Tapping.Firmware.processAction,
      Tapping.Firmware.usesOneshotLayer, Build.firmware_isOneshotLayerActive, inactive,
      Bool.false_eq_true, if_false, if_true, false_and, decide_false, Bool.false_and]
  rw [left]
  exact Tapping.leaveRecord_left ..

/-- What processing a record leaves, while no one-shot layer is pending. -/
structure Processed (m : Machine cfg) (world : World cfg) (record : KeyRecord) (key : KeyPos cfg)
    (processed : Tapping.Processed (World cfg)) : Prop where
  idle : processed.world.oneshot.oneshotLayerData = 0
  tap : processed.record.tap = {}
  codes : ∃ layer, processed.world.codes =
    world.codes ++ m.build.codeCalls record (m.build.keymap layer key)

theorem processed_idle (plain : m.Plain) (idle : world.oneshot.oneshotLayerData = 0)
    (event : isNoEvent record.event = false) (untapped : record.tap = {})
    (inMatrix : matrixKey record.key = some key) :
    Processed m world record key (m.build.firmware.processRecord world record) := by
  have after := Keycodes.processRecord_idle m.build (plain.passes record) idle event
  obtain ⟨layer, action⟩ := @stored_action cfg m world record key inMatrix
  have kept : (m.build.storeOrGetAction world record.pressed record.key).2.oneshot =
      world.oneshot ∧ (m.build.storeOrGetAction world record.pressed record.key).2.codes =
        world.codes := by
    simp only [Build.storeOrGetAction, inMatrix, and_self]
  dsimp only at after
  rw [action] at after
  refine ⟨?_, ?_, layer, ?_⟩
  · rw [after]
    simp only [Build.perform, notOneshot_of_tapFree (plain.tapFree layer key), Bool.false_eq_true,
      if_false, kept.1]
    exact idle
  · have left := left_idle (plain.passes record) idle event
    generalize (m.build.firmware.processRecord world record).record = after at left ⊢
    cases left with
    | kept => exact untapped
    | cancelled _ => rw [untapped]
    | reset _ => rfl
  · rw [after, Oneshot.perform_codes, kept.2]

/-- A code that is not the action's stays as it was. -/
theorem registered_other {codes : List (Byte × Bool)} {action : Action} {code : Byte}
    (other : action.code ≠ code) :
    registered (codes ++ m.build.codeCalls record action) code = registered codes code := by
  rw [Build.codeCalls]
  split
  · simp [registered, other]
  · rw [List.append_nil]

/-- The press of a key with a code registers it. -/
theorem registered_own {codes : List (Byte × Bool)} {action : Action}
    (sends : action.kindId ∈ [actLmods, actRmods] ∧ action.code ≠ 0)
    (pressed : record.pressed = true) :
    registered (codes ++ m.build.codeCalls record action) action.code = true := by
  have kind : action.kindId = actLmods ∨ action.kindId = actRmods := by simpa using sends.1
  have called : m.build.codeCalls record action = [(action.code, true)] := by
    rw [Build.codeCalls, Build.sendsCode, if_pos kind, if_pos ⟨rfl, sends.2⟩, pressed]
  simp [called, registered]

end Events

/-! ### The board -/

section Boards

variable {matrixPrev : m.board.Matrix} {s : Tapping.State (World cfg)} {scan : Scan m.board}
  {progress : Progress m.board} {r : Fin m.board.matrixRows} {c : Fin m.board.matrixCols}

theorem matrixKey_keyAt (key : KeyPos cfg) :
    matrixKey (m.board.keyAt key.row key.col) = some key := by
  have rows := cfg.rowsFit
  have cols := cfg.colsAdmitted
  have below := key.row.isLt
  have beside := key.col.isLt
  have row : (BitVec.ofNat 8 key.row.val).toNat = key.row.val := by
    rw [BitVec.toNat_ofNat]
    omega
  have col : (BitVec.ofNat 8 key.col.val).toNat = key.col.val := by
    rw [BitVec.toNat_ofNat]
    omega
  rw [matrixKey, dif_pos]
  · simp only [Board.keyAt, row, col]
  · exact ⟨row.trans_lt below, col.trans_lt beside⟩

theorem keyEvent_real (scan : Scan m.board) (progress : Progress m.board)
    (r : Fin m.board.matrixRows) (c : ℕ) :
    isNoEvent (m.board.keyEvent scan progress r c) = false := by
  have rows : cfg.matrixRows < 256 := cfg.rowsFit
  have below : r.val < cfg.matrixRows := r.isLt
  have odd : scan.timerRead progress.executed.length ||| 1 ≠ 0 := by
    intro zero
    have bit := congrArg (BitVec.getLsbD · 0) zero
    simp at bit
  have inside : BitVec.ofNat 8 r.val ≠ 255 := by
    intro last
    have value := congrArg BitVec.toNat last
    rw [BitVec.toNat_ofNat] at value
    have top : (255 : BitVec 8).toNat = 255 := rfl
    omega
  have real : ¬((m.board.keyEvent scan progress r c).time = 0 ∨
      (m.board.keyEvent scan progress r c).key.row = 255 ∧
        (m.board.keyEvent scan progress r c).key.col = 255) := by
    rintro (zero | ⟨last, -⟩)
    · exact odd zero
    · exact inside last
  exact decide_eq_false real

/-- The keys that are down in `matrix_prev`. Without tap keys a tap is empty. -/
def heldKeys (matrixPrev : m.board.Matrix) (key : KeyPos cfg) : Option Keyboard.Tap :=
  if isDown matrixPrev key then some {} else none

/-- Nothing waits, the keys that are down are those whose presses were processed, a code
that is registered is of such a key, and a key with codes of its own has one registered. -/
structure Linked (m : Machine cfg) (matrixPrev : m.board.Matrix) (s : Tapping.State (World cfg)) :
    Prop where
  idle : s.tappingKey = noRecord
  empty : s.waitingBuffer = []
  oneshot : s.world.oneshot.oneshotLayerData = 0
  unstuck : Unstuck m.build { world := s.world, held := heldKeys matrixPrev }
  sounding : ∀ key, m.Own key → isDown matrixPrev key = true →
    ∃ layer, registered s.world.codes (Tapping.Action.code (m.build.keymap layer key)) = true

theorem Linked.tick (plain : m.Plain) (linked : Linked m matrixPrev s) (time : BitVec 16) :
    m.actionExec s (tickEvent time) = s := by
  have passed : isNoEvent (tickEvent time) = true := by simp [isNoEvent, tickEvent]
  rw [actionExec_eq plain linked.idle linked.empty, Tapping.Firmware.process,
    Tapping.processRecord_noEvent passed]
  simp

theorem isDown_processKey (differs : scan.matrix.isOn r c ≠ progress.matrixPrev.isOn r c)
    (other : KeyPos cfg) : isDown (m.board.processKey scan r c progress).matrixPrev other =
      if other = ⟨r, c⟩ then scan.matrix.isOn r c else isDown progress.matrixPrev other := by
  by_cases same : other = ⟨r, c⟩
  · subst same
    rw [if_pos rfl]
    exact Keyboard.processKey_agrees differs
  · have apart : ¬(other.row = r ∧ other.col = c) := by
      rintro ⟨rfl, rfl⟩
      exact same rfl
    have turns := Keyboard.processKey_isOn scan progress r other.row c other.col
    rw [if_neg apart] at turns
    rw [if_neg same]
    exact turns

theorem heldKeys_processKey (differs : scan.matrix.isOn r c ≠ progress.matrixPrev.isOn r c) :
    heldKeys (m.board.processKey scan r c progress).matrixPrev =
      Function.update (heldKeys progress.matrixPrev) ⟨r, c⟩
        (if scan.matrix.isOn r c then some {} else none) := by
  funext other
  rw [heldKeys, isDown_processKey differs]
  by_cases same : other = ⟨r, c⟩
  · rw [same, if_pos rfl, Function.update_self]
  · rw [if_neg same, Function.update_of_ne same, heldKeys]

/-- The record of a key carries its place and whether it is down. -/
theorem record_of_keyEvent {record : KeyRecord}
    (event : record.event = m.board.keyEvent scan progress r c) :
    matrixKey record.key = some ⟨r, c⟩ ∧ record.pressed = scan.matrix.isOn r c ∧
      isNoEvent record.event = false := by
  rw [KeyRecord.key, KeyRecord.pressed, event]
  refine ⟨?_, ?_, ?_⟩
  · exact @matrixKey_keyAt cfg m ⟨r, c⟩
  · exact Keyboard.keyEvent_pressed scan progress r c
  · exact keyEvent_real scan progress r c

/-- The key is fed to the firmware, and is held if it is down. -/
theorem feed_processKey (differs : scan.matrix.isOn r c ≠ progress.matrixPrev.isOn r c)
    {world : World cfg} {record : KeyRecord}
    (event : record.event = m.board.keyEvent scan progress r c)
    (untapped : (m.build.firmware.processRecord world record).record.tap = {}) :
    m.build.feed { world, held := heldKeys progress.matrixPrev } record =
      { world := (m.build.firmware.processRecord world record).world
        held := heldKeys (m.board.processKey scan r c progress).matrixPrev } := by
  obtain ⟨inMatrix, direction, -⟩ := record_of_keyEvent event
  simp only [Build.feed, inMatrix, untapped, heldKeys_processKey differs, ← direction]

/-- A key that differs is pressed while it is up, or released while it is held. -/
theorem Linked.unstuck_key (plain : m.Plain)
    (few : cfg.matrixRows * cfg.matrixCols ≤ 256 ∨ cfg.maxLayer = 1)
    (linked : Linked m progress.matrixPrev s)
    (differs : scan.matrix.isOn r c ≠ progress.matrixPrev.isOn r c) {record : KeyRecord}
    (event : record.event = m.board.keyEvent scan progress r c) (fresh : record.tap = {})
    (untapped : (m.build.firmware.processRecord s.world record).record.tap = {}) :
    Unstuck m.build
      { world := (m.build.firmware.processRecord s.world record).world
        held := heldKeys (m.board.processKey scan r c progress).matrixPrev } := by
  obtain ⟨inMatrix, direction, real⟩ := record_of_keyEvent event
  have turned : isDown progress.matrixPrev ⟨r, c⟩ = !record.pressed := by
    rw [direction]
    exact Bool.eq_not.mpr (Ne.symm differs)
  rw [← feed_processKey differs event untapped]
  cases pressed : record.pressed with
  | true =>
    have fair : m.build.Fair := fun _ release _ _ _ _ => plain.passes release
    apply linked.unstuck.press few fair ⟨inMatrix, pressed, real⟩
    rw [pressed] at turned
    exact if_neg (Bool.eq_false_iff.mp turned)
  | false =>
    apply linked.unstuck.release inMatrix pressed real
    rw [pressed] at turned
    rw [fresh]
    exact if_pos turned

theorem Linked.key (plain : m.Plain)
    (few : cfg.matrixRows * cfg.matrixCols ≤ 256 ∨ cfg.maxLayer = 1)
    (linked : Linked m progress.matrixPrev s)
    (differs : scan.matrix.isOn r c ≠ progress.matrixPrev.isOn r c) :
    Linked m (m.board.processKey scan r c progress).matrixPrev
      (m.actionExec s (m.board.keyEvent scan progress r c)) := by
  let record : KeyRecord := { event := m.board.keyEvent scan progress r c }
  obtain ⟨inMatrix, direction, real⟩ := @record_of_keyEvent cfg m scan progress r c record rfl
  have processed := processed_idle plain linked.oneshot real rfl inMatrix
  have unstuck : Unstuck m.build
      { world := (m.build.firmware.processRecord s.world record).world
        held := heldKeys (m.board.processKey scan r c progress).matrixPrev } :=
    linked.unstuck_key plain few differs rfl rfl processed.tap
  have after : m.actionExec s record.event =
      { s with
        world := (m.build.firmware.processRecord s.world record).world
        calls := s.calls ++ (m.build.firmware.processRecord s.world record).calls } :=
    actionExec_eq plain linked.idle linked.empty _
  rw [show m.board.keyEvent scan progress r c = record.event from rfl, after]
  refine ⟨linked.idle, linked.empty, processed.idle, unstuck, ?_⟩
  intro other own isOn
  rw [isDown_processKey differs, ← direction] at isOn
  obtain ⟨layer, codes⟩ := processed.codes
  show ∃ layer, registered (m.build.firmware.processRecord s.world record).world.codes _ = true
  rw [codes]
  by_cases same : other = ⟨r, c⟩
  · subst same
    rw [if_pos rfl] at isOn
    exact ⟨layer, registered_own (own.sends layer) isOn⟩
  · rw [if_neg same] at isOn
    obtain ⟨layer', sounds⟩ := linked.sounding other own isOn
    have apart := own.apart ⟨r, c⟩ (Ne.symm same) layer layer'
    exact ⟨layer', (registered_other apart).trans sounds⟩

theorem linked_start (m : Machine cfg) (cached : m.build.strictLayerRelease = false)
    (defaultLayers : LayerState cfg) :
    Linked m (m.start defaultLayers).matrixPrev (m.start defaultLayers).tapping := by
  have up (key : KeyPos cfg) : isDown (m.start defaultLayers).matrixPrev key = false :=
    BitVec.getLsbD_zero
  have none : heldKeys (m.start defaultLayers).matrixPrev = fun _ => none := by
    funext key
    exact if_neg (Bool.eq_false_iff.mp (up key))
  refine ⟨rfl, rfl, rfl, ?_, fun key _ isOn => ?_⟩
  · rw [none]
    exact Oneshot.unstuck_initial m.build cached {} defaultLayers
  · exact absurd (isOn.symm.trans (up key)) (by decide)

/-- The keys that differ are handed on one behind the other. -/
theorem linked_reports {keys : ℕ} {final : Progress m.board} (plain : m.Plain)
    (few : cfg.matrixRows * cfg.matrixCols ≤ 256 ∨ cfg.maxLayer = 1)
    (reports : Reports scan keys progress final) (master : scan.shouldProcessKeypress = true)
    (linked : Linked m progress.matrixPrev (progress.executed.foldl m.actionExec s)) :
    Linked m final.matrixPrev (final.executed.foldl m.actionExec s) := by
  induction reports with
  | done progress => exact linked
  | @key keys progress final r c differs rest ih =>
    apply ih
    have executed : (m.board.processKey scan r c progress).executed =
        progress.executed ++ [m.board.keyEvent scan progress r c] := if_pos master
    rw [executed, List.foldl_append]
    exact linked.key plain few differs

theorem Linked.step {running : Running m} (plain : m.Plain)
    (few : cfg.matrixRows * cfg.matrixCols ≤ 256 ∨ cfg.maxLayer = 1)
    (linked : Linked m running.matrixPrev running.tapping)
    (master : scan.shouldProcessKeypress = true) :
    Linked m (m.step running scan).matrixPrev (m.step running scan).tapping := by
  obtain ⟨keys, final, reports, prev, ends⟩ :=
    Keyboard.keyboardTask_cases m.board running.matrixPrev scan
  have reported : Linked m final.matrixPrev (final.executed.foldl m.actionExec running.tapping) :=
    linked_reports plain few reports master linked
  show Linked m (m.board.keyboardTask running.matrixPrev scan).matrixPrev
    ((m.board.keyboardTask running.matrixPrev scan).executed.foldl m.actionExec running.tapping)
  rw [prev]
  rcases ends with ⟨-, executed⟩ | ⟨-, -, time, executed⟩
  · rwa [executed]
  · rw [executed, List.foldl_append, List.foldl_cons, List.foldl_nil, reported.tick plain]
    exact reported

end Boards

/-! ### Runs -/

section Runs

/-- What follows of `keyboard_task` does not change what it has seen. -/
theorem matrixPrev_run (running : Running m) (scans : List (Scan m.board))
    (events : List KeyEvent) :
    (run m.step running scans).matrixPrev = (run m.board.step
      { matrixPrev := running.matrixPrev, executed := events } scans).matrixPrev := by
  induction scans generalizing running events with
  | nil => rfl
  | cons scan rest ih => exact ih (m.step running scan) _

/-- Over every run of `keyboard_task`, with any layers, a code that is registered is one of a
key that is down in `matrix_prev`, and a key that is down and has codes of its own has one of
them registered. While the matrix stays the same, as many calls as keys have changed bring
`matrix_prev` to it, so that no code stays registered behind the last key. -/
theorem switches_reach_codes (m : Machine cfg) (plain : m.Plain)
    (cached : m.build.strictLayerRelease = false)
    (few : cfg.matrixRows * cfg.matrixCols ≤ 256 ∨ cfg.maxLayer = 1)
    (defaultLayers : LayerState cfg) (scans : List (Scan m.board))
    (master : ∀ scan ∈ scans, scan.shouldProcessKeypress = true) :
    let running := run m.step (m.start defaultLayers) scans
    (∀ code, registered running.tapping.world.codes code = true →
      ∃ key layer, isDown running.matrixPrev key = true ∧
        Tapping.Action.code (m.build.keymap layer key) = code) ∧
      (∀ key, m.Own key → isDown running.matrixPrev key = true → ∃ layer,
        registered running.tapping.world.codes
          (Tapping.Action.code (m.build.keymap layer key)) = true) ∧
      ∀ earlier later matrix, scans = earlier ++ later → (∀ scan ∈ later, scan.matrix = matrix) →
        (matrix.changed (run m.step (m.start defaultLayers) earlier).matrixPrev).card ≤
          later.length →
        ∀ key, isDown running.matrixPrev key = isDown matrix key := by
  intro running
  have keeps (running : Running m) (scan : Scan m.board)
      (linked : Linked m running.matrixPrev running.tapping)
      (master : scan.shouldProcessKeypress = true) :
      Linked m (m.step running scan).matrixPrev (m.step running scan).tapping :=
    linked.step plain few master
  have linked : Linked m running.matrixPrev running.tapping :=
    run_invariant keeps (linked_start m cached defaultLayers) (along_of_mem master _)
  refine ⟨?_, linked.sounding, ?_⟩
  · intro code registers
    obtain ⟨layerOf, -, backed⟩ := linked.unstuck.backed
    obtain ⟨key, tap, held, sends, -⟩ := backed code registers
    refine ⟨key, layerOf key, ?_, sends⟩
    by_contra up
    have none : heldKeys running.matrixPrev key = none := if_neg up
    exact Option.some_ne_none tap (held.symm.trans none)
  · rintro earlier later matrix rfl constant enough key
    have before := matrixPrev_run (m.start defaultLayers) earlier []
    have after : running.matrixPrev = (run m.board.step
        (run m.board.step { matrixPrev := (m.start defaultLayers).matrixPrev } earlier)
        later).matrixPrev := by
      rw [← run_append]
      exact matrixPrev_run (m.start defaultLayers) (earlier ++ later) []
    have fewer := Keyboard.run_changes matrix later constant
      (run m.board.step { matrixPrev := (m.start defaultLayers).matrixPrev } earlier)
    rw [before] at enough
    have none : (matrix.changed running.matrixPrev).card = 0 := by
      rw [after]
      omega
    by_contra differs
    have member : (key.row, key.col) ∈ matrix.changed running.matrixPrev :=
      Finset.mem_filter.mpr ⟨Finset.mem_univ _, Ne.symm differs⟩
    rw [Finset.card_eq_zero.mp none] at member
    exact Finset.notMem_empty _ member

/-- A board with one key, a letter on every layer. -/
def letterKey : Machine Oneshot.oneKey where
  build := { keymap := fun _ _ => 0x0004 }

/-- The key is down, or up. -/
def scanOf (down : Bool) : Scan letterKey.board where
  matrix := fun _ => if down then 1 else 0
  shouldProcessKeypress := true
  timerRead := fun _ => 7

theorem letter_released :
    let running := run letterKey.step (letterKey.start 1) [scanOf true, scanOf false]
    registered (run letterKey.step (letterKey.start 1) [scanOf true]).tapping.world.codes 4 = true ∧
      ∀ code, registered running.tapping.world.codes code = false := by
  intro running
  have letter : isTapAction 0x0004 = false := by decide
  have plain : letterKey.Plain := ⟨fun _ _ => letter, fun _ => rfl⟩
  have reach := switches_reach_codes letterKey plain rfl (.inl (by decide)) 1
    [scanOf true, scanOf false] (by simp [scanOf])
  refine ⟨by decide, fun code => ?_⟩
  apply Bool.eq_false_iff.mpr
  intro registers
  obtain ⟨key, -, down, -⟩ := reach.1 code registers
  have settled := reach.2.2 [scanOf true] [scanOf false] (scanOf false).matrix rfl (by simp)
    (by decide) key
  have up : isDown (scanOf false).matrix key = false := BitVec.getLsbD_zero
  exact absurd (down.symm.trans (settled.trans up)) (by decide)

end Runs

end QmkSonix.Pipeline
