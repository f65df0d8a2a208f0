import QmkSonix.Lib.Links
import QmkSonix.Macro.Recording
import QmkSonix.Tapping.Order

/-! Replaying a dynamic macro. `dynamic_macro_play` hands pointers into the macro
buffer to `process_record`, which writes through them, plays macros in turn, and
may start to record. A record is given here by its position in the buffer and read
from there each time. -/

namespace QmkSonix.Replay

open QmkSonix.Lib
open QmkSonix.Keyboard
open QmkSonix.Macro
open QmkSonix.Tapping (Action Firmware isNoEvent)

/-- The firmware around the macros. `process_record_quantum` takes a keycode from
the record and reaches `process_dynamic_macro` with it, or returns false before;
what comes behind is `processRecordQuantum` of `fw`. The `processRecord` of the host
is not used here. -/
structure Board (World : Type*) where
  fw : Firmware World
  host : Host World
  beforeDynamicMacro : World → KeyRecord → Option Keycode × World

/-- Where a record can be written, or is passed on. -/
inductive StepKind where
  | processRecord
  | dynamicMacro (keycode : Keycode)
  | action (action : Action)
  deriving DecidableEq

/-- A call of one of these, with the state that it meets and the position of its
record. -/
structure Step (World : Type*) where
  state : State World
  position : Int
  kind : StepKind

/-- What a call leaves, and the calls in it. -/
structure Replayed (World : Type*) where
  state : State World
  steps : List (Step World) := []

section Functions

variable {World : Type*} (cfg : Config) (board : Board World)
  (again : State World → Int → Replayed World)

/-- The loop of `dynamic_macro_play` from `position`, for at most `fuel` records. -/
def playLoop (macroEnd direction : Int) : Nat → Int → State World → Replayed World
  | 0, _, s => { state := s }
  | fuel + 1, position, s =>
    if position = macroEnd then { state := s }
    else
      let processed := again s position
      let rest := playLoop macroEnd direction fuel (position + direction) processed.state
      { rest with steps := processed.steps ++ rest.steps }

/-- `dynamic_macro_play`. `again` is `process_record`. -/
def dynamicMacroPlay (s : State World) (slot : Slot) : Replayed World :=
  let savedLayerState := board.host.layerState s.world
  let played := playLoop again (s.slotEnd slot) slot.direction cfg.dynamicMacroSize
    (slot.macroBuffer cfg)
    { s with world := board.host.layerClear (board.host.clearKeyboard s.world) }
  let world := board.host.setLayerState (board.host.clearKeyboard played.state.world)
    savedLayerState
  { played with
    state := { played.state with world := board.host.playUser world slot.direction } }

/-- The macro that a call of `process_dynamic_macro` plays. -/
def plays (s : State World) (record : KeyRecord) (keycode : Keycode) : Option Slot :=
  if s.macroId.isSome ∨ record.pressed then none
  else match keycode with
    | .dynMacroPlay1 => some .one
    | .dynMacroPlay2 => some .two
    | _ => none

/-- `process_dynamic_macro`, with its return value -/
def processDynamicMacro (s : State World) (position : Int) (keycode : Keycode) :
    Replayed World × Bool :=
  let step : Step World := { state := s, position := position, kind := .dynamicMacro keycode }
  match plays s (s.buffer position) keycode with
  | some slot =>
    let played := dynamicMacroPlay cfg board again s slot
    ({ played with steps := step :: played.steps }, false)
  | none =>
    let result := Macro.processDynamicMacro cfg board.host s keycode (s.buffer position)
    ({ state := result.state, steps := [step] }, result.passOn)

/-- `process_record_quantum` -/
def processRecordQuantum (s : State World) (position : Int) : Replayed World × Bool :=
  let before := board.beforeDynamicMacro s.world (s.buffer position)
  let entered := { s with world := before.2 }
  match before.1 with
  | none => ({ state := entered }, false)
  | some keycode =>
    let dynamic := processDynamicMacro cfg board again entered position keycode
    if dynamic.2 then
      let rest := board.fw.processRecordQuantum dynamic.1.state.world
        (dynamic.1.state.buffer position)
      ({ dynamic.1 with state := { dynamic.1.state with world := rest.2 } }, rest.1)
    else (dynamic.1, false)

/-- `process_action` -/
def processAction (s : State World) (position : Int) (action : Action) : Replayed World :=
  let step : Step World := { state := s, position := position, kind := .action action }
  let record := s.buffer position
  let uses := board.fw.usesOneshotLayer s.world record action
  let cleared := if uses then board.fw.clearOneshotLayerState s.world else s.world
  let doReleaseOneshot := uses && !board.fw.isOneshotLayerActive cleared &&
    !board.fw.keepsOneshotLayer cleared action
  let left := board.fw.leaveRecord cleared record action
  let performed := board.fw.perform cleared record action
  if doReleaseOneshot && !board.fw.oneshotPressed performed then
    let released := again { s with
      world := board.fw.oneshotLayerOn performed
      buffer := Function.update s.buffer position
        { left with event := { left.event with pressed := false } } } position
    { state := { released.state with world := board.fw.oneshotLayerOff released.state.world }
      steps := step :: released.steps }
  else
    { state := { s with world := performed, buffer := Function.update s.buffer position left }
      steps := [step] }

/-- `process_record_handler` -/
def processRecordHandler (s : State World) (position : Int) : Replayed World :=
  let record := s.buffer position
  let stored := board.fw.storeOrGetAction s.world record.pressed record.key
  processAction board again { s with world := stored.2 } position stored.1

/-- The body of `process_record`. -/
def processRecordBody (s : State World) (position : Int) : Replayed World :=
  let step : Step World := { state := s, position := position, kind := .processRecord }
  if isNoEvent (s.buffer position).event then { state := s, steps := [step] }
  else
    let quantum := processRecordQuantum cfg board again s position
    if quantum.2 then
      let handled := processRecordHandler board again quantum.1.state position
      { state := { handled.state with
          world := board.fw.postProcessRecordQuantum handled.state.world
            (handled.state.buffer position) }
        steps := step :: (quantum.1.steps ++ handled.steps) }
    else
      let left := quantum.1.state
      let clears := board.fw.isOneshotLayerActive left.world && (left.buffer position).pressed &&
        !board.fw.oneshotDisable left.world
      { state := { left with
          world := if clears then board.fw.clearOneshotLayerState left.world else left.world }
        steps := step :: quantum.1.steps }

/-- `process_record`, with calls of it inside one another up to a depth. -/
def processRecord : Nat → State World → Int → Replayed World
  | 0, s, _ => { state := s }
  | depth + 1, s, position => processRecordBody cfg board (processRecord depth) s position

/-- A playback of a macro, in which `process_record` calls itself up to a depth. -/
def replay (depth : Nat) (s : State World) (slot : Slot) : Replayed World :=
  dynamicMacroPlay cfg board (processRecord cfg board depth) s slot

/-- A key that is stored while a macro is recorded. -/
def storesKey : Keycode → Bool
  | .dynRecStart1 | .dynRecStart2 | .dynRecStop => false
  | .dynMacroPlay1 | .dynMacroPlay2 => !cfg.noNesting
  | .other _ => true

/-- `dynamic_macro_record_key` puts another record over one of the buffer. -/
def overwrites (s : State World) (slot : Slot) (record : KeyRecord) : Prop :=
  ¬(¬record.pressed ∧ s.macroPointer = slot.macroBuffer cfg) ∧
    s.macroPointer - slot.direction ≠ s.slotEnd slot.other ∧ s.buffer s.macroPointer ≠ record

/-- `process_action` writes to its record: it cancels the tap of an interrupted
mod-tap, resets that of a swap-hands key, or releases the key of a oneshot layer. -/
def rewrites (world : World) (record : KeyRecord) (action : Action) : Bool :=
  let uses := board.fw.usesOneshotLayer world record action
  let cleared := if uses then board.fw.clearOneshotLayerState world else world
  board.fw.cancelsTap cleared record action || Firmware.resetsTap record action ||
    (uses && !board.fw.isOneshotLayerActive cleared &&
      !board.fw.keepsOneshotLayer cleared action &&
      !board.fw.oneshotPressed (board.fw.perform cleared record action))

/-- The step changes the macro buffer. -/
def Step.alters (step : Step World) : Prop :=
  match step.kind with
  | .processRecord => False
  | .dynamicMacro keycode => storesKey cfg keycode = true ∧ ∃ slot,
      step.state.macroId = some slot ∧
        overwrites cfg step.state slot (step.state.buffer step.position)
  | .action action =>
    rewrites board step.state.world (step.state.buffer step.position) action = true

/-- Every call in the playback finds the macros as they were recorded, they are
left so, and a playback from the same state, with the macros that were left, is
the same again. -/
structure Repeatable (depth : Nat) (s : State World) (slot : Slot) : Prop where
  found : ∀ step ∈ (replay cfg board depth s slot).steps, step.state.buffer = s.buffer
  kept : (replay cfg board depth s slot).state.buffer = s.buffer
  repeats : replay cfg board depth
      { s with buffer := (replay cfg board depth s slot).state.buffer } slot =
    replay cfg board depth s slot

end Functions

section Frames

variable {World : Type*} {cfg : Config} {board : Board World}
  {again : State World → Int → Replayed World} {s : State World} {position : Int}

/-- What a call leaves is linked to what it meets by the calls in it. -/
def Linked (cfg : Config) (board : Board World) (s : State World) (replayed : Replayed World) :
    Prop :=
  Links (fun step : Step World => step.state.buffer) (Step.alters cfg board) s.buffer
    replayed.steps replayed.state.buffer

/-- Recording a key leaves the buffer as it is, unless it stores another record. -/
theorem recordKey_buffer (cfg : Config) (board : Board World) (s : State World) (slot : Slot) (record : KeyRecord) :
    (dynamicMacroRecordKey cfg board.host s slot record).1.buffer = s.buffer ↔
      ¬overwrites cfg s slot record := by
  unfold dynamicMacroRecordKey overwrites
  by_cases leading : ¬record.pressed ∧ s.macroPointer = slot.macroBuffer cfg
  · rw [if_pos leading]
    simp [leading]
  rw [if_neg leading]
  by_cases room : s.macroPointer - slot.direction ≠ s.slotEnd slot.other
  · rw [if_pos room]
    have unchanged : Function.update s.buffer s.macroPointer record = s.buffer ↔
        s.buffer s.macroPointer = record := Function.update_eq_self_iff.trans eq_comm
    simp only [unchanged, leading, room, not_false_eq_true, true_and, ne_eq, not_not]
  · rw [if_neg room]
    simp [room]

theorem recordEnd_buffer (cfg : Config) (board : Board World) (s : State World) (slot : Slot) :
    (dynamicMacroRecordEnd cfg board.host s slot).buffer = s.buffer := by
  cases slot <;> rfl

/-- Without a playback, `process_dynamic_macro` changes the buffer only where it
stores a key. -/
theorem processDynamicMacro_buffer (cfg : Config) (board : Board World) (s : State World)
    (record : KeyRecord) (keycode : Keycode) (stays : plays s record keycode = none) :
    (Macro.processDynamicMacro cfg board.host s keycode record).state.buffer = s.buffer ↔
      ¬(storesKey cfg keycode = true ∧ ∃ slot, s.macroId = some slot ∧
        overwrites cfg s slot record) := by
  cases recording : s.macroId with
  | none =>
    have same : (Macro.processDynamicMacro cfg board.host s keycode record).state.buffer =
        s.buffer := by
      cases held : record.pressed <;> cases keycode <;>
        simp_all [Macro.processDynamicMacro, plays, dynamicMacroRecordStart]
    simp [same]
  | some slot =>
    have stored := recordKey_buffer cfg board s slot record
    have ended := recordEnd_buffer cfg board s slot
    simp only [Option.some.injEq, exists_eq_left', storesKey]
    cases keycode with
    | other code => simpa [Macro.processDynamicMacro, recording] using stored
    | dynMacroPlay1 | dynMacroPlay2 =>
      cases nesting : cfg.noNesting <;>
        simpa [Macro.processDynamicMacro, recording, nesting] using stored
    | dynRecStart1 | dynRecStart2 | dynRecStop =>
      cases held : record.pressed <;> simp [Macro.processDynamicMacro, recording, held, ended]

theorem leaveRecord_eq_iff (world : World) (record : KeyRecord) (action : Action) :
    board.fw.leaveRecord world record action = record ↔
      (board.fw.cancelsTap world record action || Firmware.resetsTap record action) = false := by
  unfold Firmware.leaveRecord
  cases cancels : board.fw.cancelsTap world record action with
  | true =>
    have counted : 0 < record.tap.count := by
      simp only [Firmware.cancelsTap, decide_eq_true_eq] at cancels
      exact cancels.2.2.2.2.1
    simp only [↓reduceIte, Bool.true_or, Bool.true_eq_false, iff_false]
    intro same
    have zero : 0 = record.tap.count := congrArg (fun r : KeyRecord => r.tap.count) same
    omega
  | false =>
    cases resets : Firmware.resetsTap record action with
    | true =>
      have counted : 0 < record.tap.count := by
        simp only [Firmware.resetsTap, decide_eq_true_eq] at resets
        exact resets.2.2.2
      simp only [Bool.false_eq_true, ↓reduceIte, Bool.false_or, Bool.true_eq_false, iff_false]
      intro same
      have zero : 0 = record.tap.count := congrArg (fun r : KeyRecord => r.tap.count) same
      omega
    | false => simp

/-- A oneshot layer is used up by a press only. -/
theorem pressed_of_uses {world : World} {record : KeyRecord} {action : Action}
    (uses : board.fw.usesOneshotLayer world record action = true) : record.pressed = true := by
  simp only [Firmware.usesOneshotLayer, decide_eq_true_eq] at uses
  exact uses.2.1

theorem Linked.processAction (action : Action)
    (linked : ∀ s position, Linked cfg board s (again s position)) :
    Linked cfg board s (processAction board again s position action) := by
  unfold Replay.processAction
  extract_lets step record uses cleared doReleaseOneshot left performed released
  have keptByLeave : left = record ↔
      (board.fw.cancelsTap cleared record action || Firmware.resetsTap record action) = false :=
    leaveRecord_eq_iff cleared record action
  have alters : step.alters cfg board ↔
      (board.fw.cancelsTap cleared record action || Firmware.resetsTap record action ||
        (doReleaseOneshot && !board.fw.oneshotPressed performed)) = true := by
    simp only [Step.alters, rewrites, step, doReleaseOneshot, performed, cleared, uses, record]
  cases releases : doReleaseOneshot && !board.fw.oneshotPressed performed with
  | true =>
    rw [releases, Bool.or_true] at alters
    rw [if_pos rfl]
    -- the record is released, and it was pressed
    have pressed : record.pressed = true := by
      simp only [doReleaseOneshot, Bool.and_eq_true] at releases
      exact pressed_of_uses releases.1.1.1
    refine ⟨rfl, _, ⟨fun same => ?_, fun keeps => absurd (alters.mpr rfl) keeps⟩, linked _ _⟩
    have replaced := Function.update_eq_self_iff.mp same
    have released : false = record.pressed :=
      congrArg (fun r : KeyRecord => r.event.pressed) replaced
    rw [pressed] at released
    contradiction
  | false =>
    rw [releases, Bool.or_false] at alters
    rw [if_neg Bool.false_ne_true]
    refine ⟨rfl, _, ?_, Links.refl _⟩
    rw [Function.update_eq_self_iff, alters, Bool.not_eq_true]
    exact keptByLeave

theorem Linked.playLoop (linked : ∀ s position, Linked cfg board s (again s position))
    (macroEnd direction : Int) (fuel : Nat) :
    Linked cfg board s (playLoop again macroEnd direction fuel position s) := by
  induction fuel generalizing s position with
  | zero => exact Links.refl _
  | succ fuel ih =>
    unfold Replay.playLoop
    split
    · exact Links.refl _
    · exact (linked s position).append ih

theorem Linked.dynamicMacroPlay (linked : ∀ s position, Linked cfg board s (again s position))
    (slot : Slot) : Linked cfg board s (dynamicMacroPlay cfg board again s slot) := by
  let started := { s with world := board.host.layerClear (board.host.clearKeyboard s.world) }
  have played : Linked cfg board started (Replay.playLoop again (s.slotEnd slot) slot.direction
      cfg.dynamicMacroSize (slot.macroBuffer cfg) started) := Linked.playLoop linked _ _ _
  exact played

theorem Linked.processDynamicMacro
    (linked : ∀ s position, Linked cfg board s (again s position)) (keycode : Keycode) :
    Linked cfg board s (processDynamicMacro cfg board again s position keycode).1 := by
  unfold Replay.processDynamicMacro
  cases starts : plays s (s.buffer position) keycode with
  | none =>
    have kept := processDynamicMacro_buffer cfg board s (s.buffer position) keycode starts
    exact ⟨rfl, _, kept, Links.refl _⟩
  | some slot =>
    have idle : s.macroId = none := by
      unfold plays at starts
      split at starts
      · contradiction
      · next stays =>
        exact Option.not_isSome_iff_eq_none.mp fun recording => stays (.inl recording)
    have stays : ¬Step.alters cfg board { state := s, position, kind := .dynamicMacro keycode } := by
      rintro ⟨_, slot, recording, _⟩
      rw [idle] at recording
      contradiction
    exact Links.cons_keeps rfl stays (Linked.dynamicMacroPlay linked slot)

theorem Linked.processRecordQuantum
    (linked : ∀ s position, Linked cfg board s (again s position)) :
    Linked cfg board s (processRecordQuantum cfg board again s position).1 := by
  unfold Replay.processRecordQuantum
  extract_lets before entered
  cases reached : before.1 with
  | none => exact Links.refl _
  | some keycode =>
    have dynamic : Linked cfg board entered (Replay.processDynamicMacro cfg board again entered
      position keycode).1 := Linked.processDynamicMacro linked keycode
    dsimp only
    split
    · exact dynamic
    · exact dynamic

theorem Linked.processRecordHandler
    (linked : ∀ s position, Linked cfg board s (again s position)) :
    Linked cfg board s (processRecordHandler board again s position) := by
  unfold Replay.processRecordHandler
  extract_lets record stored
  have acted : Linked cfg board { s with world := stored.2 }
      (Replay.processAction board again { s with world := stored.2 } position stored.1) :=
    Linked.processAction stored.1 linked
  exact acted

theorem Linked.processRecordBody
    (linked : ∀ s position, Linked cfg board s (again s position)) :
    Linked cfg board s (processRecordBody cfg board again s position) := by
  unfold Replay.processRecordBody
  extract_lets step quantum handled left clears
  have stays : ¬step.alters cfg board := id
  split
  · exact Links.cons_keeps rfl stays (Links.refl _)
  have entered : Linked cfg board s quantum.1 := Linked.processRecordQuantum linked
  split
  · have acted : Linked cfg board quantum.1.state handled := Linked.processRecordHandler linked
    exact Links.cons_keeps rfl stays (entered.append acted)
  · exact Links.cons_keeps rfl stays entered

theorem Linked.processRecord (depth : Nat) (s : State World) (position : Int) :
    Linked cfg board s (processRecord cfg board depth s position) := by
  induction depth generalizing s position with
  | zero => exact Links.refl _
  | succ depth ih => exact Linked.processRecordBody ih

end Frames

section Results

variable {World : Type*} (cfg : Config) (board : Board World)

/-- A playback is repeatable exactly when none of its calls changes the buffer. -/
theorem replay_keeps_macros_iff (depth : Nat) (s : State World) (slot : Slot) :
    Repeatable cfg board depth s slot ↔
      ∀ step ∈ (replay cfg board depth s slot).steps, ¬step.alters cfg board := by
  have linked : Linked cfg board s (replay cfg board depth s slot) :=
    Linked.dynamicMacroPlay (Linked.processRecord depth) slot
  rw [← Links.kept_iff linked]
  constructor
  · intro repeatable
    exact ⟨repeatable.found, repeatable.kept⟩
  · rintro ⟨found, kept⟩
    refine ⟨found, kept, ?_⟩
    rw [kept]

/-- A keyboard with a row of mod-tap keys, and no other processing of keycodes. -/
def modTapBoard : Board Unit where
  fw := Tapping.modTapRow
  host := modTapHost
  beforeDynamicMacro world _ := (some (.other 4), world)

/-- The playback of a mod-tap key that was interrupted cancels its tap in the
macro. -/
theorem interrupted_tap_rewritten :
    let cfg : Config := { dynamicMacroSize := 4 }
    let key (pressed : Bool) (tap : Tap) : KeyRecord := { event := { key := ⟨0, 0⟩, pressed, time := 1 }, tap }
    let recorded := Lib.run (Input.exec cfg modTapHost) (initial cfg (fun _ => key false {}) ())
      [⟨.dynRecStart1, key false {}⟩, ⟨.other 4, key true { interrupted := true, count := 1 }⟩,
        ⟨.other 4, key false { interrupted := true, count := 1 }⟩, ⟨.dynRecStop, key true {}⟩]
    (replay cfg modTapBoard 1 recorded .one).state.buffer 0 =
        key true { interrupted := true, count := 0 } ∧
      ¬Repeatable cfg modTapBoard 1 recorded .one := by
  intro cfg key recorded
  have cancelled : (replay cfg modTapBoard 1 recorded .one).state.buffer 0 =
      key true { interrupted := true, count := 0 } := by decide
  refine ⟨cancelled, fun repeatable => ?_⟩
  rw [repeatable.kept] at cancelled
  exact absurd cancelled (by decide)

end Results

end QmkSonix.Replay
