import QmkSonix.Keyboard.Record
import QmkSonix.Lib.Run

/-! The two dynamic macros of `process_dynamic_macro.c`, which share one buffer
and grow towards each other. -/

namespace QmkSonix.Macro

open QmkSonix.Keyboard

/-- `DYNAMIC_MACRO_SIZE` and `DYNAMIC_MACRO_NO_NESTING`. -/
structure Config where
  dynamicMacroSize : Nat
  noNesting : Bool := false
  positive : 0 < dynamicMacroSize := by decide

/-- The keycodes that the function tells apart. -/
inductive Keycode where
  | dynRecStart1 | dynRecStart2 | dynRecStop | dynMacroPlay1 | dynMacroPlay2
  | other (code : BitVec 16)
  deriving DecidableEq, Repr

/-- The two macros, `macro_id` 1 and 2. -/
inductive Slot where
  | one | two
  deriving DecidableEq, Repr

namespace Slot

def other : Slot → Slot
  | one => two
  | two => one

def direction : Slot → Int
  | one => 1
  | two => -1

/-- `macro_buffer` and `r_macro_buffer`: where the slot begins. -/
def macroBuffer (cfg : Config) : Slot → Int
  | one => 0
  | two => cfg.dynamicMacroSize - 1

end Slot

/-- The firmware around the macros. `processRecord` is handed a pointer into the
buffer, so that it also returns the record it leaves there. -/
structure Host (World : Type*) where
  processRecord : World → KeyRecord → World × KeyRecord
  clearKeyboard : World → World
  layerClear : World → World
  layerState : World → BitVec 32
  setLayerState : World → BitVec 32 → World
  recordStartUser : World → World
  playUser : World → Int → World
  recordKeyUser : World → Int → KeyRecord → World
  recordEndUser : World → Int → World

/-- The static variables of `process_dynamic_macro`. Pointers into the buffer are
positions, which may be one before it or one behind it. `macroId` is `none` for 0. -/
structure State (World : Type*) where
  buffer : Int → KeyRecord
  macroEnd : Int
  rMacroEnd : Int
  macroPointer : Int := 0
  macroId : Option Slot := none
  world : World

section Functions

variable {World : Type*}

def State.slotEnd (s : State World) : Slot → Int
  | .one => s.macroEnd
  | .two => s.rMacroEnd

def State.setSlotEnd (s : State World) (position : Int) : Slot → State World
  | .one => { s with macroEnd := position }
  | .two => { s with rMacroEnd := position }

/-- What a call does: the state it leaves, its return value, the records it hands
to `process_record`, and the positions of the buffer that it lets be written. -/
structure Result (World : Type*) where
  state : State World
  passOn : Bool
  fed : List KeyRecord := []
  written : List Int := []

/-- `dynamic_macro_record_start` -/
def dynamicMacroRecordStart (host : Host World) (s : State World) (position : Int) : State World :=
  { s with
    world := host.layerClear (host.clearKeyboard (host.recordStartUser s.world))
    macroPointer := position }

/-- The loop of `dynamic_macro_play` from `position`, for at most `fuel` records. -/
def playLoop (host : Host World) (macroEnd direction : Int) :
    Nat → Int → (Int → KeyRecord) → World → (Int → KeyRecord) × World × List KeyRecord × List Int
  | 0, _, buffer, world => (buffer, world, [], [])
  | fuel + 1, position, buffer, world =>
    if position = macroEnd then (buffer, world, [], [])
    else
      let processed := host.processRecord world (buffer position)
      let rest := playLoop host macroEnd direction fuel (position + direction)
        (Function.update buffer position processed.2) processed.1
      (rest.1, rest.2.1, buffer position :: rest.2.2.1, position :: rest.2.2.2)

/-- `dynamic_macro_play`. A macro has at most `DYNAMIC_MACRO_SIZE` records. -/
def dynamicMacroPlay (cfg : Config) (host : Host World) (s : State World) (slot : Slot) :
    Result World :=
  let savedLayerState := host.layerState s.world
  let played := playLoop host (s.slotEnd slot) slot.direction cfg.dynamicMacroSize
    (slot.macroBuffer cfg) s.buffer (host.layerClear (host.clearKeyboard s.world))
  let world := host.setLayerState (host.clearKeyboard played.2.1) savedLayerState
  { state := { s with buffer := played.1, world := host.playUser world slot.direction }
    passOn := false
    fed := played.2.2.1
    written := played.2.2.2 }

/-- `dynamic_macro_record_key` -/
def dynamicMacroRecordKey (cfg : Config) (host : Host World) (s : State World) (slot : Slot)
    (record : KeyRecord) : State World × List Int :=
  if ¬record.pressed ∧ s.macroPointer = slot.macroBuffer cfg then (s, [])
  else if s.macroPointer - slot.direction ≠ s.slotEnd slot.other then
    ({ s with
        buffer := Function.update s.buffer s.macroPointer record
        macroPointer := s.macroPointer + slot.direction }, [s.macroPointer])
  else ({ s with world := host.recordKeyUser s.world slot.direction record }, [])

/-- The loop of `dynamic_macro_record_end`. -/
def trimPresses (macroBuffer direction : Int) (buffer : Int → KeyRecord) : Nat → Int → Int
  | 0, position => position
  | fuel + 1, position =>
    if position ≠ macroBuffer ∧ (buffer (position - direction)).pressed then
      trimPresses macroBuffer direction buffer fuel (position - direction)
    else position

/-- `dynamic_macro_record_end` -/
def dynamicMacroRecordEnd (cfg : Config) (host : Host World) (s : State World) (slot : Slot) :
    State World :=
  let position := trimPresses (slot.macroBuffer cfg) slot.direction s.buffer cfg.dynamicMacroSize
    s.macroPointer
  { s with world := host.recordEndUser s.world slot.direction }.setSlotEnd position slot

/-- `process_dynamic_macro` -/
def processDynamicMacro (cfg : Config) (host : Host World) (s : State World) (keycode : Keycode)
    (record : KeyRecord) : Result World :=
  match s.macroId with
  | none =>
    if record.pressed then { state := s, passOn := true }
    else match keycode with
      | .dynRecStart1 =>
        { state := { dynamicMacroRecordStart host s (Slot.one.macroBuffer cfg) with
            macroId := some .one }, passOn := false }
      | .dynRecStart2 =>
        { state := { dynamicMacroRecordStart host s (Slot.two.macroBuffer cfg) with
            macroId := some .two }, passOn := false }
      | .dynMacroPlay1 => dynamicMacroPlay cfg host s .one
      | .dynMacroPlay2 => dynamicMacroPlay cfg host s .two
      | _ => { state := s, passOn := true }
  | some slot =>
    let store : Result World :=
      let stored := dynamicMacroRecordKey cfg host s slot record
      { state := stored.1, passOn := true, written := stored.2 }
    match keycode with
    | .dynRecStart1 | .dynRecStart2 | .dynRecStop =>
      -- ignore the initial release just after the recording starts for DYN_REC_STOP
      if record.pressed ^^ (keycode ≠ .dynRecStop) then
        { state := { dynamicMacroRecordEnd cfg host s slot with macroId := none }, passOn := false }
      else { state := s, passOn := false }
    | .dynMacroPlay1 | .dynMacroPlay2 => if cfg.noNesting then { state := s, passOn := false } else store
    | .other _ => store

/-- One call of `process_dynamic_macro`. -/
structure Input where
  keycode : Keycode
  record : KeyRecord
  deriving DecidableEq

def Input.exec (cfg : Config) (host : Host World) (s : State World) (input : Input) :
    State World :=
  (processDynamicMacro cfg host s input.keycode input.record).state

/-- Both macros empty, over any buffer. -/
def initial (cfg : Config) (buffer : Int → KeyRecord) (world : World) : State World :=
  { buffer, world, macroEnd := Slot.one.macroBuffer cfg, rMacroEnd := Slot.two.macroBuffer cfg }

end Functions

end QmkSonix.Macro
