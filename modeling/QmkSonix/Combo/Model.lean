import Mathlib
import QmkSonix.Tapping.Action

/-! Combos, as `process_combo.c` keeps them: a bit mask for each combo, the buffer
of the keys that may belong to one, and the ring of the combos that are ready.
Built with the default options. -/

namespace QmkSonix.Combo

open QmkSonix.Keyboard
open QmkSonix.Tapping (isNoEvent)

/-- `keyrecord_t` with `COMBO_ENABLE` -/
structure Record extends KeyRecord where
  keycode : BitVec 16 := 0
  deriving DecidableEq, Repr

/-- `COMBO_KEY_POS` -/
def comboKeyPos : KeyPos := { row := 254, col := 254 }

/-- `COMBO_END` -/
def comboEnd : BitVec 16 := 0

def cmbOn : BitVec 16 := 0x5CF8
def cmbOff : BitVec 16 := 0x5CF9
def cmbTog : BitVec 16 := 0x5CFA

/-- An entry of `key_combos`: its keys, which `COMBO_END` follows, and its result. -/
structure Chord where
  keys : List (BitVec 16)
  keycode : BitVec 16
  ends : comboEnd ∉ keys := by decide

/-- `key_combos`, the bits of a combo's `state`, and the sizes of the buffers. -/
structure Config where
  keyCombos : List Chord
  stateBits : Nat := 8
  comboKeyBufferLength : Nat := 8
  comboBufferLength : Nat := 4
  comboTerm : BitVec 16 := 50
  ringed : 0 < comboBufferLength := by decide
  indexed : keyCombos.length < 65536 := by decide

/-- The changing part of `combo_t`. -/
structure Progress (bits : Nat) where
  state : BitVec bits := 0
  active : Bool := false
  disabled : Bool := false
  deriving DecidableEq

/-- `queued_record_t`. `comboIndex` is `none` for -1. -/
structure QueuedRecord where
  record : Record
  comboIndex : Option Nat := none
  keycode : BitVec 16
  deriving DecidableEq

/-- What the combos call: `action_tapping_process` and `process_combo_event`. -/
structure Host (World : Type*) where
  actionTappingProcess : World → Record → World
  processComboEvent : World → Nat → Bool → World

/-- The statics of `process_combo.c`, and the firmware around them. -/
structure State (cfg : Config) (World : Type*) where
  timer : BitVec 16 := 0
  comboEnabled : Bool := true
  longestTerm : BitVec 16 := 0
  keyBuffer : List QueuedRecord := []
  comboBufferWrite : Nat := 0
  comboBufferRead : Nat := 0
  comboBuffer : Nat → Nat := fun _ => 0
  combos : Nat → Progress cfg.stateBits := fun _ => {}
  world : World

/-- `ALL_COMBO_KEYS_ARE_DOWN` -/
def allComboKeysAreDown {bits : Nat} (state : BitVec bits) (keyCount : Nat) : Bool :=
  2 ^ keyCount - 1 = state.toNat

/-- `ONLY_ONE_KEY_IS_DOWN`, which also holds of none. -/
def onlyOneKeyIsDown {bits : Nat} (state : BitVec bits) : Bool := state &&& (state - 1) = 0

/-- `KEY_NOT_YET_RELEASED` -/
def keyNotYetReleased {bits : Nat} (state : BitVec bits) (keyIndex : Nat) : Bool :=
  BitVec.twoPow bits keyIndex &&& state ≠ 0

/-- `KEY_STATE_DOWN` -/
def keyStateDown {bits : Nat} (state : BitVec bits) (keyIndex : Nat) : BitVec bits :=
  state ||| BitVec.twoPow bits keyIndex

/-- `KEY_STATE_UP` -/
def keyStateUp {bits : Nat} (state : BitVec bits) (keyIndex : Nat) : BitVec bits :=
  state &&& ~~~BitVec.twoPow bits keyIndex

/-- The loop of `_find_key_index_and_count`. The end of the keys is compared too. -/
def findKey (keycode : BitVec 16) : List (BitVec 16) → Option Nat → Nat → Option Nat × Nat
  | [], keyIndex, keyCount => (if keycode = comboEnd then some keyCount else keyIndex, keyCount)
  | key :: rest, keyIndex, keyCount =>
    findKey keycode rest (if keycode = key then some keyCount else keyIndex) (keyCount + 1)

/-- `_find_key_index_and_count` -/
def findKeyIndexAndCount (keys : List (BitVec 16)) (keycode : BitVec 16) : Option Nat × Nat :=
  findKey keycode keys none 0

/-- `overlaps`: the one of two combos that is dropped, if they share a key. -/
def overlaps (combo1 combo2 : Chord) (index1 index2 : Nat) : Option Nat :=
  if combo1.keys.any fun key => combo2.keys.contains key then
    some (if combo2.keys.length < combo1.keys.length then index2 else index1)
  else none

section Functions

variable {cfg : Config} {World : Type*} (host : Host World)

/-- `key_combos[index]` -/
def Config.keyCombo (cfg : Config) (index : Nat) : Chord :=
  cfg.keyCombos.getD index { keys := [], keycode := 0 }

/-- `INCREMENT_MOD` -/
def Config.incrementMod (cfg : Config) (i : Nat) : Nat := (i + 1) % cfg.comboBufferLength

def State.update (s : State cfg World) (index : Nat)
    (change : Progress cfg.stateBits → Progress cfg.stateBits) : State cfg World :=
  { s with combos := Function.update s.combos index (change (s.combos index)) }

/-- `DISABLE_COMBO` -/
def disableCombo (s : State cfg World) (index : Nat) : State cfg World :=
  s.update index fun combo => { combo with disabled := true }

/-- `release_combo`, at the time `now` of `timer_read`. -/
def releaseCombo (now : BitVec 16) (s : State cfg World) (index : Nat) : State cfg World :=
  let keycode := (cfg.keyCombo index).keycode
  let world :=
    if keycode ≠ 0 then
      host.actionTappingProcess s.world
        { event := { key := comboKeyPos, time := now ||| 1, pressed := false }, keycode := keycode }
    else host.processComboEvent s.world index false
  { s with world := world }.update index fun combo => { combo with active := false }

/-- `clear_combos` -/
def clearCombos (s : State cfg World) : State cfg World :=
  { s with
    longestTerm := 0
    combos := fun index =>
      if (s.combos index).active then s.combos index
      else { s.combos index with disabled := false, state := 0 } }

/-- What the loop of `dump_key_buffer` does with a key. -/
def dumpKey (world : World) (qrecord : QueuedRecord) : World :=
  if isNoEvent qrecord.record.event then world
  else
    match qrecord.comboIndex with
    | some index =>
      if qrecord.record.keycode = 0 then host.processComboEvent world index true
      else host.actionTappingProcess world qrecord.record
    | none => host.actionTappingProcess world qrecord.record

/-- `dump_key_buffer` -/
def dumpKeyBuffer (s : State cfg World) : State cfg World :=
  { s with keyBuffer := [], world := s.keyBuffer.foldl (dumpKey host) s.world }

/-- The loop of `drop_combo_from_buffer` from `i`, for at most `steps` combos. -/
def dropFrom (comboIndex : Nat) : Nat → Nat → State cfg World → State cfg World
  | 0, _, s => s
  | steps + 1, i, s =>
    if i = s.comboBufferWrite then s
    else if s.comboBuffer i = comboIndex then
      let disabled := disableCombo s comboIndex
      if i = s.comboBufferRead then
        { disabled with comboBufferRead := cfg.incrementMod s.comboBufferRead }
      else disabled
    else dropFrom comboIndex steps (cfg.incrementMod i) s

/-- `drop_combo_from_buffer` -/
def dropComboFromBuffer (s : State cfg World) (comboIndex : Nat) : State cfg World :=
  dropFrom comboIndex cfg.comboBufferLength s.comboBufferRead s

/-- The loop of `apply_combo` over the key buffer, and whether it reached the last
key of the combo. -/
def applyToKeys {bits : Nat} (combo : Chord) (comboIndex : Nat) :
    BitVec bits → List QueuedRecord → List QueuedRecord × Bool
  | _, [] => ([], false)
  | state, qrecord :: rest =>
    match findKeyIndexAndCount combo.keys qrecord.keycode with
    | (none, _) =>
      let applied := applyToKeys combo comboIndex state rest
      (qrecord :: applied.1, applied.2)
    | (some keyIndex, keyCount) =>
      let down := keyStateDown state keyIndex
      let record := qrecord.record
      if allComboKeysAreDown down keyCount then
        ({ qrecord with
            record := { record with
              keycode := combo.keycode
              event := { record.event with key := comboKeyPos } }
            comboIndex := some comboIndex } :: rest, true)
      else
        -- "disable" the key by making it a TICK event
        let applied := applyToKeys combo comboIndex down rest
        ({ qrecord with record := { record with event := { record.event with time := 0 } } } ::
          applied.1, applied.2)

/-- `apply_combo` -/
def applyCombo (s : State cfg World) (comboIndex : Nat) : State cfg World :=
  if (s.combos comboIndex).disabled then s
  else
    let applied := applyToKeys (cfg.keyCombo comboIndex) comboIndex (0 : BitVec cfg.stateBits)
      s.keyBuffer
    let marked := { s with keyBuffer := applied.1 }
    let activated :=
      if applied.2 then marked.update comboIndex fun combo => { combo with active := true }
      else marked
    dropComboFromBuffer activated comboIndex

/-- The loop of `apply_combos` from `i`, for at most `steps` combos. -/
def applyFrom : Nat → Nat → State cfg World → State cfg World
  | 0, _, s => s
  | steps + 1, i, s =>
    if i = s.comboBufferWrite then s
    else applyFrom steps (cfg.incrementMod i) (applyCombo s (s.comboBuffer i))

/-- `apply_combos` -/
def applyCombos (s : State cfg World) : State cfg World :=
  clearCombos (dumpKeyBuffer host (applyFrom cfg.comboBufferLength s.comboBufferRead s))

/-- The loop of `process_single_combo` over the combos that are ready, from `i`,
and whether the combo itself was dropped. -/
def dropOverlaps (comboIndex : Nat) : Nat → Nat → State cfg World → State cfg World × Bool
  | 0, _, s => (s, false)
  | steps + 1, i, s =>
    if i = s.comboBufferWrite then (s, false)
    else
      let buffered := s.comboBuffer i
      match overlaps (cfg.keyCombo buffered) (cfg.keyCombo comboIndex) buffered comboIndex with
      | none => dropOverlaps comboIndex steps (cfg.incrementMod i) s
      | some drop =>
        let disabled := disableCombo s drop
        if drop = comboIndex then (disabled, true)
        else if i = s.comboBufferRead then
          dropOverlaps comboIndex steps (cfg.incrementMod i)
            { disabled with comboBufferRead := cfg.incrementMod s.comboBufferRead }
        else dropOverlaps comboIndex steps (cfg.incrementMod i) disabled

/-- `process_single_combo` for a combo that is fully pressed. -/
def readyCombo (now : BitVec 16) (s : State cfg World) (comboIndex : Nat) : State cfg World :=
  if s.timer ≠ 0 ∧ cfg.comboTerm < now - s.timer then disableCombo s comboIndex
  else
    let dropped := dropOverlaps comboIndex cfg.comboBufferLength s.comboBufferRead s
    if dropped.2 then dropped.1
    else
      { dropped.1 with
        comboBuffer := Function.update dropped.1.comboBuffer dropped.1.comboBufferWrite comboIndex
        comboBufferWrite := cfg.incrementMod dropped.1.comboBufferWrite }

/-- `process_single_combo` for a press of one of its keys. -/
def pressComboKey (now : BitVec 16) (s : State cfg World) (comboIndex keyIndex keyCount : Nat) :
    State cfg World :=
  let pressed :=
    if (s.combos comboIndex).active then s
    else
      { s.update comboIndex fun combo => { combo with state := keyStateDown combo.state keyIndex } with
        longestTerm := if s.longestTerm < cfg.comboTerm then cfg.comboTerm else s.longestTerm }
  if allComboKeysAreDown (pressed.combos comboIndex).state keyCount then
    readyCombo now pressed comboIndex
  else pressed

/-- `process_single_combo` for a release of one of its keys, or for a press while
the combo is disabled. -/
def releaseComboKey (now : BitVec 16) (s : State cfg World) (comboIndex keyIndex keyCount : Nat) :
    State cfg World × Bool :=
  let combo := s.combos comboIndex
  let left : State cfg World × Bool :=
    if !combo.active && allComboKeysAreDown combo.state keyCount then
      -- first key quickly released
      if combo.disabled then (dropComboFromBuffer s comboIndex, false)
      else (s, s.comboEnabled)
    else if combo.active && onlyOneKeyIsDown combo.state &&
        keyNotYetReleased combo.state keyIndex then
      -- last key released
      (releaseCombo host now s comboIndex, true)
    else if combo.active && keyNotYetReleased combo.state keyIndex then (s, true)
    else (s, false)
  (left.1.update comboIndex fun combo => { combo with state := keyStateUp combo.state keyIndex },
    left.2)

/-- `process_single_combo`, with its return value -/
def processSingleCombo (now : BitVec 16) (s : State cfg World) (keycode : BitVec 16)
    (record : Record) (comboIndex : Nat) : State cfg World × Bool :=
  match findKeyIndexAndCount (cfg.keyCombo comboIndex).keys keycode with
  | (none, _) => (s, false)
  | (some keyIndex, keyCount) =>
    if record.pressed && !(s.combos comboIndex).disabled && s.comboEnabled then
      (pressComboKey now s comboIndex keyIndex keyCount, true)
    else releaseComboKey host now s comboIndex keyIndex keyCount

/-- The loop of `process_combo` over the combos, and whether the key is one of a
combo. -/
def processCombosFrom (now : BitVec 16) (keycode : BitVec 16) (record : Record) :
    List Nat → State cfg World → State cfg World × Bool
  | [], s => (s, false)
  | index :: rest, s =>
    let single := processSingleCombo host now s keycode record index
    let others := processCombosFrom now keycode record rest single.1
    (others.1, single.2 || others.2)

/-- `combo_enable` -/
def comboEnable (s : State cfg World) : State cfg World := { s with comboEnabled := true }

/-- `combo_disable` -/
def comboDisable (s : State cfg World) : State cfg World :=
  dumpKeyBuffer host (clearCombos
    { s with timer := 0, comboEnabled := false, comboBufferRead := s.comboBufferWrite })

/-- `combo_toggle` -/
def comboToggle (s : State cfg World) : State cfg World :=
  if s.comboEnabled then comboDisable host s else comboEnable s

/-- `process_combo` behind its loop. -/
def settleKey (now : BitVec 16) (s : State cfg World) (keycode : BitVec 16) (record : Record)
    (isComboKey : Bool) : State cfg World :=
  if record.pressed && isComboKey then
    { s with
      timer := now
      keyBuffer :=
        if s.keyBuffer.length < cfg.comboKeyBufferLength then
          s.keyBuffer ++ [{ record := record, keycode := keycode }]
        else s.keyBuffer }
  else if s.comboBufferRead ≠ s.comboBufferWrite then applyCombos host s
  else clearCombos { dumpKeyBuffer host s with timer := 0 }

/-- `process_combo`, with its return value, at the time `now` of `timer_read`. -/
def processCombo (now : BitVec 16) (s : State cfg World) (keycode : BitVec 16) (record : Record) :
    State cfg World × Bool :=
  if keycode = cmbOn ∧ record.pressed then (comboEnable s, true)
  else if keycode = cmbOff ∧ record.pressed then (comboDisable host s, true)
  else if keycode = cmbTog ∧ record.pressed then (comboToggle host s, true)
  else
    let looped := processCombosFrom host now keycode record (List.range cfg.keyCombos.length) s
    (settleKey host now looped.1 keycode record looped.2, !looped.2)

/-- `combo_task`, at the time `now` of `timer_read`. -/
def comboTask (now : BitVec 16) (s : State cfg World) : State cfg World :=
  if s.comboEnabled ∧ s.timer ≠ 0 ∧ s.longestTerm < now - s.timer then
    if s.comboBufferRead ≠ s.comboBufferWrite then
      { applyCombos host s with longestTerm := 0, timer := 0 }
    else clearCombos { dumpKeyBuffer host s with timer := 0 }
  else s

end Functions

end QmkSonix.Combo
