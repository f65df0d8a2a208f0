import QmkSonix.Lib.Run
import QmkSonix.Combo.Stale

/-! Combos with `EXTRA_SHORT_COMBOS`: the two flags of a combo are the high bits of
its `state`. The functions are those of the build with fields of their own, over
other macros. -/

namespace QmkSonix.Combo.Short

open Lib QmkSonix.Combo

/-- `COMBO_ACTIVE` -/
def comboActive (combo : BitVec 8) : Bool := combo &&& 0x80 ≠ 0

/-- `COMBO_DISABLED` -/
def comboDisabled (combo : BitVec 8) : Bool := combo &&& 0x40 ≠ 0

/-- `COMBO_STATE` -/
def comboState (combo : BitVec 8) : BitVec 8 := combo &&& 0x3F

/-- `ACTIVATE_COMBO` -/
def activate (combo : BitVec 8) : BitVec 8 := combo ||| 0x80

/-- `DEACTIVATE_COMBO` -/
def deactivate (combo : BitVec 8) : BitVec 8 := combo &&& ~~~0x80

/-- `DISABLE_COMBO` -/
def disable (combo : BitVec 8) : BitVec 8 := combo ||| 0x40

/-- `RESET_COMBO_STATE` -/
def resetState (combo : BitVec 8) : BitVec 8 := combo &&& ~~~0x7F

/-- The statics of `process_combo.c`, and the firmware around them. -/
structure State (cfg : Config) (World : Type*) where
  timer : BitVec 16 := 0
  comboEnabled : Bool := true
  longestTerm : BitVec 16 := 0
  keyBuffer : List QueuedRecord := []
  comboBufferWrite : Nat := 0
  comboBufferRead : Nat := 0
  comboBuffer : Nat → Nat := fun _ => 0
  combos : Nat → BitVec 8 := fun _ => 0
  world : World

section Functions

variable {cfg : Config} {World : Type*} (host : Host World)

def State.update (s : State cfg World) (index : Nat) (change : BitVec 8 → BitVec 8) :
    State cfg World :=
  { s with combos := Function.update s.combos index (change (s.combos index)) }

/-- `DISABLE_COMBO`, of a combo of the table -/
def disableCombo (s : State cfg World) (index : Nat) : State cfg World := s.update index disable

/-- `release_combo`, at the time `now` of `timer_read`. -/
def releaseCombo (now : BitVec 16) (s : State cfg World) (index : Nat) : State cfg World :=
  let keycode := (cfg.keyCombo index).keycode
  let world :=
    if keycode ≠ 0 then
      host.actionTappingProcess s.world
        { event := { key := comboKeyPos, time := now ||| 1, pressed := false }, keycode := keycode }
    else host.processComboEvent s.world index false
  { s with world := world }.update index deactivate

/-- `clear_combos` -/
def clearCombos (s : State cfg World) : State cfg World :=
  { s with
    longestTerm := 0
    combos := fun index =>
      if comboActive (s.combos index) then s.combos index else resetState (s.combos index) }

/-- `dump_key_buffer` -/
def dumpKeyBuffer (s : State cfg World) : State cfg World :=
  { s with keyBuffer := [], world := s.keyBuffer.foldl (dumpKey host) s.world }

/-- The loop of `drop_combo_from_buffer` from `i`, for at most `steps` combos. -/
def dropFrom (comboIndex : Nat) : Nat → Nat → State cfg World → State cfg World
  | 0, _, s => s
  | steps + 1, i, s =>
    if i = s.comboBufferWrite then s
    else if s.comboBuffer i = comboIndex then
      let disabled := disableCombo s comboIndex
      if i = s.comboBufferRead then
        { disabled with comboBufferRead := cfg.incrementMod s.comboBufferRead }
      else disabled
    else dropFrom comboIndex steps (cfg.incrementMod i) s

/-- `drop_combo_from_buffer` -/
def dropComboFromBuffer (s : State cfg World) (comboIndex : Nat) : State cfg World :=
  dropFrom comboIndex cfg.comboBufferLength s.comboBufferRead s

/-- `apply_combo`. Its own `state` is a plain byte. -/
def applyCombo (s : State cfg World) (comboIndex : Nat) : State cfg World :=
  if comboDisabled (s.combos comboIndex) then s
  else
    let applied := applyToKeys (cfg.keyCombo comboIndex) comboIndex (0 : BitVec 8) s.keyBuffer
    let marked := { s with keyBuffer := applied.1 }
    let activated := if applied.2 then marked.update comboIndex activate else marked
    dropComboFromBuffer activated comboIndex

/-- The loop of `apply_combos` from `i`, for at most `steps` combos. -/
def applyFrom : Nat → Nat → State cfg World → State cfg World
  | 0, _, s => s
  | steps + 1, i, s =>
    if i = s.comboBufferWrite then s
    else applyFrom steps (cfg.incrementMod i) (applyCombo s (s.comboBuffer i))

/-- `apply_combos` -/
def applyCombos (s : State cfg World) : State cfg World :=
  clearCombos (dumpKeyBuffer host (applyFrom cfg.comboBufferLength s.comboBufferRead s))

/-- The loop of `process_single_combo` over the combos that are ready, from `i`,
and whether the combo itself was dropped. -/
def dropOverlaps (comboIndex : Nat) : Nat → Nat → State cfg World → State cfg World × Bool
  | 0, _, s => (s, false)
  | steps + 1, i, s =>
    if i = s.comboBufferWrite then (s, false)
    else
      let buffered := s.comboBuffer i
      match overlaps (cfg.keyCombo buffered) (cfg.keyCombo comboIndex) buffered comboIndex with
      | none => dropOverlaps comboIndex steps (cfg.incrementMod i) s
      | some drop =>
        let disabled := disableCombo s drop
        if drop = comboIndex then (disabled, true)
        else if i = s.comboBufferRead then
          dropOverlaps comboIndex steps (cfg.incrementMod i)
            { disabled with comboBufferRead := cfg.incrementMod s.comboBufferRead }
        else dropOverlaps comboIndex steps (cfg.incrementMod i) disabled

/-- `process_single_combo` for a combo that is fully pressed. -/
def readyCombo (now : BitVec 16) (s : State cfg World) (comboIndex : Nat) : State cfg World :=
  if s.timer ≠ 0 ∧ cfg.comboTerm < now - s.timer then disableCombo s comboIndex
  else
    let dropped := dropOverlaps comboIndex cfg.comboBufferLength s.comboBufferRead s
    if dropped.2 then dropped.1
    else
      { dropped.1 with
        comboBuffer := Function.update dropped.1.comboBuffer dropped.1.comboBufferWrite comboIndex
        comboBufferWrite := cfg.incrementMod dropped.1.comboBufferWrite }

/-- `process_single_combo` for a press of one of its keys. -/
def pressComboKey (now : BitVec 16) (s : State cfg World) (comboIndex keyIndex keyCount : Nat) :
    State cfg World :=
  let pressed :=
    if comboActive (s.combos comboIndex) then s
    else
      { s.update comboIndex fun combo => keyStateDown combo keyIndex with
        longestTerm := if s.longestTerm < cfg.comboTerm then cfg.comboTerm else s.longestTerm }
  if allComboKeysAreDown (comboState (pressed.combos comboIndex)) keyCount then
    readyCombo now pressed comboIndex
  else pressed

/-- `process_single_combo` for a release of one of its keys, or for a press while
the combo is disabled. -/
def releaseComboKey (now : BitVec 16) (s : State cfg World) (comboIndex keyIndex keyCount : Nat) :
    State cfg World × Bool :=
  let combo := s.combos comboIndex
  let left : State cfg World × Bool :=
    if !comboActive combo && allComboKeysAreDown (comboState combo) keyCount then
      if comboDisabled combo then (dropComboFromBuffer s comboIndex, false)
      else (s, s.comboEnabled)
    else if comboActive combo && onlyOneKeyIsDown (comboState combo) &&
        keyNotYetReleased (comboState combo) keyIndex then
      (releaseCombo host now s comboIndex, true)
    else if comboActive combo && keyNotYetReleased (comboState combo) keyIndex then (s, true)
    else (s, false)
  (left.1.update comboIndex fun combo => keyStateUp combo keyIndex, left.2)

/-- `process_single_combo`, with its return value -/
def processSingleCombo (now : BitVec 16) (s : State cfg World) (keycode : BitVec 16)
    (record : Record) (comboIndex : Nat) : State cfg World × Bool :=
  match findKeyIndexAndCount (cfg.keyCombo comboIndex).keys keycode with
  | (none, _) => (s, false)
  | (some keyIndex, keyCount) =>
    if record.pressed && !comboDisabled (s.combos comboIndex) && s.comboEnabled then
      (pressComboKey now s comboIndex keyIndex keyCount, true)
    else releaseComboKey host now s comboIndex keyIndex keyCount

/-- The loop of `process_combo` over the combos, and whether the key is one of a
combo. -/
def processCombosFrom (now : BitVec 16) (keycode : BitVec 16) (record : Record) :
    List Nat → State cfg World → State cfg World × Bool
  | [], s => (s, false)
  | index :: rest, s =>
    let single := processSingleCombo host now s keycode record index
    let others := processCombosFrom now keycode record rest single.1
    (others.1, single.2 || others.2)

/-- `combo_enable` -/
def comboEnable (s : State cfg World) : State cfg World := { s with comboEnabled := true }

/-- `combo_disable` -/
def comboDisable (s : State cfg World) : State cfg World :=
  dumpKeyBuffer host (clearCombos
    { s with timer := 0, comboEnabled := false, comboBufferRead := s.comboBufferWrite })

/-- `combo_toggle` -/
def comboToggle (s : State cfg World) : State cfg World :=
  if s.comboEnabled then comboDisable host s else comboEnable s

/-- `process_combo` behind its loop. -/
def settleKey (now : BitVec 16) (s : State cfg World) (keycode : BitVec 16) (record : Record)
    (isComboKey : Bool) : State cfg World :=
  if record.pressed && isComboKey then
    { s with
      timer := now
      keyBuffer :=
        if s.keyBuffer.length < cfg.comboKeyBufferLength then
          s.keyBuffer ++ [{ record := record, keycode := keycode }]
        else s.keyBuffer }
  else if s.comboBufferRead ≠ s.comboBufferWrite then applyCombos host s
  else clearCombos { dumpKeyBuffer host s with timer := 0 }

/-- `process_combo`, with its return value, at the time `now` of `timer_read`. -/
def processCombo (now : BitVec 16) (s : State cfg World) (keycode : BitVec 16) (record : Record) :
    State cfg World × Bool :=
  if keycode = cmbOn ∧ record.pressed then (comboEnable s, true)
  else if keycode = cmbOff ∧ record.pressed then (comboDisable host s, true)
  else if keycode = cmbTog ∧ record.pressed then (comboToggle host s, true)
  else
    let looped := processCombosFrom host now keycode record (List.range cfg.keyCombos.length) s
    (settleKey host now looped.1 keycode record looped.2, !looped.2)

/-- `combo_task`, at the time `now` of `timer_read`. -/
def comboTask (now : BitVec 16) (s : State cfg World) : State cfg World :=
  if s.comboEnabled ∧ s.timer ≠ 0 ∧ s.longestTerm < now - s.timer then
    if s.comboBufferRead ≠ s.comboBufferWrite then
      { applyCombos host s with longestTerm := 0, timer := 0 }
    else clearCombos { dumpKeyBuffer host s with timer := 0 }
  else s

end Functions

end QmkSonix.Combo.Short
