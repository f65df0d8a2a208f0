import Mathlib
import QmkSonix.Lib.Run

/-! The 6KRO keyboard report of `report.c` built with
`RING_BUFFERED_6KRO_REPORT_ENABLE`: six key slots used as a ring. -/

namespace QmkSonix.Report

abbrev Byte := UInt8

/-- A nonzero key code. -/
abbrev KeyCode := { code : Byte // code ≠ 0 }

def keyboardReportKeys : Nat := 6

/-- An index into `keys`. Its sums and differences wrap at `KEYBOARD_REPORT_KEYS`,
as those of `RO_ADD` and `RO_SUB` do. -/
abbrev Slot := Fin 6

scoped instance slots_nonzero : NeZero 6 := ⟨by decide⟩

def roInc (a : Slot) : Slot := a + 1

def roDec (a : Slot) : Slot := a - 1

/-- `keys` of the report with the static indices into it. `cb_count` is an
`int8_t` that the code only ever compares with 0. -/
structure KeyRing where
  keys : Slot → Byte := fun _ => 0
  cbHead : Slot := 0
  cbTail : Slot := 0
  cbCount : BitVec 8 := 0

/-- The search loop of `add_key_byte` from slot `i`: `none` when it returns early
because the code is there, else the first empty slot it met. -/
def findEmpty (keys : Slot → Byte) (cbTail : Slot) (code : Byte) :
    Nat → Slot → Option Slot → Option (Option Slot)
  | 0, _, empty => some empty
  | fuel + 1, i, empty =>
    if keys i = code then none
    else
      let empty := if empty = none ∧ keys i = 0 then some i else empty
      if roInc i = cbTail then some empty
      else findEmpty keys cbTail code fuel (roInc i) empty

/-- The left shift of `add_key_byte` from slot `i`, with the final `offset`. -/
def leftShift (cbTail : Slot) :
    Nat → Slot → Slot → Slot → (Slot → Byte) → (Slot → Byte) × Slot
  | 0, _, _, offset, keys => (keys, offset)
  | fuel + 1, i, empty, offset, keys =>
    let moved := Function.update (Function.update keys empty (keys i)) i 0
    let keys' := if keys i ≠ 0 then moved else keys
    let empty' := if keys i ≠ 0 then roInc empty else empty
    let offset' := if keys i ≠ 0 then offset else offset + 1
    if roInc i = cbTail then (keys', offset')
    else leftShift cbTail fuel (roInc i) empty' offset' keys'

def addToTail (s : KeyRing) (code : Byte) : KeyRing :=
  { s with
    keys := Function.update s.keys s.cbTail code
    cbTail := roInc s.cbTail
    cbCount := s.cbCount + 1 }

/-- `add_key_byte`. A loop that runs round the ring meets `cb_tail` within
`KEYBOARD_REPORT_KEYS` steps. -/
def addKeyByte (s : KeyRing) (code : Byte) : KeyRing :=
  if s.cbCount ≠ 0 then
    match findEmpty s.keys s.cbTail code keyboardReportKeys s.cbHead none with
    | none => s
    | some empty =>
      if s.cbTail = s.cbHead then
        match empty with
        | none =>
          -- pop head when has no empty space
          addToTail { s with cbHead := roInc s.cbHead, cbCount := s.cbCount - 1 } code
        | some empty =>
          let shifted := leftShift s.cbTail keyboardReportKeys (roInc empty) empty 1 s.keys
          addToTail { s with keys := shifted.1, cbTail := s.cbTail - shifted.2 } code
      else addToTail s code
  else addToTail s code

/-- The search loop of `del_key_byte` from slot `i`. -/
def findKey (keys : Slot → Byte) (cbTail : Slot) (code : Byte) : Nat → Slot → Option Slot
  | 0, _ => none
  | fuel + 1, i =>
    if keys i = code then some i
    else if roInc i = cbTail then none
    else findKey keys cbTail code fuel (roInc i)

/-- The loop of `del_key_byte` that moves `cb_tail` down to the last key. -/
def trimTail (keys : Slot → Byte) (cbHead : Slot) : Nat → Slot → Slot
  | 0, cbTail => cbTail
  | fuel + 1, cbTail =>
    if keys (roDec (roDec cbTail)) ≠ 0 then roDec cbTail
    else if roDec cbTail = cbHead then roDec cbTail
    else trimTail keys cbHead fuel (roDec cbTail)

/-- `del_key_byte` -/
def delKeyByte (s : KeyRing) (code : Byte) : KeyRing :=
  if s.cbCount ≠ 0 then
    match findKey s.keys s.cbTail code keyboardReportKeys s.cbHead with
    | none => s
    | some i =>
      let keys := Function.update s.keys i 0
      let cbCount := s.cbCount - 1
      let cbHead := if cbCount = 0 then 0 else s.cbHead
      let cbTail := if cbCount = 0 then 0 else s.cbTail
      { keys, cbHead, cbCount,
        cbTail :=
          if i = roDec cbTail then trimTail keys cbHead keyboardReportKeys cbTail else cbTail }
  else s

/-- `clear_keys_from_report` -/
def clearKeysFromReport (s : KeyRing) : KeyRing := { s with keys := fun _ => 0 }

/-- The operations on the report. -/
inductive Op where
  | addKeyByte (code : KeyCode)
  | delKeyByte (code : KeyCode)
  | clearKeysFromReport

def Op.exec (s : KeyRing) : Op → KeyRing
  | .addKeyByte code => Report.addKeyByte s code.1
  | .delKeyByte code => Report.delKeyByte s code.1
  | .clearKeysFromReport => Report.clearKeysFromReport s

end QmkSonix.Report
