import Mathlib

/-! The steno protocols of `process_steno.c`. -/

namespace QmkSonix.Steno

/-- `steno_mode_t` -/
inductive Mode where
  | bolt
  | gemini
  deriving DecidableEq, Repr

/-- `keycode - QK_STENO` of a keycode from `STN__MIN` to `STN__MAX` -/
abbrev StenoKey := Fin 42

section Boltmap

def txbNul : BitVec 8 := 0b00000000
def txbSL : BitVec 8 := 0b00000001
def txbTL : BitVec 8 := 0b00000010
def txbKL : BitVec 8 := 0b00000100
def txbPL : BitVec 8 := 0b00001000
def txbWL : BitVec 8 := 0b00010000
def txbHL : BitVec 8 := 0b00100000
def txbRL : BitVec 8 := 0b01000001
def txbAL : BitVec 8 := 0b01000010
def txbOL : BitVec 8 := 0b01000100
def txbStr : BitVec 8 := 0b01001000
def txbER : BitVec 8 := 0b01010000
def txbUR : BitVec 8 := 0b01100000
def txbFR : BitVec 8 := 0b10000001
def txbRR : BitVec 8 := 0b10000010
def txbPR : BitVec 8 := 0b10000100
def txbBR : BitVec 8 := 0b10001000
def txbLR : BitVec 8 := 0b10010000
def txbGR : BitVec 8 := 0b10100000
def txbTR : BitVec 8 := 0b11000001
def txbSR : BitVec 8 := 0b11000010
def txbDR : BitVec 8 := 0b11000100
def txbZR : BitVec 8 := 0b11001000
def txbNum : BitVec 8 := 0b11010000

def txbGrpmask : BitVec 8 := 0b11000000

/-- The entries of `boltmap` from the first on; the rest of its 64 entries are zero. -/
def boltmapEntries : List (BitVec 8) :=
  [txbNul, txbNum, txbNum, txbNum, txbNum, txbNum, txbNum, txbSL, txbSL, txbTL, txbKL, txbPL,
    txbWL, txbHL, txbRL, txbAL, txbOL, txbStr, txbStr, txbNul, txbNul, txbNul, txbStr, txbStr,
    txbER, txbUR, txbFR, txbRR, txbPR, txbBR, txbLR, txbGR, txbTR, txbSR, txbDR, txbNum, txbNum,
    txbNum, txbNum, txbNum, txbNum, txbZR]

def boltmap (key : StenoKey) : BitVec 8 := boltmapEntries.getD key 0

/-- The groups of a chord are the first four of its bytes. -/
theorem group_lt (code : BitVec 8) : ((code &&& txbGrpmask) >>> 6).toNat < 6 := by
  have byte := (code &&& txbGrpmask).isLt
  rw [BitVec.toNat_ushiftRight, Nat.shiftRight_eq_div_pow]
  omega

/-- `TXB_GET_GROUP` -/
def txbGetGroup (code : BitVec 8) : Fin 6 := ⟨((code &&& txbGrpmask) >>> 6).toNat, group_lt code⟩

end Boltmap

section Keycodes

def stnS1 : StenoKey := 7
def stnS2 : StenoKey := 8
def stnTL : StenoKey := 9
def stnKL : StenoKey := 10
def stnPL : StenoKey := 11
def stnWL : StenoKey := 12
def stnHL : StenoKey := 13
def stnRL : StenoKey := 14
def stnA : StenoKey := 15
def stnO : StenoKey := 16
def stnE : StenoKey := 24
def stnU : StenoKey := 25
def stnFR : StenoKey := 26
def stnRR : StenoKey := 27
def stnPR : StenoKey := 28
def stnBR : StenoKey := 29
def stnLR : StenoKey := 30
def stnGR : StenoKey := 31
def stnTR : StenoKey := 32
def stnSR : StenoKey := 33
def stnDR : StenoKey := 34
def stnZR : StenoKey := 41

/-- `combinedmap_first`, by `keycode - QK_STENO_COMB` -/
def combinedmapFirst : Fin 11 → StenoKey :=
  ![stnS1, stnTL, stnPL, stnHL, stnFR, stnPR, stnLR, stnTR, stnDR, stnA, stnE]

/-- `combinedmap_second` -/
def combinedmapSecond : Fin 11 → StenoKey :=
  ![stnS2, stnKL, stnWL, stnRL, stnRR, stnBR, stnGR, stnSR, stnZR, stnO, stnU]

/-- The keycodes that `process_steno` tells apart; `combined` is there with `STENO_COMBINEDMAP`. -/
inductive Keycode where
  | bolt
  | gemini
  | combined (key : Fin 11)
  | steno (key : StenoKey)
  | other (keycode : BitVec 16)
  deriving DecidableEq, Repr

end Keycodes

/-- The static variables, with the byte at `EECONFIG_STENOMODE` -/
structure State where
  mode : Mode
  state : Fin 6 → BitVec 8 := fun _ => 0
  chord : Fin 6 → BitVec 8 := fun _ => 0
  pressed : BitVec 8 := 0
  stored : Mode := mode

def stenoClearState (state : State) : State :=
  { state with state := fun _ => 0, chord := fun _ => 0 }

/-- What is sent of a chord -/
def sendStenoState (chord : Fin 6 → BitVec 8) (size : ℕ) (sendEmpty : Bool) : List (BitVec 8) :=
  (((List.finRange 6).take size).map chord).filter (fun byte => byte != 0 || sendEmpty)

def stenoSetMode (state : State) (newMode : Mode) : State :=
  { stenoClearState state with mode := newMode, stored := newMode }

/-- The state behind, and the bytes that are sent -/
def sendStenoChord (state : State) : State × List (BitVec 8) :=
  match state.mode with
  | .bolt => (stenoClearState state, sendStenoState state.chord 4 false ++ [0])
  | .gemini =>
    let chord := Function.update state.chord 0 (state.chord 0 ||| 0x80)
    (stenoClearState state, sendStenoState chord 6 true)

/-- A key sets its bits of one byte when it is pressed, and clears them in the state when it is
released. -/
def updateState (slot : Fin 6) (bits : BitVec 8) (state : State) (press : Bool) : State :=
  if press then
    { state with
      state := Function.update state.state slot (state.state slot ||| bits)
      chord := Function.update state.chord slot (state.chord slot ||| bits) }
  else
    { state with state := Function.update state.state slot (state.state slot &&& ~~~bits) }

def updateStateBolt (state : State) (key : StenoKey) (press : Bool) : State :=
  updateState (txbGetGroup (boltmap key)) (boltmap key) state press

theorem slot_lt (key : StenoKey) : key.val / 7 < 6 := Nat.div_lt_of_lt_mul key.isLt

def updateStateGemini (state : State) (key : StenoKey) (press : Bool) : State :=
  updateState ⟨key.val / 7, slot_lt key⟩ (1#8 <<< (6 - key.val % 7)) state press

/-- The keycodes from `STN__MIN` to `STN__MAX` -/
def processStenoKey (state : State) (key : StenoKey) (press : Bool) :
    State × List (BitVec 8) :=
  let state := match state.mode with
    | .bolt => updateStateBolt state key press
    | .gemini => updateStateGemini state key press
  if press then
    ({ state with pressed := state.pressed + 1 }, [])
  else if (state.pressed - 1).toInt ≤ 0 then
    sendStenoChord { state with pressed := 0 }
  else
    ({ state with pressed := state.pressed - 1 }, [])

/-- `process_steno` with the default hooks: the state behind, the bytes that are sent, and
whether the keycode is left to others -/
def processSteno (state : State) (keycode : Keycode) (press : Bool) :
    State × List (BitVec 8) × Bool :=
  match keycode with
  | .bolt => (if press then stenoSetMode state .bolt else state, [], false)
  | .gemini => (if press then stenoSetMode state .gemini else state, [], false)
  | .combined key =>
    let (first, firstSent) := processStenoKey state (combinedmapFirst key) press
    let (second, secondSent) := processStenoKey first (combinedmapSecond key) press
    (second, firstSent ++ secondSent, false)
  | .steno key =>
    let (state, sent) := processStenoKey state key press
    (state, sent, false)
  | .other _ => (state, [], true)

end QmkSonix.Steno
