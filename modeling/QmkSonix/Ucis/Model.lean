import Mathlib.Data.Fintype.Basic
import Mathlib.Data.Fintype.Sum
import Mathlib.Logic.Function.Basic
import Mathlib.Tactic.DeriveFintype

/-! The symbol input of `process_ucis.c`. -/

namespace QmkSonix.Ucis

section Characters

/-- A lower-case letter or a digit -/
inductive Sign where
  | letter (index : Fin 26)
  | digit (value : Fin 10)
  deriving DecidableEq, Repr, Fintype

def Sign.isLetter : Sign → Bool
  | .letter _ => true
  | .digit _ => false

/-- The character of a sign in a string -/
def Sign.char : Sign → BitVec 8
  | .letter index => 0x61 + BitVec.ofNat 8 index
  | .digit value => 0x30 + BitVec.ofNat 8 value

def kcA : BitVec 16 := 0x04
def kc1 : BitVec 16 := 0x1E
def kc0 : BitVec 16 := 0x27
def kcEnter : BitVec 16 := 0x28
def kcEscape : BitVec 16 := 0x29
def kcBackspace : BitVec 16 := 0x2A
def kcSpace : BitVec 16 := 0x2C

/-- The keycode of the key that types a sign -/
def Sign.keycode : Sign → BitVec 16
  | .letter index => kcA + BitVec.ofNat 16 index
  | .digit value => if value = 0 then kc0 else kc1 + BitVec.ofNat 16 (value - 1)

end Characters

/-- `qk_ucis_symbol_t`, with the code points that its initialiser gives -/
structure Symbol where
  symbol : List Sign
  codePoints : List (BitVec 32)
  deriving DecidableEq, Repr

structure Config where
  /-- `UCIS_MAX_SYMBOL_LENGTH` -/
  maxSymbolLength : ℕ := 32
  /-- `UCIS_MAX_CODE_POINTS` -/
  maxCodePoints : ℕ := 3
  /-- `ucis_symbol_table`, without the entry that ends it -/
  table : List Symbol

/-- `qk_ucis_state_t` -/
structure State where
  count : BitVec 8 := 0
  codes : ℕ → BitVec 16 := fun _ => 0
  inProgress : Bool := false

/-- What a call may do that the code does not provide for -/
inductive Fault where
  /-- An element outside of `codes` is accessed. -/
  | outside (index : ℕ)
  /-- A loop does not end. -/
  | endless
  deriving DecidableEq, Repr

section Codes

variable (config : Config) (state : State)

def load (index : ℕ) : Except Fault (BitVec 16) :=
  if index < config.maxSymbolLength then .ok (state.codes index) else .error (.outside index)

def store (index : ℕ) (code : BitVec 16) : Except Fault State :=
  if index < config.maxSymbolLength then
    .ok { state with codes := Function.update state.codes index code }
  else .error (.outside index)

end Codes

/-- `qk_ucis_start`; the marker that `qk_ucis_start_user` types is one character. -/
def qkUcisStart (state : State) : State :=
  { state with count := 0, inProgress := true }

section Matching

variable (config : Config) (state : State)

/-- The keycode that `is_uni_seq` expects of a character. No character is at least `'1'` and at
most `'0'`, so that a digit is taken for a letter. -/
def expected (char : BitVec 8) : BitVec 16 :=
  if 0x31 ≤ char && char ≤ 0x30 then char.setWidth 16 - 0x31 + kc1
  else char.setWidth 16 - 0x61 + kcA

/-- The loop of `is_uni_seq`. Its counter is a byte: 256 turns bring it back to where it was, and
a loop that has not ended by then does not end. -/
def isUniSeqLoop (seq : List (BitVec 8)) : ℕ → BitVec 8 → Except Fault Bool
  | 0, _ => .error .endless
  | fuel + 1, i =>
    let char := seq.getD i.toNat 0
    if char = 0 then do
      let code ← load config state i.toNat
      return code = kcEnter || code = kcSpace
    else if state.count < i then
      return false
    else do
      let code ← load config state i.toNat
      if code = expected char then isUniSeqLoop seq fuel (i + 1) else return false

def isUniSeq (symbol : List Sign) : Except Fault Bool :=
  isUniSeqLoop config state (symbol.map Sign.char) 256 0

/-- The loop over `ucis_symbol_table`, whose counter is a byte as well -/
def findSymbol : ℕ → BitVec 8 → Except Fault (Option (BitVec 8 × Symbol))
  | 0, _ => .error .endless
  | fuel + 1, i =>
    match config.table[i.toNat]? with
    | none => return none
    | some entry => do
      if ← isUniSeq config state entry.symbol then return some (i, entry)
      else findSymbol fuel (i + 1)

end Matching

section Process

variable (config : Config) (state : State)

/-- What one call does -/
structure Outcome where
  state : State
  /-- The value that is returned: whether the key goes on to the host -/
  passed : Bool
  /-- How often `KC_BACKSPACE` is tapped before a symbol is looked for -/
  backspaces : ℕ := 0
  /-- The code points that are registered -/
  registered : List (BitVec 32) := []
  /-- The keycodes that are tapped when there is no such symbol -/
  retyped : List (BitVec 8) := []
  /-- The index that `qk_ucis_success` is given -/
  success : Option (BitVec 8) := none

/-- `register_ucis` -/
def registerUcis (entry : Symbol) : List (BitVec 32) :=
  (entry.codePoints.take config.maxCodePoints).takeWhile (· ≠ 0)

/-- `qk_ucis_symbol_fallback` -/
def qkUcisSymbolFallback : Except Fault (List (BitVec 8)) :=
  (List.range (state.count.toNat - 1)).mapM fun i => do
    let code ← load config state i
    return code.setWidth 8

/-- `KC_SPACE`, `KC_ENTER` and `KC_ESCAPE`, once they are stored -/
def finish (keycode : BitVec 16) : Except Fault Outcome :=
  let outcome : Outcome :=
    { state := { state with inProgress := false }, passed := false
      backspaces := state.count.toNat }
  if keycode = kcEscape then return outcome
  else do
    match ← findSymbol config state 256 0 with
    | some (i, entry) =>
      return { outcome with registered := registerUcis config entry, success := some i }
    | none =>
      let retyped ← qkUcisSymbolFallback config state
      return { outcome with retyped := retyped }

def special (keycode : BitVec 16) : Bool :=
  keycode = kcSpace || keycode = kcEnter || keycode = kcEscape || keycode = kcBackspace

def processUcis (keycode : BitVec 16) (pressed : Bool) : Except Fault Outcome :=
  if !state.inProgress || !pressed then return { state := state, passed := true }
  else if config.maxSymbolLength ≤ state.count.toNat && !special keycode then
    return { state := state, passed := false }
  else do
    let stored ← store config state state.count.toNat keycode
    let state := { stored with count := stored.count + 1 }
    if keycode = kcBackspace then
      if 2 ≤ state.count then
        return { state := { state with count := state.count - 2 }, passed := true }
      else return { state := { state with count := state.count - 1 }, passed := false }
    else if special keycode then finish config state keycode
    else return { state := state, passed := true }

end Process

end QmkSonix.Ucis
