import Mathlib
import QmkSonix.Lib.Strings

/-! The terminal of `process_terminal.c`, with the arrays that it writes. What it sends to the
host, and the variables of its commands, are left out. -/

namespace QmkSonix.Terminal

open QmkSonix.Lib.Strings

structure Config where
  /-- `CMD_BUFF_SIZE`, which a `short int` counts -/
  cmdBuffSize : ℕ
  positive : 0 < cmdBuffSize
  counted : cmdBuffSize < 2 ^ 15
  /-- `TERMINAL_HELP` -/
  terminalHelp : Bool

/-- The global variables; a function fails where it accesses an element outside of its array. -/
structure State where
  terminalEnabled : Bool := false
  /-- `char buffer[80]` -/
  buffer : ℕ → BitVec 8 := fun _ => 0
  /-- `char cmd_buffer[CMD_BUFF_SIZE][80]` -/
  cmdBuffer : ℕ → ℕ → BitVec 8 := fun _ _ => 0
  cmdBufferEnabled : Bool := true
  /-- `char arguments[6][20]` -/
  arguments : ℕ → ℕ → BitVec 8 := fun _ _ => 0
  firstTime : Bool := true
  currentCmdBufferPos : ℤ := 0

section Keycodes

def termOn : BitVec 16 := 0x5D2C
def termOff : BitVec 16 := 0x5D2D
def qkModTap : BitVec 16 := 0x6000
def qkModTapMax : BitVec 16 := 0x7FFF
def qkLayerTap : BitVec 16 := 0x4000
def qkLayerTapMax : BitVec 16 := 0x4FFF
def kcEnter : BitVec 16 := 0x28
def kcEscape : BitVec 16 := 0x29
def kcBackspace : BitVec 16 := 0x2A
def kcRight : BitVec 16 := 0x4F
def kcLeft : BitVec 16 := 0x50
def kcDown : BitVec 16 := 0x51
def kcUp : BitVec 16 := 0x52
def kcKpEnter : BitVec 16 := 0x58

/-- The bytes of a string of ASCII characters -/
def ascii (text : String) : List (BitVec 8) := text.toList.map fun char => BitVec.ofNat 8 char.toNat

/-- The first 57 entries of `keycode_to_ascii_lut`; the last one is zero. -/
def keycodeToAsciiLut : List (BitVec 8) :=
  [0, 0, 0, 0] ++ ascii "abcdefghijklmnopqrstuvwxyz1234567890" ++ [0, 0, 0] ++ ascii "\t -=[]\\" ++
    [0] ++ ascii ";'`,./"

def shiftedKeycodeToAsciiLut : List (BitVec 8) :=
  [0, 0, 0, 0] ++ ascii "ABCDEFGHIJKLMNOPQRSTUVWXYZ!@#$%^&*()" ++ [0, 0, 0] ++
    ascii "\t _+\x7b\x7d|" ++ [0] ++ ascii ":'~<>?"

/-- An entry of one of the tables, which have 58 of them -/
def entry (table : List (BitVec 8)) (keycode : BitVec 16) : Option (BitVec 8) :=
  if keycode.toNat < 58 then some (table.getD keycode.toNat 0) else none

end Keycodes

section Buffers

variable (config : Config) (state : State)

def enableTerminal : State :=
  { state with
    terminalEnabled := true
    buffer := Function.update state.buffer 0 0
    cmdBuffer := fun _ _ => 0
    arguments := fun i => Function.update (state.arguments i) 0 0 }

def disableTerminal : State := { state with terminalEnabled := false }

/-- The loop of `push_to_cmd_buffer`, from a row on down -/
def shiftRows : ℕ → (ℕ → ℕ → BitVec 8) → ℕ → ℕ → BitVec 8
  | 0, rows => rows
  | i + 1, rows =>
    shiftRows i (Function.update rows (i + 1) (strncpy 80 (rows i) (rows (i + 1))))

/-- `strcpy(cmd_buffer[0], buffer)` -/
def copyBuffer (rows : ℕ → ℕ → BitVec 8) : Option State := do
  let text ← read 80 state.buffer
  let row ← strcpy 80 text (rows 0)
  return { state with cmdBuffer := Function.update rows 0 row }

def pushToCmdBuffer : Option State :=
  if state.cmdBufferEnabled then
    if state.firstTime then copyBuffer { state with firstTime := false } state.cmdBuffer
    else copyBuffer state (shiftRows (config.cmdBuffSize - 1) state.cmdBuffer)
  else some state

/-- `check_pos` -/
def checkPos : ℤ :=
  if config.cmdBuffSize ≤ state.currentCmdBufferPos then config.cmdBuffSize - 1
  else if state.currentCmdBufferPos < 0 then 0
  else state.currentCmdBufferPos

/-- `cmd_buffer[current_cmd_buffer_pos]` -/
def rowAt (pos : ℤ) : Option (ℕ → BitVec 8) :=
  if 0 ≤ pos ∧ pos < config.cmdBuffSize then some (state.cmdBuffer pos.toNat) else none

end Buffers

section Commands

variable (config : Config) (state : State)

inductive Command where
  | about
  | help
  | keycode
  | keymap
  | flushBuffer
  | printBuffer
  | exit
  deriving DecidableEq, Repr

def terminalCases : List (List (BitVec 8) × Command) :=
  [(ascii "about", .about), (ascii "help", .help), (ascii "keycode", .keycode),
    (ascii "keymap", .keymap), (ascii "flush-buffer", .flushBuffer),
    (ascii "print-buffer", .printBuffer), (ascii "exit", .exit)]

/-- Arguments are read one after another while they are not empty. -/
def readFilled : List ℕ → Option Unit
  | [] => some ()
  | i :: rest => do
    let argument ← read 20 (state.arguments i)
    if argument = [] then some () else readFilled rest

/-- What a command reads and leaves of the arrays -/
def perform : Command → Option State
  | .about => do
    if config.terminalHelp then readFilled state [1] else some ()
    return state
  | .help => some state
  | .keycode => do
    readFilled state [1, 2, 3]
    return state
  | .keymap => do
    readFilled state [1]
    return state
  | .flushBuffer => some { state with cmdBuffer := fun _ _ => 0 }
  | .printBuffer =>
    if ∀ row < config.cmdBuffSize, Terminated 80 (state.cmdBuffer row) then some state else none
  | .exit => some (disableTerminal state)

/-- `strcpy(arguments[i], pch)` for each word -/
def storeWords : List (List (BitVec 8)) → ℕ → (ℕ → ℕ → BitVec 8) → Option (ℕ → ℕ → BitVec 8)
  | [], _, arguments => some arguments
  | word :: rest, i, arguments =>
    if i < 6 then do
      let argument ← strcpy 20 word (arguments i)
      storeWords rest (i + 1) (Function.update arguments i argument)
    else none

/-- The command that the buffer names, with its words as the arguments -/
def runCommand : Option State := do
  let text ← read 80 state.buffer
  let arguments ← storeWords (words 0x20 text) 0 state.arguments
  let buffer := strtok 0x20 state.buffer text.length
  let name ← read 80 buffer
  let parsed := { state with buffer := buffer, arguments := arguments }
  match terminalCases.find? (fun case => case.1 = name) with
  | some case => perform config parsed case.2
  | none => return parsed

def processTerminalCommand : Option State := do
  let after ← runCommand config state
  if after.terminalEnabled then
    return { after with
      buffer := Function.update after.buffer 0 0
      arguments := fun i => Function.update (after.arguments i) 0 0 }
  else return after

end Commands

section Keys

variable (config : Config) (state : State)

/-- `KC_BACKSPACE` -/
def eraseLast : Option State := do
  let text ← read 80 state.buffer
  if 0 < text.length then
    return { state with buffer := Function.update state.buffer (text.length - 1) 0 }
  else return state

/-- `KC_UP` and `KC_DOWN` copy a row of the history into the buffer, which is sent, and move on. -/
def recallRow (count : ℕ) (move : ℤ) : Option State := do
  let pos := checkPos config state
  let _ ← read 80 state.buffer
  let row ← rowAt config state pos
  let buffer := strncpy count row state.buffer
  let _ ← read 80 buffer
  return { state with buffer := buffer, currentCmdBufferPos := pos + move }

def keyUp : Option State :=
  if checkPos config state ≤ config.cmdBuffSize - 1 then recallRow config state 80 1
  else some { state with currentCmdBufferPos := checkPos config state }

def keyDown : Option State :=
  if 0 ≤ checkPos config state then recallRow config state 79 (-1)
  else some { state with currentCmdBufferPos := checkPos config state }

/-- The character of a key with the modifiers, which is zero where it has none -/
def charToAdd (keycode : BitVec 16) (mods : BitVec 8) : Option (BitVec 8) :=
  if mods &&& 0x22 ≠ 0 then entry shiftedKeycodeToAsciiLut keycode
  else if mods = 0 then entry keycodeToAsciiLut keycode
  else some 0

def addChar (keycode : BitVec 16) (mods : BitVec 8) : Option State :=
  if keycode.toNat ≤ 58 then do
    let char ← charToAdd keycode mods
    if char ≠ 0 then
      let buffer ← strncat 80 char state.buffer
      return { state with buffer := buffer }
    else return state
  else some state

/-- The keycodes below 256 -/
def basicKey (keycode : BitVec 16) (mods : BitVec 8) : Option State :=
  if keycode = kcEnter ∨ keycode = kcKpEnter then do
    let pushed ← pushToCmdBuffer config state
    processTerminalCommand config { pushed with currentCmdBufferPos := 0 }
  else if keycode = kcEscape then some (enableTerminal state)
  else if keycode = kcBackspace then eraseLast state
  else if keycode = kcLeft ∨ keycode = kcRight then some state
  else if keycode = kcUp then keyUp config state
  else if keycode = kcDown then keyDown config state
  else addChar state keycode mods

/-- A tap-hold key counts as the key that it taps. -/
def tapped (keycode : BitVec 16) : BitVec 16 :=
  if (qkModTap ≤ keycode ∧ keycode ≤ qkModTapMax) ∨
      (qkLayerTap ≤ keycode ∧ keycode ≤ qkLayerTapMax) then keycode &&& 0xFF
  else keycode

/-- `process_terminal` -/
def processTerminal (keycode : BitVec 16) (pressed : Bool) (mods : BitVec 8) : Option State :=
  if keycode = termOn ∧ pressed then some (enableTerminal state)
  else if state.terminalEnabled ∧ pressed then
    if keycode = termOff then some (disableTerminal state)
    else if (tapped keycode).toNat < 256 then basicKey config state (tapped keycode) mods
    else some state
  else some state

end Keys

end QmkSonix.Terminal
