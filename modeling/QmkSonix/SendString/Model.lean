import Mathlib
import QmkSonix.Lib.Rounds

/-! `send_string_with_delay` and `send_char` of `send_string.c`, with every byte that
they read. `send_string_with_delay_P` is the same but for `pgm_read_byte`. -/

namespace QmkSonix.SendString

open QmkSonix.Lib

def ssQmkPrefix : BitVec 8 := 1
def ssTapCode : BitVec 8 := 1
def ssDownCode : BitVec 8 := 2
def ssUpCode : BitVec 8 := 3
def ssDelayCode : BitVec 8 := 4

def kcSpace : BitVec 8 := 0x2C
def kcLsft : BitVec 8 := 0xE1
def kcRalt : BitVec 8 := 0xE6

/-- The tables that are looked up for an ASCII code. -/
inductive Lut where
  /-- `ascii_to_keycode_lut` -/
  | keycode
  /-- `ascii_to_shift_lut` -/
  | shift
  /-- `ascii_to_altgr_lut` -/
  | altgr
  /-- `ascii_to_dead_lut` -/
  | dead
  deriving DecidableEq

/-- The bytes of a table. -/
def Lut.size : Lut → ℕ
  | .keycode => 128
  | .shift | .altgr | .dead => 16

/-- What differs from one firmware to the next. -/
structure Build where
  /-- The memory from the start of a table on. A keyboard may have tables of its own. -/
  contents : Lut → ℕ → BitVec 8
  /-- `AUDIO_ENABLE` and `SENDSTRING_BELL` -/
  bell : Bool
  /-- The bits of `int`. -/
  intBits : ℕ

inductive Event where
  /-- A byte of the string is read. -/
  | read (address : ℕ)
  /-- A byte of a table is read. -/
  | lookUp (lut : Lut) (index : ℕ)
  | tapCode (keycode : BitVec 8)
  | registerCode (keycode : BitVec 8)
  | unregisterCode (keycode : BitVec 8)
  | playBell
  /-- `wait_ms(1)`, that often. -/
  | wait (ms : ℕ)
  deriving DecidableEq

/-- The keycodes of `ascii_to_keycode_lut`. -/
def asciiToKeycodeLut : List (BitVec 8) :=
  [0x00, 0x00, 0x00, 0x00, 0x00, 0x00, 0x00, 0x00,
  0x2A, 0x2B, 0x28, 0x00, 0x00, 0x00, 0x00, 0x00,
  0x00, 0x00, 0x00, 0x00, 0x00, 0x00, 0x00, 0x00,
  0x00, 0x00, 0x00, 0x29, 0x00, 0x00, 0x00, 0x00,
  0x2C, 0x1E, 0x34, 0x20, 0x21, 0x22, 0x24, 0x34,
  0x26, 0x27, 0x25, 0x2E, 0x36, 0x2D, 0x37, 0x38,
  0x27, 0x1E, 0x1F, 0x20, 0x21, 0x22, 0x23, 0x24,
  0x25, 0x26, 0x33, 0x33, 0x36, 0x2E, 0x37, 0x38,
  0x1F, 0x04, 0x05, 0x06, 0x07, 0x08, 0x09, 0x0A,
  0x0B, 0x0C, 0x0D, 0x0E, 0x0F, 0x10, 0x11, 0x12,
  0x13, 0x14, 0x15, 0x16, 0x17, 0x18, 0x19, 0x1A,
  0x1B, 0x1C, 0x1D, 0x2F, 0x31, 0x30, 0x23, 0x2D,
  0x35, 0x04, 0x05, 0x06, 0x07, 0x08, 0x09, 0x0A,
  0x0B, 0x0C, 0x0D, 0x0E, 0x0F, 0x10, 0x11, 0x12,
  0x13, 0x14, 0x15, 0x16, 0x17, 0x18, 0x19, 0x1A,
  0x1B, 0x1C, 0x1D, 0x2F, 0x31, 0x30, 0x35, 0x4C]

/-- The rows of `ascii_to_shift_lut`, packed by `KCLUT_ENTRY`. -/
def asciiToShiftLut : List (BitVec 8) :=
  [0x00, 0x00, 0x00, 0x00, 0x7E, 0x0F, 0x00, 0xD4, 0xFF, 0xFF, 0xFF, 0xC7, 0x00, 0x00, 0x00, 0x78]

/-- The tables of a keyboard without tables of its own. -/
def defaultContents : Lut → ℕ → BitVec 8
  | .keycode, index => asciiToKeycodeLut.getD index 0
  | .shift, index => asciiToShiftLut.getD index 0
  | .altgr, _ | .dead, _ => 0

/-- The bit that `PGM_LOADBIT` loads. -/
def pgmLoadbit (build : Build) (lut : Lut) (pos : ℕ) : Bool :=
  (build.contents lut (pos / 8)).getLsbD (pos % 8)

/-- `send_char` -/
def sendChar (build : Build) (asciiCode : BitVec 8) : List Event :=
  if build.bell ∧ asciiCode = 7 then [.playBell]
  else
    let code := asciiCode.toNat
    let isShifted := pgmLoadbit build .shift code
    let isAltgred := pgmLoadbit build .altgr code
    let isDead := pgmLoadbit build .dead code
    [.lookUp .keycode code, .lookUp .shift (code / 8), .lookUp .altgr (code / 8),
      .lookUp .dead (code / 8)] ++
    (if isShifted then [.registerCode kcLsft] else []) ++
    (if isAltgred then [.registerCode kcRalt] else []) ++
    [.tapCode (build.contents .keycode code)] ++
    (if isAltgred then [.unregisterCode kcRalt] else []) ++
    (if isShifted then [.unregisterCode kcLsft] else []) ++
    (if isDead then [.tapCode kcSpace] else [])

def isdigit (byte : BitVec 8) : Bool := 0x30 ≤ byte ∧ byte ≤ 0x39

/-- Where `send_string_with_delay` is. -/
inductive Point where
  /-- The head of the outer loop. -/
  | next (str : ℕ)
  /-- The head of the loop over the digits of a delay, behind `keycode = *(++str)`. -/
  | digits (str : ℕ) (ms : ℕ)

/-- One round of the loops of `send_string_with_delay`. -/
def round (build : Build) (interval : BitVec 8) (memory : ℕ → BitVec 8) :
    Point → Round Point Event Unit
  | .next str =>
    if memory str = 0 then ⟨[.read str], .leave ()⟩
    else if memory str = ssQmkPrefix then
      let asciiCode := memory (str + 1)
      let keycode := memory (str + 2)
      if asciiCode = ssTapCode then
        ⟨[.read str, .read (str + 1), .read (str + 2), .tapCode keycode, .wait interval.toNat],
          .again (.next (str + 3))⟩
      else if asciiCode = ssDownCode then
        ⟨[.read str, .read (str + 1), .read (str + 2), .registerCode keycode,
          .wait interval.toNat], .again (.next (str + 3))⟩
      else if asciiCode = ssUpCode then
        ⟨[.read str, .read (str + 1), .read (str + 2), .unregisterCode keycode,
          .wait interval.toNat], .again (.next (str + 3))⟩
      else if asciiCode = ssDelayCode then
        ⟨[.read str, .read (str + 1)], .again (.digits (str + 2) 0)⟩
      else ⟨[.read str, .read (str + 1), .wait interval.toNat], .again (.next (str + 2))⟩
    else
      ⟨.read str :: sendChar build (memory str) ++ [.wait interval.toNat], .again (.next (str + 1))⟩
  | .digits str ms =>
    let keycode := memory str
    if isdigit keycode then
      -- a sum that does not fit into an `int` wraps
      ⟨[.read str], .again (.digits (str + 1)
        ((ms * 10 + (keycode.toNat - 0x30)) % 2 ^ build.intBits))⟩
    else ⟨[.read str, .wait ms, .wait interval.toNat], .again (.next (str + 1))⟩

/-- `send_string_with_delay`, for a number of rounds. -/
def sendStringWithDelay (build : Build) (interval : BitVec 8) (memory : ℕ → BitVec 8) (str : ℕ)
    (rounds : ℕ) : Option (List Event) :=
  (loop (round build interval memory) rounds (.next str)).map Prod.fst

end QmkSonix.SendString
