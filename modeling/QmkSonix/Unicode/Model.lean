import Mathlib
import QmkSonix.SendString.Model

/-! `send_unicode_string` of `process_unicode_common.c`, with every byte it reads, every
code point it registers and every digit it types. -/

namespace QmkSonix.Unicode

open QmkSonix.Lib

/-! `enum unicode_input_modes`: `unicode_config.input_mode` is a byte, and may hold others. -/

def ucMac : BitVec 8 := 0
def ucLnx : BitVec 8 := 1
def ucWin : BitVec 8 := 2
def ucBsd : BitVec 8 := 3
def ucWinc : BitVec 8 := 4

def kcA : ℕ := 0x04
def kcKp1 : ℕ := 0x59

inductive Event where
  /-- A byte of the string is read. -/
  | read (address : ℕ)
  /-- `register_unicode` is called, for the bytes from one address up to another. -/
  | registerUnicode (codePoint : ℕ) (first next : ℕ)
  /-- `unicode_input_start`, which a keyboard may replace. -/
  | inputStart
  /-- `unicode_input_finish`, which a keyboard may replace. -/
  | inputFinish
  | tapCode (keycode : BitVec 8)
  /-- `send_char` -/
  | sendChar (asciiCode : BitVec 8)
  deriving DecidableEq

/-- `send_nibble` -/
def sendNibble (number : ℕ) : Event :=
  if number % 16 < 10 then .sendChar (BitVec.ofNat 8 (number + 0x30))
  else .sendChar (BitVec.ofNat 8 (number - 10 + 0x61))

/-- `send_nibble_wrapper` -/
def sendNibbleWrapper (inputMode : BitVec 8) (digit : ℕ) : Event :=
  if inputMode = ucWin then
    .tapCode (BitVec.ofNat 8 (if digit < 10 then kcKp1 + (10 + digit - 1) % 10
      else kcA + (digit - 10)))
  else sendNibble digit

/-- The loop of `register_hex32`, with one more than `i`. -/
def registerHexLoop (inputMode : BitVec 8) (hex : ℕ) : ℕ → Bool → List Event
  | 0, _ => []
  | i + 1, onzerostart =>
    let onzerostart := if i ≤ 3 then false else onzerostart
    let digit := (hex >>> (i * 4)) &&& 0xF
    if digit = 0 then
      (if onzerostart then [] else [sendNibbleWrapper inputMode digit]) ++
        registerHexLoop inputMode hex i onzerostart
    else sendNibbleWrapper inputMode digit :: registerHexLoop inputMode hex i false

/-- `register_hex32` -/
def registerHex32 (inputMode : BitVec 8) (hex : ℕ) : List Event :=
  registerHexLoop inputMode hex 8 true

/-- `register_unicode` -/
def registerUnicode (inputMode : BitVec 8) (codePoint : ℕ) : List Event :=
  if 0x10FFFF < codePoint ∨ 0xFFFF < codePoint ∧ inputMode = ucWin then []
  else
    [.inputStart] ++
    (if 0xFFFF < codePoint ∧ inputMode = ucMac then
      let rest := codePoint - 0x10000
      let lo := rest &&& 0x3FF
      let hi := (rest &&& 0xFFC00) >>> 10
      registerHex32 inputMode (hi + 0xD800) ++ registerHex32 inputMode (lo + 0xDC00)
    else registerHex32 inputMode codePoint) ++
    [.inputFinish]

/-- What `decode_utf8` gives: the code point or -1, and how many bytes it takes. -/
structure Decoded where
  codePoint : ℤ
  length : ℕ

/-- A code point that is part of a surrogate pair is none. -/
def Decoded.withoutSurrogates (decoded : Decoded) : Decoded :=
  if 0xD800 ≤ decoded.codePoint ∧ decoded.codePoint ≤ 0xDFFF then { decoded with codePoint := -1 }
  else decoded

/-- `decode_utf8`. Plain `char` is unsigned on every platform of the firmware. -/
def decodeUtf8 (str : ℕ → BitVec 8) : Decoded :=
  let byte i := (str i).toNat
  Decoded.withoutSurrogates <|
    if byte 0 < 0x80 then ⟨byte 0, 1⟩
    else if byte 0 &&& 0xE0 = 0xC0 then
      ⟨((byte 0 &&& 0x1F) <<< 6 ||| (byte 1 &&& 0x3F) : ℕ), 2⟩
    else if byte 0 &&& 0xF0 = 0xE0 then
      ⟨((byte 0 &&& 0x0F) <<< 12 ||| (byte 1 &&& 0x3F) <<< 6 ||| (byte 2 &&& 0x3F) : ℕ), 3⟩
    else if byte 0 &&& 0xF8 = 0xF0 ∧ byte 0 ≤ 0xF4 then
      ⟨((byte 0 &&& 0x07) <<< 18 ||| (byte 1 &&& 0x3F) <<< 12 ||| (byte 2 &&& 0x3F) <<< 6 |||
        (byte 3 &&& 0x3F) : ℕ), 4⟩
    else ⟨-1, 1⟩

/-- One round of the loop of `send_unicode_string`. -/
def round (inputMode : BitVec 8) (memory : ℕ → BitVec 8) (str : ℕ) : Round ℕ Event Unit :=
  if memory str = 0 then ⟨[.read str], .leave ()⟩
  else
    let decoded := decodeUtf8 fun i => memory (str + i)
    let next := str + decoded.length
    ⟨.read str :: (List.range decoded.length).map (fun i => .read (str + i)) ++
      (if 0 ≤ decoded.codePoint then
        .registerUnicode decoded.codePoint.toNat str next ::
          registerUnicode inputMode decoded.codePoint.toNat
      else []), .again next⟩

/-- `send_unicode_string`, for a number of rounds. -/
def sendUnicodeString (inputMode : BitVec 8) (memory : ℕ → BitVec 8) (str : ℕ) (rounds : ℕ) :
    Option (List Event) :=
  (loop (round inputMode memory) rounds str).map Prod.fst

end QmkSonix.Unicode
