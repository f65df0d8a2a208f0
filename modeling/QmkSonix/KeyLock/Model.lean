import QmkSonix.Lib.Bitmap

/-! Key lock: `process_key_lock` of `process_key_lock.c`. -/

namespace QmkSonix.KeyLock

open QmkSonix.Lib

def qkOneShotMod : BitVec 16 := 0x5500
def qkOneShotModMax : BitVec 16 := 0x55FF
def kcLock : BitVec 16 := 0x5D2B

/-- `key_state` and `watching` -/
structure State where
  keyState : ℕ → BitVec 64
  watching : Bool

/-- Before the first event. -/
def State.start : State where
  keyState _ := 0
  watching := false

/-- The element of `key_state` that `GET_KEY_ARRAY` and `SET_KEY_ARRAY_STATE` choose. -/
def keyArray (code : ℕ) : ℕ :=
  if code < 0x40 then 0 else if code < 0x80 then 1 else if code < 0xC0 then 2 else 3

/-- `GET_CODE_INDEX` -/
def codeIndex (code : ℕ) : ℕ :=
  if code < 0x40 then code
  else if code < 0x80 then code - 0x40
  else if code < 0xC0 then code - 0x80
  else code - 0xC0

/-- `BV_64` -/
def bv64 (shift : ℕ) : BitVec 64 := (1 : BitVec 64) <<< shift

/-- `KEY_STATE` -/
def keyStateOf (keyState : ℕ → BitVec 64) (code : ℕ) : Bool :=
  keyState (keyArray code) &&& bv64 (codeIndex code) = bv64 (codeIndex code)

/-- `SET_KEY_STATE` -/
def setKeyState (keyState : ℕ → BitVec 64) (code : ℕ) : ℕ → BitVec 64 :=
  Function.update keyState (keyArray code) (keyState (keyArray code) ||| bv64 (codeIndex code))

/-- `UNSET_KEY_STATE` -/
def unsetKeyState (keyState : ℕ → BitVec 64) (code : ℕ) : ℕ → BitVec 64 :=
  Function.update keyState (keyArray code) (keyState (keyArray code) &&& ~~~bv64 (codeIndex code))

/-- `IS_STANDARD_KEYCODE` -/
def isStandardKeycode (code : BitVec 16) : Prop := code ≤ 0xFF

instance (code : BitVec 16) : Decidable (isStandardKeycode code) :=
  inferInstanceAs (Decidable (_ ≤ _))

/-- `translate_keycode` -/
def translateKeycode (keycode : BitVec 16) : BitVec 16 :=
  if qkOneShotMod < keycode ∧ keycode ≤ qkOneShotModMax then keycode ^^^ qkOneShotMod else keycode

/-- A key event. -/
structure Event where
  keycode : BitVec 16
  pressed : Bool

/-- What `process_key_lock` leaves behind: its state, the keycode, and whether the event
goes on. -/
structure Outcome where
  state : State
  keycode : BitVec 16
  continues : Bool

/-- `process_key_lock` -/
def processKeyLock (s : State) (event : Event) : Outcome :=
  let translated := translateKeycode event.keycode
  if event.pressed then
    if ¬(isStandardKeycode translated ∨ translated = kcLock) then
      ⟨{ s with watching := false }, event.keycode, true⟩
    else if translated = kcLock then
      ⟨{ s with watching := !s.watching }, event.keycode, false⟩
    else if isStandardKeycode translated then
      if s.watching then
        ⟨{ keyState := setKeyState s.keyState translated.toNat, watching := false }, translated,
          true⟩
      else if keyStateOf s.keyState translated.toNat then
        ⟨{ s with keyState := unsetKeyState s.keyState translated.toNat }, event.keycode, false⟩
      else ⟨s, event.keycode, true⟩
    else ⟨s, event.keycode, true⟩
  else
    ⟨s, event.keycode,
      !(isStandardKeycode translated ∧ keyStateOf s.keyState translated.toNat)⟩

end QmkSonix.KeyLock
