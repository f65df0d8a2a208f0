import QmkSonix.Lib.Replace
import QmkSonix.Convert.Lexer

/-! `generate_c` and `_get_layers` of `qmk/keymap.py`: a `keymap.json` written as C,
and the layers read from the tokens of a `keymap.c`. Strings are lists of characters. -/

namespace QmkSonix.Convert

open QmkSonix.Lib (replace)

/-- `DEFAULT_KEYMAP_C` -/
def defaultKeymapC : List Char := "#include QMK_KEYBOARD_H
__INCLUDES__

/* THIS FILE WAS GENERATED!
 *
 * This file was generated by qmk json2c. You may or may not want to
 * edit it directly.
 */

const uint16_t PROGMEM keymaps[][MATRIX_ROWS][MATRIX_COLS] = \x7b
__KEYMAP_GOES_HERE__
\x7d;

".toList

def keymapMarker : List Char := "__KEYMAP_GOES_HERE__".toList

def includesMarker : List Char := "__INCLUDES__".toList

/-- The actions of a macro that have keycodes. -/
inductive KeyAction where
  | tap | down | up
  deriving DecidableEq, Repr

/-- `action.upper()` -/
def KeyAction.upper : KeyAction → List Char
  | tap => "TAP".toList
  | down => "DOWN".toList
  | up => "UP".toList

/-- A fragment of a macro: a string, or an object with an action. -/
inductive Fragment where
  | string (text : List Char)
  | delay (duration : ℕ)
  | beep
  | keys (action : KeyAction) (keycodes : List (List Char))
  deriving DecidableEq

/-- What `generate_c` reads of a `keymap.json`. Without a host language
`hostLanguage` is empty. -/
structure KeymapJson where
  layout : List Char
  layers : List (List (List Char))
  macros : List (List Fragment) := []
  hostLanguage : List Char := []

/-- `_strip_any` -/
def stripAny (keycode : List Char) : List Char :=
  if "ANY(".toList <+: keycode ∧ [')'] <:+ keycode then (keycode.drop 4).dropLast else keycode

/-- The text of a layer, without the comma behind it. -/
def layerText (layout : List Char) (layerNum : ℕ) (layer : List (List Char)) : List Char :=
  "\t[".toList ++ Nat.toDigits 10 layerNum ++ "] = ".toList ++ layout ++ ['('] ++
    (", ".toList).intercalate (layer.map stripAny) ++ [')']

/-- `layer_txt`, from a layer on. -/
def layerTxt (layout : List Char) : ℕ → List (List (List Char)) → List (List Char)
  | _, [] => []
  | layerNum, layer :: rest =>
    (layerText layout layerNum layer ++ if rest.isEmpty then [] else [',']) ::
      layerTxt layout (layerNum + 1) rest

/-- The text that `generate_c` puts inside the keymaps array. -/
def KeymapJson.keymap (json : KeymapJson) : List Char :=
  ['\n'].intercalate (layerTxt json.layout 0 json.layers)

/-- The replacements in a string of a macro. -/
def escapeFragment (fragment : List Char) : List Char :=
  let fragment := replace ['\\'] ['\\', '\\'] fragment
  let fragment := replace ['\r', '\n'] ['\\', 'n'] fragment
  let fragment := replace ['\n'] ['\\', 'n'] fragment
  let fragment := replace ['\r'] ['\\', 'n'] fragment
  let fragment := replace ['\t'] ['\\', 't'] fragment
  replace ['"'] ['\\', '"'] fragment

/-- `SS_TAP(X_A)` and its like. -/
def sendKey (action : KeyAction) (keycode : List Char) : List Char :=
  "SS_".toList ++ action.upper ++ "(X_".toList ++ keycode ++ [')']

/-- The text of a fragment. -/
def fragmentText : Fragment → List Char
  | .string text => ['"'] ++ escapeFragment text ++ ['"']
  | .delay duration => "SS_DELAY(".toList ++ Nat.toDigits 10 duration ++ [')']
  | .beep => ['"', '\\', 'a', '"']
  | .keys action keycodes =>
    match action, keycodes.getLast? with
    | .tap, some lastKeycode =>
      if 1 < keycodes.length then
        keycodes.dropLast.flatMap (sendKey .down) ++ sendKey .tap lastKeycode ++
          keycodes.dropLast.reverse.flatMap (sendKey .up)
      else keycodes.flatMap (sendKey action)
    | _, _ => keycodes.flatMap (sendKey action)

/-- `new_macro` -/
def newMacro (macroArray : List Fragment) : List Char :=
  replace ['"', '"'] [] (macroArray.flatMap fragmentText)

/-- The lines of a macro, by its number. -/
def macroLines (i : ℕ) (macroArray : List Fragment) : List (List Char) :=
  ["            case MACRO_".toList ++ Nat.toDigits 10 i ++ [':'],
    "                SEND_STRING(".toList ++ newMacro macroArray ++ ");".toList,
    "                return false;".toList]

/-- The lines of all macros, from one on. -/
def macrosLines : ℕ → List (List Fragment) → List (List Char)
  | _, [] => []
  | i, macroArray :: rest => macroLines i macroArray ++ macrosLines (i + 1) rest

/-- `macro_txt` -/
def macroTxt (macros : List (List Fragment)) : List (List Char) :=
  ["bool process_record_user(uint16_t keycode, keyrecord_t *record) \x7b".toList,
    "    if (record->event.pressed) \x7b".toList,
    "        switch (keycode) \x7b".toList] ++
  macrosLines 0 macros ++
  ["        \x7d".toList, "    \x7d".toList, "\n    return true;".toList, "\x7d;".toList, []]

/-- The code that the macros add behind the keymap, with the line break before it. -/
def KeymapJson.macroCode (json : KeymapJson) : List Char :=
  if json.macros.isEmpty then [] else '\n' :: ['\n'].intercalate (macroTxt json.macros)

/-- What stands in the place of `__INCLUDES__`. -/
def KeymapJson.includes (json : KeymapJson) : List Char :=
  if json.hostLanguage.isEmpty then []
  else "#include \"keymap_".toList ++ json.hostLanguage ++ ".h\"\n#include \"sendstring_".toList ++
    json.hostLanguage ++ ".h\"\n".toList

/-- `generate_c` with the default template -/
def generateC (json : KeymapJson) : List Char :=
  let newKeymap := replace keymapMarker json.keymap defaultKeymapC
  replace includesMarker json.includes (newKeymap ++ json.macroCode)

/-- A layer as `_get_layers` collects it. -/
structure Layer where
  name : Option (List Char) := none
  layout : Option (List Char) := none
  keycodes : List (List Char) := []
  deriving DecidableEq

/-- The variables of `_get_layers`. -/
structure Scan where
  keymapCertainty : ℕ := 0
  braceDepth : ℤ := 0
  isKeymap : Bool := false
  isLayer : Bool := false
  isAdvKc : Bool := false
  layer : Layer := {}
  layers : List Layer := []

def openingBraces : List Char := ['(', '{', '[']

def closingBraces : List Char := [')', '}', ']']

namespace Scan

variable (s : Scan)

/-- `layer['keycodes'][-1] += text`, which fails without keycodes. -/
def extend (text : List Char) : Option Scan :=
  match s.layer.keycodes.getLast? with
  | none => none
  | some last => some { s with
      layer := { s.layer with keycodes := s.layer.keycodes.dropLast ++ [last ++ text] } }

/-- The names that are written out. -/
def kc (text : List Char) : List Char :=
  if text = "_______".toList then "KC_TRNS".toList
  else if text = "XXXXXXX".toList then "KC_NO".toList
  else text

/-- A name, inside of the keymaps array or outside. -/
def name (text : List Char) : Option Scan :=
  if s.isKeymap then
    if s.layer.name.isNone then
      if "LAYOUT".toList <+: text ∨ "KEYMAP".toList <+: text then
        some { s with layer := { s.layer with name := some ['0'], layout := some text } }
      else some { s with layer := { s.layer with name := some text } }
    else if s.layer.layout.isNone then
      some { s with layer := { s.layer with layout := some text } }
    else if s.isLayer then
      if s.isAdvKc then s.extend (kc text)
      else some { s with layer := { s.layer with keycodes := s.layer.keycodes ++ [kc text] } }
    else some s
  else if text = "PROGMEM".toList ∧ s.keymapCertainty = 2 then some { s with keymapCertainty := 3 }
  else if text = "keymaps".toList ∧ s.keymapCertainty = 3 then some { s with keymapCertainty := 4 }
  else if text = "MATRIX_ROWS".toList ∧ s.keymapCertainty = 4 then
    some { s with keymapCertainty := 5 }
  else if text = "MATRIX_COLS".toList ∧ s.keymapCertainty = 5 then
    some { s with keymapCertainty := 6 }
  else some s

/-- An opening brace. -/
def opens (text : List Char) : Option Scan :=
  let deeper := { s with braceDepth := s.braceDepth + 1 }
  if s.isKeymap then
    if s.isLayer then { deeper with isAdvKc := true }.extend text
    else if text = ['('] ∧ deeper.braceDepth = 2 then some { deeper with isLayer := true }
    else some deeper
  else if text = ['{'] ∧ s.keymapCertainty = 6 then some { deeper with isKeymap := true }
  else some deeper

/-- A closing brace. -/
def closes (text : List Char) : Option Scan :=
  let higher := { s with braceDepth := s.braceDepth - 1 }
  if s.isKeymap then
    if s.isAdvKc then
      (higher.extend text).map fun extended =>
        if extended.braceDepth = 2 then { extended with isAdvKc := false } else extended
    else if text = [')'] ∧ higher.braceDepth = 1 then
      some { higher with isLayer := false, layers := s.layers ++ [s.layer], layer := {} }
    else if text = ['}'] ∧ higher.braceDepth = 0 then
      some { higher with isKeymap := false, keymapCertainty := 0 }
    else some higher
  else some higher

/-- The body of the loop of `_get_layers`. -/
def step (token : Token) : Option Scan :=
  match token.type with
  | .name => s.name token.text
  | .keyword =>
    if token.text = "const".toList ∧ s.keymapCertainty = 0 then
      some { s with keymapCertainty := 1 }
    else some s
  | .keywordType =>
    if token.text = "uint16_t".toList ∧ s.keymapCertainty = 1 then
      some { s with keymapCertainty := 2 }
    else some s
  | .punctuation =>
    if token.text <:+: openingBraces then s.opens token.text
    else if token.text <:+: closingBraces then s.closes token.text
    else if s.isAdvKc then s.extend token.text
    else some s
  | type =>
    if type = .integer ∧ s.isKeymap ∧ ¬s.isAdvKc then
      if s.layer.name.isNone then
        some { s with layer := { s.layer with name := some token.text } }
      else some s
    else if s.isAdvKc then s.extend token.text
    else some s

/-- The loop of `_get_layers`. -/
def run : List Token → Scan → Option Scan
  | [], s => some s
  | token :: rest, s => (s.step token).bind (run rest)

end Scan

/-- `_get_layers`, by the tokens of the keymap; `none` where it raises an error. -/
def getLayers (tokens : List Token) : Option (List Layer) :=
  (Scan.run tokens {}).map Scan.layers

end QmkSonix.Convert
