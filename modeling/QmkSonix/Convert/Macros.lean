import QmkSonix.Convert.Model

/-! The macros of a `keymap.json`: what they say, and what the argument of a `SEND_STRING` says that
`generate_c` writes for them. -/

namespace QmkSonix.Convert

open QmkSonix.Lib (replace)

/-- What an `SS_` macro does -/
inductive Call where
  | key (action : KeyAction) (keycode : List Char)
  | delay (ms : ℕ)
  deriving DecidableEq, Repr

/-- What a macro does, step by step -/
inductive Said where
  | char (c : Char)
  | call (call : Call)
  deriving DecidableEq, Repr

/-! ### What a macro says -/

/-- Every kind of line break is a newline. -/
def lineBreaks : List Char → List Char
  | [] => []
  | '\r' :: '\n' :: rest => '\n' :: lineBreaks rest
  | '\r' :: rest => '\n' :: lineBreaks rest
  | c :: rest => c :: lineBreaks rest

def bell : Char := Char.ofNat 7

/-- The steps of a fragment. A tap of several keys holds all but the last one down meanwhile. -/
def Fragment.steps : Fragment → List Said
  | .string text => (lineBreaks text).map .char
  | .delay duration => [.call (.delay duration)]
  | .beep => [.char bell]
  | .keys action keycodes =>
    match action, keycodes.getLast? with
    | .tap, some lastKeycode =>
      keycodes.dropLast.map (fun keycode => .call (.key .down keycode)) ++
        [.call (.key .tap lastKeycode)] ++
          keycodes.dropLast.reverse.map (fun keycode => .call (.key .up keycode))
    | _, _ => keycodes.map fun keycode => .call (.key action keycode)

def stepsOf (macroArray : List Fragment) : List Said := macroArray.flatMap Fragment.steps

/-- Printable ASCII, tab and line breaks, and keycodes that are names -/
def Fragment.WellFormed : Fragment → Prop
  | .string text => ∀ c ∈ text, ' ' ≤ c ∧ c ≤ '~' ∨ c = '\t' ∨ c = '\n' ∨ c = '\r'
  | .keys _ keycodes => ∀ keycode ∈ keycodes, ∀ c ∈ keycode, isIdentRest c = true
  | .delay _ | .beep => True

/-! ### What an argument says -/

/-- An `SS_` macro, up to its closing parenthesis -/
def callOf (text : List Char) : Option Call :=
  if "SS_TAP(X_".toList <+: text then some (.key .tap (text.drop 9))
  else if "SS_DOWN(X_".toList <+: text then some (.key .down (text.drop 10))
  else if "SS_UP(X_".toList <+: text then some (.key .up (text.drop 8))
  else if "SS_DELAY(".toList <+: text then
    let ms := Nat.ofDigitChars 10 (text.drop 9) 0
    if Nat.toDigits 10 ms = text.drop 9 then some (.delay ms) else none
  else none

/-- The escape sequences of C that are used -/
def unescape (c : Char) : Option Char :=
  if c = '\\' then some '\\'
  else if c = 'n' then some '\n'
  else if c = 't' then some '\t'
  else if c = '"' then some '"'
  else if c = 'a' then some bell
  else none

/-- Where a reader of C is -/
inductive Reading where
  | outside
  | literal
  | escape
  | call (text : List Char)

/-- What string literals and `SS_` macros say, from where the reader is -/
def scan : Reading → List Char → Option (List Said)
  | .outside, [] => some []
  | _, [] => none
  | .outside, c :: rest =>
    if c = '"' then scan .literal rest
    else if c = 'S' then scan (.call [c]) rest
    else none
  | .literal, c :: rest =>
    if c = '"' then scan .outside rest
    else if c = '\\' then scan .escape rest
    else if ' ' ≤ c ∧ c ≤ '~' then (scan .literal rest).map (.char c :: ·)
    else none
  | .escape, c :: rest =>
    (unescape c).bind fun escaped => (scan .literal rest).map (.char escaped :: ·)
  | .call text, c :: rest =>
    if c = ')' then (callOf text).bind fun call => (scan .outside rest).map (.call call :: ·)
    else if isIdentRest c ∨ c = '(' then scan (.call (text ++ [c])) rest
    else none

/-- What an argument says. `SEND_STRING()` is no C. -/
def meaning (argument : List Char) : Option (List Said) :=
  if argument.isEmpty then none else scan .outside argument

/-! ### What `generate_c` writes -/

/-- The arguments, once `__INCLUDES__` is replaced -/
def KeymapJson.arguments (json : KeymapJson) : List (List Char) :=
  json.macros.map fun macroArray => replace includesMarker json.includes (newMacro macroArray)

/-- The lines of all macros with these arguments, from one on -/
def linesWith : ℕ → List (List Char) → List (List Char)
  | _, [] => []
  | i, argument :: rest =>
    ["            case MACRO_".toList ++ Nat.toDigits 10 i ++ [':'],
      "                SEND_STRING(".toList ++ argument ++ ");".toList,
      "                return false;".toList] ++ linesWith (i + 1) rest

/-- The code behind the keymap with these arguments -/
def codeWith (arguments : List (List Char)) : List Char :=
  if arguments.isEmpty then []
  else '\n' :: ['\n'].intercalate
    (["bool process_record_user(uint16_t keycode, keyrecord_t *record) \x7b".toList,
      "    if (record->event.pressed) \x7b".toList,
      "        switch (keycode) \x7b".toList] ++
    linesWith 0 arguments ++
    ["        \x7d".toList, "    \x7d".toList, "\n    return true;".toList, "\x7d;".toList, []])

/-- What `pop` leaves of the keycodes of a fragment -/
def Fragment.pop : Fragment → Fragment
  | .keys .tap keycodes =>
    .keys .tap (if 1 < keycodes.length then keycodes.dropLast else keycodes)
  | fragment => fragment

/-- What a call of `generate_c` leaves of its `keymap_json` -/
def KeymapJson.afterCall (json : KeymapJson) : KeymapJson :=
  { json with macros := json.macros.map (·.map Fragment.pop) }

/-- The file has the arguments behind the keymap, and each says what its macro says. -/
structure Right (said : List (List Fragment)) (json : KeymapJson) : Prop where
  written : ∃ keymap, generateC json = keymap ++ codeWith json.arguments
  meant : json.arguments.map meaning = said.map fun macroArray => some (stepsOf macroArray)

/-! ### When it does -/

/-- A quote is the last character before a macro or the end. -/
def QuoteEnds : List Said → Prop
  | [] => False
  | .char c :: rest => (c = '"' ∧ ∀ d, rest.head? ≠ some (.char d)) ∨ QuoteEnds rest
  | .call _ :: rest => QuoteEnds rest

/-- The text of an `SS_` macro -/
def Call.text : Call → List Char
  | .key action keycode => sendKey action keycode
  | .delay ms => "SS_DELAY(".toList ++ Nat.toDigits 10 ms ++ [')']

/-- `__INCLUDES__` stands in the characters or in a macro. -/
def Marked (items : List Said) : Prop :=
  includesMarker.map .char <:+: items ∨
    ∃ call, Said.call call ∈ items ∧ includesMarker <:+: call.text

/-- There is something to say, and it survives both replacements. -/
structure Clean (items : List Said) : Prop where
  something : items ≠ []
  quote : ¬QuoteEnds items
  marker : ¬Marked items

/-- A tap of several keys -/
def Fragment.Chord : Fragment → Prop
  | .keys .tap keycodes => 1 < keycodes.length
  | _ => False

end QmkSonix.Convert
