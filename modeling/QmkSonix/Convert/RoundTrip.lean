import QmkSonix.Convert.Layers

/-! The whole file that `generate_c` writes, and `_get_layers` of it. -/

namespace QmkSonix.Convert

open QmkSonix.Lib

/-! ### The template -/

section Template

variable {new : List Char}

/-- The lines of the template -/
def templateLines (includes keymap : List Char) : List (List Char) :=
  ["#include QMK_KEYBOARD_H".toList, includes, [], "/* THIS FILE WAS GENERATED!".toList,
    " *".toList, " * This file was generated by qmk json2c. You may or may not want to".toList,
    " * edit it directly.".toList, " */".toList, [],
    "const uint16_t PROGMEM keymaps[][MATRIX_ROWS][MATRIX_COLS] = \x7b".toList, keymap,
    "\x7d;".toList, [], []]

theorem templateLines_eq (includes keymap : List Char) : templateLines includes keymap =
    ["#include QMK_KEYBOARD_H".toList, includes, [], "/* THIS FILE WAS GENERATED!".toList,
      " *".toList, " * This file was generated by qmk json2c. You may or may not want to".toList,
      " * edit it directly.".toList, " */".toList, [],
      "const uint16_t PROGMEM keymaps[][MATRIX_ROWS][MATRIX_COLS] = \x7b".toList, keymap,
      "\x7d;".toList, [], []] := rfl

theorem defaultKeymapC_eq :
    defaultKeymapC = ['\n'].intercalate (templateLines includesMarker keymapMarker) := by
  have text : "#include QMK_KEYBOARD_H
__INCLUDES__

/* THIS FILE WAS GENERATED!
 *
 * This file was generated by qmk json2c. You may or may not want to
 * edit it directly.
 */

const uint16_t PROGMEM keymaps[][MATRIX_ROWS][MATRIX_COLS] = \x7b
__KEYMAP_GOES_HERE__
\x7d;

" = "#include QMK_KEYBOARD_H" ++ "\n" ++ "__INCLUDES__" ++ "\n" ++ "\n" ++
      "/* THIS FILE WAS GENERATED!" ++ "\n" ++ " *" ++ "\n" ++
      " * This file was generated by qmk json2c. You may or may not want to" ++ "\n" ++
      " * edit it directly." ++ "\n" ++ " */" ++ "\n" ++ "\n" ++
      "const uint16_t PROGMEM keymaps[][MATRIX_ROWS][MATRIX_COLS] = \x7b" ++ "\n" ++
      "__KEYMAP_GOES_HERE__" ++ "\n" ++ "\x7d;" ++ "\n" ++ "\n" := by simp
  have newline : "\n".toList = ['\n'] := by simp
  have markers : templateLines includesMarker keymapMarker =
    templateLines "__INCLUDES__".toList "__KEYMAP_GOES_HERE__".toList := rfl
  refine (congrArg String.toList text).trans ?_
  rw [markers, templateLines_eq]
  simp only [String.toList_append, newline, List.append_assoc, List.intercalate_cons_cons,
    List.intercalate_singleton, List.nil_append, List.append_nil]

/-- The fixed lines are left as they are. -/
theorem replace_templateLines {old : List Char}
    (absent : ∀ line ∈ templateLines [] [], ¬old <:+: line)
    (includes keymap : List Char) : (templateLines includes keymap).map (replace old new) =
      templateLines (replace old new includes) (replace old new keymap) := by
  have fixed (line : List Char) (member : line ∈ templateLines [] []) :
      replace old new line = line := replace_of_absent (absent line member)
  rw [templateLines_eq] at fixed
  simp only [List.forall_mem_cons] at fixed
  obtain ⟨one, empty, -, two, three, four, five, six, -, seven, -, eight, -⟩ := fixed
  rw [templateLines_eq, templateLines_eq]
  simp only [List.map_cons, List.map_nil, one, two, three, four, five, six, seven, eight, empty]

theorem not_infix_of_notMem {pattern line : List Char} {letter : Char}
    (inPattern : letter ∈ pattern) (notInLine : letter ∉ line) : ¬pattern <:+: line := fun found =>
  notInLine (found.subset inPattern)

theorem keymapMarker_letters : 'K' ∈ keymapMarker ∧ 'G' ∈ keymapMarker ∧ '\n' ∉ keymapMarker := by
  change 'K' ∈ "__KEYMAP_GOES_HERE__".toList ∧ 'G' ∈ "__KEYMAP_GOES_HERE__".toList ∧
    '\n' ∉ "__KEYMAP_GOES_HERE__".toList
  simp

theorem keymapMarker_absent : ∀ line ∈ templateLines [] [], ¬keymapMarker <:+: line := by
  have first : 'G' ∉ "#include QMK_KEYBOARD_H".toList := by simp
  have others : ∀ line ∈ (templateLines [] []).tail, 'K' ∉ line := by
    rw [templateLines_eq]
    simp
  intro line member
  rw [templateLines_eq] at member others
  rcases List.mem_cons.mp member with rfl | later
  · exact not_infix_of_notMem keymapMarker_letters.2.1 first
  · exact not_infix_of_notMem keymapMarker_letters.1 (others line later)

theorem includesMarker_absent : ∀ line ∈ templateLines [] [], ¬includesMarker <:+: line := by
  have letter : 'U' ∈ includesMarker := by simp [includesMarker_eq]
  have others : ∀ line ∈ templateLines [] [], 'U' ∉ line := by
    rw [templateLines_eq]
    simp
  exact fun line member => not_infix_of_notMem letter (others line member)

/-- The file, where nothing is replaced in the layers. -/
theorem generateC_lines {json : KeymapJson} (unmarked : ¬includesMarker <:+: json.keymap) :
    generateC json = ['\n'].intercalate (templateLines json.includes json.keymap) ++
      codeWith json.arguments := by
  have nonempty : keymapMarker ≠ [] := List.ne_nil_of_mem keymapMarker_letters.1
  have newline : '\n' ∉ includesMarker := by simp [includesMarker_eq]
  have whole (old new : List Char) (some : old ≠ []) : replace old new old = new := by
    have found := @replace_append _ _ old new [] some
    simpa using found
  have first : ¬keymapMarker <:+: includesMarker :=
    not_infix_of_notMem keymapMarker_letters.1 (by simp [includesMarker_eq])
  rw [generateC_eq, defaultKeymapC_eq, replace_intercalate nonempty keymapMarker_letters.2.2,
    replace_templateLines keymapMarker_absent, replace_intercalate marker_ne_nil newline,
    replace_templateLines includesMarker_absent, replace_of_absent first, whole _ _ nonempty,
    whole _ _ marker_ne_nil, replace_of_absent unmarked]

end Template

/-! ### The code of the macros -/

section MacroPieces

variable {wordType : List Char → WordType}

/-- Every line behind a line break -/
theorem cons_intercalate {lines : List (List Char)} (some : lines ≠ []) :
    '\n' :: ['\n'].intercalate lines = lines.flatMap ('\n' :: ·) := by
  induction lines with
  | nil => exact absurd rfl some
  | cons line rest ih =>
    cases rest with
    | nil => simp
    | cons next rest =>
      rw [List.intercalate_cons_cons, List.flatMap_cons, ← ih (List.cons_ne_nil next rest)]
      simp

/-- The lines of a macro up to its argument -/
def caseStart (i : ℕ) : List Piece :=
  [.blank "\n            ".toList, .word "case".toList, .blank [' '],
    .word ("MACRO_".toList ++ Nat.toDigits 10 i), .operator ':',
    .blank "\n                ".toList, .word "SEND_STRING".toList, .punctuation '(']

/-- The lines of a macro behind its argument -/
def caseEnd : List Piece :=
  [.punctuation ')', .punctuation ';', .blank "\n                ".toList, .word "return".toList,
    .blank [' '], .word "false".toList, .punctuation ';']

def casePieces (i : ℕ) (argument : List Piece) : List Piece := caseStart i ++ (argument ++ caseEnd)

def casesPieces : ℕ → List (List Piece) → List Piece
  | _, [] => []
  | i, argument :: rest => casePieces i argument ++ casesPieces (i + 1) rest

theorem source_casesPieces (i : ℕ) (arguments : List (List Piece)) :
    source (casesPieces i arguments) =
      (linesWith i (arguments.map source)).flatMap ('\n' :: ·) := by
  induction arguments generalizing i with
  | nil => rfl
  | cons argument rest ih =>
    rw [casesPieces, source_append, ih, List.map_cons, linesWith, List.flatMap_append]
    simp [casePieces, caseStart, caseEnd, source, Piece.text]

/-- The code before the macros -/
def frameStart : List Piece :=
  [.word "bool".toList, .blank [' '], .word "process_record_user".toList, .punctuation '(',
    .word "uint16_t".toList, .blank [' '], .word "keycode".toList, .punctuation ',', .blank [' '],
    .word "keyrecord_t".toList, .blank [' '], .operator '*', .word "record".toList,
    .punctuation ')', .blank [' '], .punctuation '\x7b',
    .blank "\n    ".toList, .word "if".toList, .blank [' '], .punctuation '(',
    .word "record".toList, .operator '-', .operator '>', .word "event".toList, .punctuation '.',
    .word "pressed".toList, .punctuation ')', .blank [' '], .punctuation '\x7b',
    .blank "\n        ".toList, .word "switch".toList, .blank [' '], .punctuation '(',
    .word "keycode".toList, .punctuation ')', .blank [' '], .punctuation '\x7b']

/-- The code behind the macros -/
def frameEnd : List Piece :=
  [.blank "\n        ".toList, .punctuation '\x7d', .blank "\n    ".toList, .punctuation '\x7d',
    .blank "\n\n    ".toList, .word "return".toList, .blank [' '], .word "true".toList,
    .punctuation ';', .blank ['\n'], .punctuation '\x7d', .punctuation ';', .blank ['\n']]

def framePieces (cases : List Piece) : List Piece := frameStart ++ (cases ++ frameEnd)

theorem source_framePieces {arguments : List (List Piece)} (some : arguments ≠ []) :
    '\n' :: source (framePieces (casesPieces 0 arguments)) = codeWith (arguments.map source) := by
  have several : ¬(arguments.map source).isEmpty = true := by simpa using some
  rw [codeWith, if_neg several, cons_intercalate (by simp), List.flatMap_append,
    List.flatMap_append, framePieces, source_append, source_append, source_casesPieces]
  simp [frameStart, frameEnd, source, Piece.text]

/-- Pieces up to a punctuation character, and pieces behind it. -/
theorem separated_append {first rest : List Piece} {c : Char}
    (ends : first.getLast? = some (.punctuation c)) (separated : Separated first)
    (behind : Separated rest) : Separated (first ++ rest) := by
  obtain ⟨front, rfl⟩ := List.getLast?_eq_some_iff.mp ends
  have listed : c ∈ punctuationChars := by
    clear ends
    induction front with
    | nil => exact separated.1
    | cons piece front ih => exact ih separated.2.2
  rw [List.append_assoc]
  exact separated_join separated (separated_punctuation listed behind)

theorem separated_casePieces (i : ℕ) {argument rest : List Piece}
    (separated : Separated (argument ++ [.punctuation ')'])) (behind : Separated rest) :
    Separated (casePieces i argument ++ rest) := by
  have digits : ∀ c ∈ Nat.toDigits 10 i, isIdentRest c = true := fun c member =>
    isIdentRest_of_isDigit (Nat.isDigit_of_mem_toDigits (by decide) (by decide) member)
  have front : Separated (caseStart i) := by
    simp [caseStart, Separated, Piece.Valid, Piece.EndsBefore, source, Piece.text, isIdentStart,
      isIdentRest, isBlank, punctuationChars, operatorChars]
    simpa [isIdentRest] using digits
  have back : Separated caseEnd := by
    simp [caseEnd, Separated, Piece.Valid, Piece.EndsBefore, source, Piece.text, isIdentStart,
      isIdentRest, isBlank, punctuationChars]
  have ended : Separated (caseEnd ++ rest) := separated_append rfl back behind
  rw [casePieces, List.append_assoc, List.append_assoc]
  exact separated_append rfl front (separated_join separated ended)

theorem separated_casesPieces (i : ℕ) {arguments : List (List Piece)} {rest : List Piece}
    (separated : ∀ argument ∈ arguments, Separated (argument ++ [.punctuation ')']))
    (behind : Separated rest) : Separated (casesPieces i arguments ++ rest) := by
  induction arguments generalizing i with
  | nil => exact behind
  | cons argument others ih =>
    have later := ih (i + 1) fun other member =>
      separated other (List.mem_cons_of_mem argument member)
    rw [casesPieces, List.append_assoc]
    exact separated_casePieces i (separated argument List.mem_cons_self) later

theorem separated_framePieces {arguments : List (List Piece)}
    (separated : ∀ argument ∈ arguments, Separated (argument ++ [.punctuation ')'])) :
    Separated (framePieces (casesPieces 0 arguments)) := by
  have front : Separated frameStart := by
    simp [frameStart, Separated, Piece.Valid, Piece.EndsBefore, source, Piece.text, isIdentStart,
      isIdentRest, isBlank, punctuationChars, operatorChars]
  have back : Separated frameEnd := by
    simp [frameEnd, Separated, Piece.Valid, Piece.EndsBefore, source, Piece.text, isIdentStart,
      isIdentRest, isBlank, punctuationChars]
  exact separated_append rfl front (separated_casesPieces 0 separated back)

/-! Nothing of it is the start of a keymaps array. -/

/-- A piece that is not the first word of the array -/
def Piece.Quiet (piece : Piece) : Prop := piece ≠ .word "const".toList

theorem quiet_casesPieces (i : ℕ) {arguments : List (List Piece)}
    (quiet : ∀ argument ∈ arguments, ∀ piece ∈ argument, piece.Quiet) :
    ∀ piece ∈ casesPieces i arguments, piece.Quiet := by
  induction arguments generalizing i with
  | nil => simp [casesPieces]
  | cons argument others ih =>
    have later := ih (i + 1) fun other member => quiet other (List.mem_cons_of_mem argument member)
    have front : ∀ piece ∈ caseStart i, piece.Quiet := by simp [caseStart, Piece.Quiet]
    have back : ∀ piece ∈ caseEnd, piece.Quiet := by simp [caseEnd, Piece.Quiet]
    have inside := quiet argument List.mem_cons_self
    intro piece member
    simp only [casesPieces, casePieces, List.mem_append] at member
    rcases member with (inStart | inArgument | inEnd) | inOthers
    · exact front piece inStart
    · exact inside piece inArgument
    · exact back piece inEnd
    · exact later piece inOthers

theorem quiet_framePieces {arguments : List (List Piece)}
    (quiet : ∀ argument ∈ arguments, ∀ piece ∈ argument, piece.Quiet) :
    ∀ piece ∈ framePieces (casesPieces 0 arguments), piece.Quiet := by
  have front : ∀ piece ∈ frameStart, piece.Quiet := by simp [frameStart, Piece.Quiet]
  have back : ∀ piece ∈ frameEnd, piece.Quiet := by simp [frameEnd, Piece.Quiet]
  intro piece member
  simp only [framePieces, List.mem_append] at member
  rcases member with inStart | inCases | inEnd
  · exact front piece inStart
  · exact quiet_casesPieces 0 quiet piece inCases
  · exact back piece inEnd

/-- No array, and nothing found of one -/
structure Scan.Outside (s : Scan) : Prop where
  isKeymap : s.isKeymap = false
  isAdvKc : s.isAdvKc = false
  certainty : s.keymapCertainty = 0

theorem step_quiet {s : Scan} (outside : s.Outside) {piece : Piece} (quiet : piece.Quiet) :
    ∃ depth, s.step (piece.token wordType) = some { s with braceDepth := depth } := by
  obtain ⟨isKeymap, isAdvKc, certainty⟩ := outside
  by_cases brace : ∃ c, piece = .punctuation c
  · obtain ⟨c, rfl⟩ := brace
    by_cases opening : [c] <:+: openingBraces
    · exact ⟨s.braceDepth + 1, by
        simp [Piece.token, Piece.type, Scan.step, Piece.text, opening, Scan.opens, isKeymap,
          certainty]⟩
    by_cases closing : [c] <:+: closingBraces
    · exact ⟨s.braceDepth - 1, by
        simp [Piece.token, Piece.type, Scan.step, Piece.text, opening, closing, Scan.closes,
          isKeymap]⟩
    · refine ⟨s.braceDepth, ?_⟩
      change _ = some s
      simp [Piece.token, Piece.type, Scan.step, Piece.text, opening, closing, isAdvKc]
  · refine ⟨s.braceDepth, ?_⟩
    change _ = some s
    cases piece with
    | punctuation c => exact absurd ⟨c, rfl⟩ brace
    | word text =>
      have other : text ≠ "const".toList := fun same => quiet (congrArg Piece.word same)
      cases type : wordType text with
      | name =>
        simp [Piece.token, Piece.type, type, WordType.tokenType, Scan.step, Scan.name, isKeymap,
          certainty]
      | keyword =>
        simp only [Piece.token, Piece.type, type, WordType.tokenType, Scan.step, Piece.text, other,
          false_and, if_false]
      | keywordType =>
        simp [Piece.token, Piece.type, type, WordType.tokenType, Scan.step, certainty]
      | other => simp [Piece.token, Piece.type, type, WordType.tokenType, Scan.step, isAdvKc]
    | decimal n => simp [Piece.token, Piece.type, Scan.step, isKeymap, isAdvKc]
    | hex digits => simp [Piece.token, Piece.type, Scan.step, isAdvKc]
    | blank text => simp [Piece.token, Piece.type, Scan.step, isAdvKc]
    | operator c => simp [Piece.token, Piece.type, Scan.step, isAdvKc]
    | string body => simp [Piece.token, Piece.type, Scan.step, isAdvKc]
    | comment body => simp [Piece.token, Piece.type, Scan.step, isAdvKc]
    | directive text => simp [Piece.token, Piece.type, Scan.step, isAdvKc]

theorem read_quiet {s : Scan} (outside : s.Outside) {pieces : List Piece}
    (quiet : ∀ piece ∈ pieces, piece.Quiet) :
    ∃ depth, Scan.read wordType pieces s = some { s with braceDepth := depth } := by
  induction pieces generalizing s with
  | nil => exact ⟨s.braceDepth, rfl⟩
  | cons piece rest ih =>
    obtain ⟨depth, stepped⟩ := @step_quiet wordType s outside piece (quiet piece List.mem_cons_self)
    have still : Scan.Outside { s with braceDepth := depth } := ⟨outside.1, outside.2, outside.3⟩
    obtain ⟨later, read⟩ := ih still fun other member =>
      quiet other (List.mem_cons_of_mem piece member)
    exact ⟨later, by rw [read_cons, stepped, Option.bind_some, read]⟩

end MacroPieces

/-! ### The arguments -/

section ArgumentPieces

/-- A text in pieces that end before a parenthesis, none of them the first word of an array -/
def Lexes (text : List Char) : Prop :=
  ∃ pieces, source pieces = text ∧ Separated (pieces ++ [.punctuation ')']) ∧
    ∀ piece ∈ pieces, piece.Quiet

theorem lexes_macro {name : List Char} (valid : (Piece.word name).Valid)
    (other : name ≠ "const".toList) {piece : Piece}
    (separated : Separated [piece, .punctuation ')']) (quiet : piece.Quiet)
    {text : List Char} (lexes : Lexes text) :
    Lexes (name ++ '(' :: (piece.text ++ ')' :: text)) := by
  obtain ⟨pieces, rfl, behind, others⟩ := lexes
  refine ⟨.word name :: .punctuation '(' :: piece :: .punctuation ')' :: pieces, ?_,
    ⟨valid, ?_, ?_⟩, ?_⟩
  · simp [source, Piece.text]
  · simp [source_cons, Piece.EndsBefore, Piece.text]
    decide
  · exact separated_punctuation (by decide)
      ⟨separated.1, separated.2.1, separated_punctuation (by decide) behind⟩
  · intro other' member
    simp only [List.mem_cons] at member
    rcases member with rfl | rfl | rfl | rfl | inPieces
    · exact fun same => other (Piece.word.inj same)
    · simp [Piece.Quiet]
    · exact quiet
    · simp [Piece.Quiet]
    · exact others other' inPieces

theorem lexes_call {sent : Call} (named : sent.Named) {text : List Char} (lexes : Lexes text) :
    Lexes (sent.text ++ text) := by
  have ends : isIdentRest ')' = false ∧ ')' ≠ '"' ∧ ')' ≠ '.' := by decide
  cases sent with
  | key action keycode =>
    have valid : (Piece.word ("SS_".toList ++ action.upper)).Valid := by
      cases action <;> simp [Piece.Valid, KeyAction.upper, isIdentStart, isIdentRest]
    have other : "SS_".toList ++ action.upper ≠ "const".toList := by simp
    have name : (Piece.word ("X_".toList ++ keycode)).Valid := by
      refine ⟨⟨'X', '_' :: keycode, by simp, by decide⟩, ?_⟩
      intro c member
      have cases : c = 'X' ∨ c = '_' ∨ c ∈ keycode := by simpa [or_assoc] using member
      rcases cases with rfl | rfl | inKeycode
      · decide
      · decide
      · exact named c inKeycode
    have inside : Separated [.word ("X_".toList ++ keycode), .punctuation ')'] :=
      ⟨name, by simp [source_cons, Piece.EndsBefore, Piece.text, ends],
        separated_punctuation (by decide) trivial⟩
    have called := lexes_macro valid other inside (by simp [Piece.Quiet]) lexes
    simpa [Call.text_key, sendKey, Piece.text] using called
  | delay ms =>
    have valid : (Piece.word "SS_DELAY".toList).Valid := by
      simp [Piece.Valid, isIdentStart, isIdentRest]
    have other : "SS_DELAY".toList ≠ "const".toList := by simp
    have inside : Separated [.decimal ms, .punctuation ')'] :=
      ⟨trivial, by simp [source_cons, Piece.EndsBefore, Piece.text, ends],
        separated_punctuation (by decide) trivial⟩
    have called := lexes_macro valid other inside (by simp [Piece.Quiet]) lexes
    simpa [Call.text_delay, Piece.text] using called

theorem stringBody_escapeChar (c : Char) {body : List Char} (valid : StringBody body) :
    StringBody (escapeChar c ++ body) := by
  unfold escapeChar
  split_ifs with backslash newline tab quote beeps
  · exact .escape (by decide) valid
  · exact .escape (by decide) valid
  · exact .escape (by decide) valid
  · exact .escape (by decide) valid
  · exact .escape (by decide) valid
  · exact .plain quote backslash newline valid

/-- What is written for steps can be read by the lexer, from outside a literal or inside. -/
theorem lexes_render {items : List Said} (wellFormed : ∀ item ∈ items, item.WellFormed) :
    Lexes (render false items) ∧ ∃ body text, render true items = body ++ '"' :: text ∧
      StringBody body ∧ Lexes text := by
  have nothing : Lexes [] := ⟨[], rfl, separated_punctuation (by decide) trivial, by simp⟩
  induction items with
  | nil => exact ⟨nothing, [], [], rfl, .nil, nothing⟩
  | cons item rest ih =>
    obtain ⟨outside, body, text, split, valid, later⟩ := ih fun other member =>
      wellFormed other (List.mem_cons_of_mem item member)
    have first := wellFormed item List.mem_cons_self
    cases item with
    | char c =>
      have longer := stringBody_escapeChar c valid
      have inside : render true (.char c :: rest) = (escapeChar c ++ body) ++ '"' :: text := by
        rw [render, split]
        simp
      refine ⟨?_, _, _, inside, longer, later⟩
      obtain ⟨pieces, source, separated, quiet⟩ := later
      refine ⟨.string (escapeChar c ++ body) :: pieces, ?_, ⟨longer, trivial, separated⟩, ?_⟩
      · rw [source_cons, source, render, split]
        simp [Piece.text]
      · intro piece member
        rcases List.mem_cons.mp member with rfl | inPieces
        · simp [Piece.Quiet]
        · exact quiet piece inPieces
    | call sent =>
      have called : Lexes (sent.text ++ render false rest) := lexes_call first outside
      exact ⟨called, [], _, rfl, .nil, called⟩

/-- The macros give arguments that the lexer can read. -/
theorem lexes_argument {macroArray : List Fragment} (includes : List Char)
    (wellFormed : ∀ fragment ∈ macroArray, fragment.WellFormed)
    (quote : ¬QuoteEnds (stepsOf macroArray)) (marker : ¬Marked (stepsOf macroArray)) :
    Lexes (replace includesMarker includes (newMacro macroArray)) := by
  rw [argument_eq includes wellFormed quote marker]
  exact (lexes_render (stepsOf_wellFormed wellFormed)).1

/-- The code behind the keymap, behind two line breaks -/
theorem exists_codePieces {arguments : List (List Char)}
    (lexes : ∀ argument ∈ arguments, Lexes argument) :
    ∃ pieces, source pieces = '\n' :: '\n' :: codeWith arguments ∧ Separated pieces ∧
      ∀ piece ∈ pieces, piece.Quiet := by
  obtain ⟨all, rfl, separated, quiet⟩ : ∃ all : List (List Piece), all.map source = arguments ∧
      (∀ argument ∈ all, Separated (argument ++ [.punctuation ')'])) ∧
        ∀ argument ∈ all, ∀ piece ∈ argument, piece.Quiet := by
    induction arguments with
    | nil => exact ⟨[], rfl, by simp, by simp⟩
    | cons argument rest ih =>
      obtain ⟨all, texts, separated, quiet⟩ := ih fun other member =>
        lexes other (List.mem_cons_of_mem argument member)
      obtain ⟨pieces, text, ends, silent⟩ := lexes argument List.mem_cons_self
      exact ⟨pieces :: all, by rw [List.map_cons, text, texts],
        List.forall_mem_cons.mpr ⟨ends, separated⟩, List.forall_mem_cons.mpr ⟨silent, quiet⟩⟩
  by_cases none : all = []
  · refine ⟨[.blank ['\n', '\n']], ?_, ?_, by simp [Piece.Quiet]⟩
    · simp [none, source, Piece.text, codeWith]
    · simp [Separated, Piece.Valid, Piece.EndsBefore, isBlank, source]
  · refine ⟨.blank ['\n', '\n', '\n'] :: framePieces (casesPieces 0 all), ?_, ⟨?_, ?_, ?_⟩, ?_⟩
    · rw [source_cons, ← source_framePieces none]
      rfl
    · simp [Piece.Valid, isBlank]
    · simp [framePieces, frameStart, source_cons, Piece.text, Piece.EndsBefore, isBlank]
    · exact separated_framePieces separated
    · intro piece member
      rcases List.mem_cons.mp member with rfl | inFrame
      · simp [Piece.Quiet]
      · exact quiet_framePieces quiet piece inFrame

end ArgumentPieces

/-! ### The file -/

section File

variable {json : KeymapJson} {layers : List (List Keycode)}

/-- The template up to the layers, behind its includes -/
def openingPieces : List Piece :=
  [.blank ['\n', '\n', '\n'],
    .comment (" THIS FILE WAS GENERATED!".toList ++ '\n' :: (" *".toList ++ '\n' ::
      (" * This file was generated by qmk json2c. You may or may not want to".toList ++ '\n' ::
        (" * edit it directly.".toList ++ ['\n', ' '])))),
    .blank ['\n', '\n'], .word "const".toList, .blank [' '], .word "uint16_t".toList, .blank [' '],
    .word "PROGMEM".toList, .blank [' '], .word "keymaps".toList, .punctuation '[',
    .punctuation ']', .punctuation '[', .word "MATRIX_ROWS".toList, .punctuation ']',
    .punctuation '[', .word "MATRIX_COLS".toList, .punctuation ']', .blank [' '], .operator '=',
    .blank [' '], .punctuation '\x7b']

/-- The includes -/
def headerPieces (json : KeymapJson) : List Piece :=
  .directive "include QMK_KEYBOARD_H".toList ::
    if json.hostLanguage.isEmpty then []
    else [.blank ['\n'],
      .directive ("include \"keymap_".toList ++ json.hostLanguage ++ ".h\"".toList), .blank ['\n'],
      .directive ("include \"sendstring_".toList ++ json.hostLanguage ++ ".h\"".toList)]

/-- The end of the array, and what is behind it -/
def closingPieces (layers : List (List Keycode)) (code : List Piece) : List Piece :=
  .blank (if layers.isEmpty then ['\n', '\n'] else ['\n']) :: .punctuation '\x7d' ::
    .punctuation ';' :: code

/-- What is found of the array, and the braces that are open -/
def openingScan (keymapCertainty : ℕ) (braceDepth : ℤ) : Scan :=
  { keymapCertainty := keymapCertainty, braceDepth := braceDepth }

theorem step_opening_other {wordType : List Char → WordType} {piece : Piece}
    (other : piece.type wordType = .other) (certainty : ℕ) (depth : ℤ) :
    (openingScan certainty depth).step (piece.token wordType) =
      some (openingScan certainty depth) := by
  simp [Piece.token, other, Scan.step, openingScan]

theorem step_opening_bracket (wordType : List Char → WordType) (certainty : ℕ) (depth : ℤ) :
    (openingScan certainty depth).step (Piece.token wordType (.punctuation '[')) =
      some (openingScan certainty (depth + 1)) := by
  simp [Piece.token, Piece.type, Piece.text, Scan.step, Scan.opens, singleton_infix_iff,
    openingBraces, openingScan]

theorem step_closing_bracket (wordType : List Char → WordType) (certainty : ℕ) (depth : ℤ) :
    (openingScan certainty depth).step (Piece.token wordType (.punctuation ']')) =
      some (openingScan certainty (depth - 1)) := by
  simp [Piece.token, Piece.type, Piece.text, Scan.step, Scan.closes, singleton_infix_iff,
    openingBraces, closingBraces, openingScan]

/-- The six words of the array -/
theorem step_signature (lexer : Lexer) (depth : ℤ) :
    (openingScan 0 depth).step (Piece.token lexer.wordType (.word "const".toList)) =
      some (openingScan 1 depth) ∧
    (openingScan 1 depth).step (Piece.token lexer.wordType (.word "uint16_t".toList)) =
      some (openingScan 2 depth) ∧
    (openingScan 2 depth).step (Piece.token lexer.wordType (.word "PROGMEM".toList)) =
      some (openingScan 3 depth) ∧
    (openingScan 3 depth).step (Piece.token lexer.wordType (.word "keymaps".toList)) =
      some (openingScan 4 depth) ∧
    (openingScan 4 depth).step (Piece.token lexer.wordType (.word "MATRIX_ROWS".toList)) =
      some (openingScan 5 depth) ∧
    (openingScan 5 depth).step (Piece.token lexer.wordType (.word "MATRIX_COLS".toList)) =
      some (openingScan 6 depth) := by
  refine ⟨?_, ?_, ?_, ?_, ?_, ?_⟩
  · simp only [Piece.token, Piece.type, lexer.const, WordType.tokenType, Scan.step, Piece.text]
    rfl
  · simp only [Piece.token, Piece.type, lexer.uint16, WordType.tokenType, Scan.step, Piece.text]
    rfl
  · simp only [Piece.token, Piece.type, lexer.progmem, WordType.tokenType, Scan.step, Piece.text]
    rfl
  · simp only [Piece.token, Piece.type, lexer.keymaps, WordType.tokenType, Scan.step, Piece.text]
    rfl
  · simp only [Piece.token, Piece.type, lexer.matrixRows, WordType.tokenType, Scan.step, Piece.text]
    rfl
  · simp only [Piece.token, Piece.type, lexer.matrixCols, WordType.tokenType, Scan.step, Piece.text]
    rfl

theorem read_openingPieces (lexer : Lexer) :
    Scan.read lexer.wordType openingPieces {} = some (arrayScan []) := by
  have start : ({} : Scan) = openingScan 0 0 := rfl
  have other {piece : Piece} (kind : piece.type lexer.wordType = .other) (certainty : ℕ)
      (depth : ℤ) (rest : List Piece) :
      Scan.read lexer.wordType (piece :: rest) (openingScan certainty depth) =
        Scan.read lexer.wordType rest (openingScan certainty depth) := by
    rw [read_cons, step_opening_other kind, Option.bind_some]
  have opening (certainty : ℕ) (depth : ℤ) (rest : List Piece) :
      Scan.read lexer.wordType (.punctuation '[' :: rest) (openingScan certainty depth) =
        Scan.read lexer.wordType rest (openingScan certainty (depth + 1)) := by
    rw [read_cons, step_opening_bracket, Option.bind_some]
  have closing (certainty : ℕ) (depth : ℤ) (rest : List Piece) :
      Scan.read lexer.wordType (.punctuation ']' :: rest) (openingScan certainty depth) =
        Scan.read lexer.wordType rest (openingScan certainty (depth - 1)) := by
    rw [read_cons, step_closing_bracket, Option.bind_some]
  have brace : (openingScan 6 0).step (Piece.token lexer.wordType (.punctuation '\x7b')) =
      some (arrayScan []) := by
    simp [Piece.token, Piece.type, Piece.text, Scan.step, Scan.opens, singleton_infix_iff,
      openingBraces, openingScan, arrayScan]
  obtain ⟨const, uint16, progmem, keymaps, -, -⟩ := step_signature lexer 0
  obtain ⟨-, -, -, -, rows, cols⟩ := step_signature lexer 1
  rw [start, openingPieces, other rfl, other rfl, other rfl, read_cons, const, Option.bind_some,
    other rfl, read_cons, uint16, Option.bind_some, other rfl, read_cons, progmem, Option.bind_some,
    other rfl, read_cons, keymaps, Option.bind_some, opening, closing, opening]
  simp only [zero_add, sub_self]
  rw [read_cons, rows, Option.bind_some, closing, opening]
  simp only [zero_add, sub_self]
  rw [read_cons, cols, Option.bind_some, closing, sub_self, other rfl, other rfl, other rfl,
    read_cons, brace, Option.bind_some, read_nil]

theorem separated_openingPieces : Separated openingPieces := by
  have noSlash : '/' ∉ " THIS FILE WAS GENERATED!".toList ++ '\n' :: (" *".toList ++ '\n' ::
      (" * This file was generated by qmk json2c. You may or may not want to".toList ++ '\n' ::
        (" * edit it directly.".toList ++ ['\n', ' ']))) := by simp
  refine ⟨by simp [Piece.Valid, isBlank], ?_,
    not_infix_of_notMem (List.mem_cons_of_mem _ List.mem_cons_self) noSlash, trivial, ?_⟩
  · simp [Piece.EndsBefore, source_cons, Piece.text, isBlank]
  · simp [Separated, Piece.Valid, Piece.EndsBefore, source, Piece.text, isIdentStart, isIdentRest,
      isBlank, punctuationChars, operatorChars]

/-- The includes end their lines. -/
theorem separated_headerPieces (language : '\n' ∉ json.hostLanguage) {rest : List Piece}
    (separated : Separated rest) (newline : (source rest).head? = some '\n') :
    Separated (headerPieces json ++ rest) := by
  have ends : ∀ c ∈ (source rest).head?, c = '\n' := by
    rw [newline]
    exact fun c isHead => (Option.some.inj isHead).symm
  have first : '\n' ∉ "include QMK_KEYBOARD_H".toList := by simp
  unfold headerPieces
  split_ifs with none
  · exact ⟨first, ends, separated⟩
  · refine ⟨first, by simp [source_cons, Piece.text, Piece.EndsBefore],
      by simp [Piece.Valid, isBlank],
      by simp [source_cons, Piece.text, Piece.EndsBefore, isBlank], ?_,
      by simp [source_cons, Piece.text, Piece.EndsBefore], by simp [Piece.Valid, isBlank],
      by simp [source_cons, Piece.text, Piece.EndsBefore, isBlank], ?_, ends, separated⟩
    · simpa [Piece.Valid] using language
    · simpa [Piece.Valid] using language

theorem source_headerPieces (json : KeymapJson) (rest : List Char) :
    source (headerPieces json) ++ '\n' :: '\n' :: '\n' :: rest =
      "#include QMK_KEYBOARD_H".toList ++ '\n' :: (json.includes ++ '\n' :: '\n' :: rest) := by
  unfold headerPieces KeymapJson.includes
  split_ifs with none
  · simp [source, Piece.text]
  · simp [source, Piece.text]

/-- The array between its braces, and the code behind it -/
theorem source_closingPieces (keycodes : json.layers = layers.map (·.map Keycode.text))
    {wordType : List Char → WordType} (wellFormed : ∀ layer ∈ layers, ∀ keycode ∈ layer,
      keycode.WellFormed wordType) (code : List Piece) :
    source (layersPieces json.layout 0 layers ++ closingPieces layers code) =
      '\n' :: (json.keymap ++ '\n' :: '\x7d' :: ';' :: source code) := by
  rw [source_append]
  by_cases none : layers = []
  · have empty : json.keymap = [] := by simp [KeymapJson.keymap, keycodes, none, layerTxt]
    rw [none, empty]
    simp [layersPieces, closingPieces, source, Piece.text]
  · have some : layers.isEmpty = false := by simpa using none
    rw [source_layersPieces wellFormed none, KeymapJson.keymap, keycodes]
    simp [closingPieces, some, source, Piece.text]

theorem source_openingPieces (rest : List Char) : source openingPieces ++ rest =
    '\n' :: '\n' :: '\n' :: ("/* THIS FILE WAS GENERATED!".toList ++ '\n' :: (" *".toList ++ '\n' ::
      (" * This file was generated by qmk json2c. You may or may not want to".toList ++ '\n' ::
        (" * edit it directly.".toList ++ '\n' :: (" */".toList ++ '\n' :: '\n' ::
          ("const uint16_t PROGMEM keymaps[][MATRIX_ROWS][MATRIX_COLS] = \x7b".toList ++
            rest)))))) := by
  have comment : "/* THIS FILE WAS GENERATED!".toList =
      '/' :: '*' :: " THIS FILE WAS GENERATED!".toList := by simp
  have ended : " */".toList = [' ', '*', '/'] := by simp
  have signature : source [.word "const".toList, .blank [' '], .word "uint16_t".toList,
      .blank [' '], .word "PROGMEM".toList, .blank [' '], .word "keymaps".toList, .punctuation '[',
      .punctuation ']', .punctuation '[', .word "MATRIX_ROWS".toList, .punctuation ']',
      .punctuation '[', .word "MATRIX_COLS".toList, .punctuation ']', .blank [' '], .operator '=',
      .blank [' '], .punctuation '\x7b'] =
        "const uint16_t PROGMEM keymaps[][MATRIX_ROWS][MATRIX_COLS] = \x7b".toList := by
    simp [source, Piece.text]
  rw [openingPieces, source_cons, source_cons, source_cons, signature, comment, ended]
  simp only [Piece.text, List.cons_append, List.nil_append, List.append_assoc]

/-- The file in pieces -/
theorem source_file (keycodes : json.layers = layers.map (·.map Keycode.text))
    {wordType : List Char → WordType} (wellFormed : ∀ layer ∈ layers, ∀ keycode ∈ layer,
      keycode.WellFormed wordType) {code : List Piece}
    (behind : source code = '\n' :: '\n' :: codeWith json.arguments) :
    source (headerPieces json ++ (openingPieces ++ (layersPieces json.layout 0 layers ++
      closingPieces layers code))) =
        ['\n'].intercalate (templateLines json.includes json.keymap) ++
          codeWith json.arguments := by
  have brace : "\x7d;".toList = ['\x7d', ';'] := by simp
  rw [source_append, source_append, source_closingPieces keycodes wellFormed, source_openingPieces,
    source_headerPieces, behind, templateLines_eq, brace]
  simp only [List.intercalate_cons_cons, List.intercalate_singleton, List.append_assoc,
    List.cons_append, List.nil_append, List.append_nil]

theorem read_headerPieces (wordType : List Char → WordType) (json : KeymapJson) :
    Scan.read wordType (headerPieces json) {} = some {} := by
  unfold headerPieces
  split_ifs
  · rfl
  · rfl

/-- The layers are what is found, behind the array as well. -/
theorem read_closingPieces {wordType : List Char → WordType} {code : List Piece}
    (quiet : ∀ piece ∈ code, piece.Quiet) (read : List Layer) :
    (Scan.read wordType (closingPieces layers code) (arrayScan read)).map Scan.layers =
      some read := by
  have closed : Scan.read wordType (closingPieces layers []) (arrayScan read) =
      some { layers := read } := by
    simp [closingPieces, read_cons, read_nil, Piece.token, Piece.type, Piece.text, Scan.step,
      singleton_infix_iff, openingBraces, closingBraces, Scan.closes, arrayScan]
  have split : closingPieces layers code = closingPieces layers [] ++ code := rfl
  obtain ⟨depth, behind⟩ := @read_quiet wordType { layers := read } ⟨rfl, rfl, rfl⟩ code quiet
  rw [split, read_append, closed, Option.bind_some, behind]
  rfl

/-- A file that is given, as far as the lexer goes -/
structure Readable (lexer : Lexer) (json : KeymapJson) (layers : List (List Keycode)) : Prop where
  keycodes : json.layers = layers.map (·.map Keycode.text)
  wellFormed : ∀ layer ∈ layers, ∀ keycode ∈ layer, keycode.WellFormed lexer.wordType
  layout : (Piece.word json.layout).Valid ∧ lexer.wordType json.layout = .name
  language : '\n' ∉ json.hostLanguage
  macros : ∀ macroArray ∈ json.macros, ∀ fragment ∈ macroArray, fragment.WellFormed

/-- No replacement goes wrong in it. -/
structure Undamaged (json : KeymapJson) : Prop where
  layers : ¬includesMarker <:+: json.keymap
  quotes : ∀ macroArray ∈ json.macros, ¬QuoteEnds (stepsOf macroArray)
  markers : ∀ macroArray ∈ json.macros, ¬Marked (stepsOf macroArray)

/-- `_get_layers` finds the layers, but for the numbers in them. -/
theorem getLayers_generateC {lexer : Lexer} (readable : Readable lexer json layers)
    (undamaged : Undamaged json) :
    getLayers (lexer.lex (generateC json)) = some (layersRead json.layout 0 layers) := by
  obtain ⟨keycodes, wellFormed, ⟨layout, named⟩, language, macros⟩ := readable
  have lexes : ∀ argument ∈ json.arguments, Lexes argument := by
    intro argument member
    obtain ⟨macroArray, inMacros, rfl⟩ := List.mem_map.mp member
    exact lexes_argument json.includes (macros macroArray inMacros)
      (undamaged.quotes macroArray inMacros) (undamaged.markers macroArray inMacros)
  obtain ⟨code, text, codeSeparated, quiet⟩ := exists_codePieces lexes
  have closing : Separated (closingPieces layers code) := by
    refine ⟨?_, ?_, separated_punctuation (by decide)
      (separated_punctuation (by decide) codeSeparated)⟩
    · split_ifs <;> simp [Piece.Valid, isBlank]
    · simp [source_cons, Piece.text, Piece.EndsBefore, isBlank]
  have opening : Separated (openingPieces ++ (layersPieces json.layout 0 layers ++
      closingPieces layers code)) := separated_append rfl separated_openingPieces
        (separated_layersPieces wellFormed layout 0 closing)
  have file := separated_headerPieces language opening (by
    rw [source_append, source_openingPieces]
    rfl)
  rw [generateC_lines undamaged.layers, ← source_file keycodes wellFormed text, getLayers,
    lexer.lexes _ file]
  change (Scan.read lexer.wordType _ {}).map Scan.layers = _
  rw [read_append, read_headerPieces, Option.bind_some, read_append, read_openingPieces,
    Option.bind_some, read_append, read_layersPieces wellFormed named, Option.bind_some]
  exact read_closingPieces quiet _

/-- As many layers are found, each with the layout and its keycodes. -/
def Back (lexer : Lexer) (json : KeymapJson) (layers : List (List Keycode)) : Prop :=
  ∃ found, getLayers (lexer.lex (generateC json)) = some found ∧
    found.map Layer.layout = layers.map (fun _ => some json.layout) ∧
    found.map Layer.keycodes = layers.map (·.map fun keycode => keycode.expression.text)

theorem map_layersRead (layout : List Char) (layerNum : ℕ) (layers : List (List Keycode)) :
    (layersRead layout layerNum layers).map Layer.layout = layers.map (fun _ => some layout) ∧
      (layersRead layout layerNum layers).map Layer.keycodes =
        layers.map (·.flatMap fun keycode => keycode.expression.collected) := by
  induction layers generalizing layerNum with
  | nil => exact ⟨rfl, rfl⟩
  | cons layer rest ih =>
    obtain ⟨layouts, keycodes⟩ := ih (layerNum + 1)
    exact ⟨congrArg (_ :: ·) layouts, congrArg (_ :: ·) keycodes⟩

theorem collected_cases (expression : Expression) :
    (expression.Number ∧ expression.collected = []) ∨
      ¬expression.Number ∧ expression.collected = [expression.text] := by
  cases expression with
  | name text => exact .inr ⟨id, rfl⟩
  | decimal n => exact .inl ⟨trivial, rfl⟩
  | hex digits => exact .inl ⟨trivial, rfl⟩
  | call callee arguments => exact .inr ⟨id, rfl⟩

theorem length_collected_le (layer : List Keycode) :
    (layer.flatMap fun keycode => keycode.expression.collected).length ≤ layer.length := by
  induction layer with
  | nil => rfl
  | cons keycode rest ih =>
    rw [List.flatMap_cons, List.length_append, List.length_cons]
    rcases collected_cases keycode.expression with ⟨-, none⟩ | ⟨-, one⟩
    · rw [none, List.length_nil]
      omega
    · rw [one, List.length_singleton]
      omega

/-- Numbers are what is not collected. -/
theorem collected_iff (layer : List Keycode) :
    (layer.flatMap fun keycode => keycode.expression.collected) =
      layer.map (fun keycode => keycode.expression.text) ↔
        ∀ keycode ∈ layer, ¬keycode.expression.Number := by
  induction layer with
  | nil => simp
  | cons keycode rest ih =>
    rw [List.flatMap_cons, List.map_cons, List.forall_mem_cons]
    rcases collected_cases keycode.expression with ⟨number, none⟩ | ⟨other, one⟩
    · have shorter := length_collected_le rest
      rw [none, List.nil_append]
      constructor
      · intro same
        have lengths := congrArg List.length same
        rw [List.length_cons, List.length_map] at lengths
        omega
      · exact fun none => absurd number none.1
    · rw [one, List.singleton_append, List.cons_inj_right, ih]
      exact (and_iff_right other).symm

theorem isName_letter {c : Char} (letter : isIdentStart c = true ∧ isIdentRest c = true) :
    IsName plainLexer.wordType [c] := by
  refine ⟨⟨⟨c, [], rfl, letter.1⟩, by simp [letter.2]⟩, ?_, by simp⟩
  change (if [c] = "const".toList then WordType.keyword
    else if [c] = "uint16_t".toList then .keywordType else .name) = .name
  simp

end File

end QmkSonix.Convert
