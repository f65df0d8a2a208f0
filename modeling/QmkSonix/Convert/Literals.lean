import QmkSonix.Convert.Macros

/-! Macros written as string literals and `SS_` macros, and read again. -/

namespace QmkSonix.Convert

open QmkSonix.Lib

/-! ### Writing -/

/-- A character of a text in a string literal -/
def escapeChar (c : Char) : List Char :=
  if c = '\\' then ['\\', '\\']
  else if c = '\n' then ['\\', 'n']
  else if c = '\t' then ['\\', 't']
  else if c = '"' then ['\\', '"']
  else if c = bell then ['\\', 'a']
  else [c]

/-- Steps as C, with a literal open or not -/
def render : Bool → List Said → List Char
  | inside, [] => if inside then ['"'] else []
  | inside, .char c :: rest =>
    (if inside then [] else ['"']) ++ escapeChar c ++ render true rest
  | inside, .call call :: rest => (if inside then ['"'] else []) ++ call.text ++ render false rest

section Escaping

theorem lineBreaks_cons {c : Char} (plain : c ≠ '\r') (rest : List Char) :
    lineBreaks (c :: rest) = c :: lineBreaks rest := by
  rw [lineBreaks.eq_def]
  split <;> simp_all

/-- The first replacement -/
def doubled (c : Char) : List Char := if c = '\\' then ['\\', '\\'] else [c]

/-- The replacements behind that of two characters -/
def escapeRest (c : Char) : List Char :=
  if c = '\n' ∨ c = '\r' then ['\\', 'n']
  else if c = '\t' then ['\\', 't']
  else if c = '"' then ['\\', '"']
  else [c]

theorem escapeFragment_eq_flatMap (text : List Char) : escapeFragment text =
    (replace ['\r', '\n'] ['\\', 'n'] (text.flatMap doubled)).flatMap escapeRest := by
  simp only [escapeFragment, replace_singleton, List.flatMap_assoc]
  refine congrArg₂ List.flatMap ?_ rfl
  funext c
  unfold escapeRest
  split_ifs <;> simp_all

theorem replace_doubled {c : Char} (plain : c ≠ '\r') (text : List Char) :
    replace ['\r', '\n'] ['\\', 'n'] (doubled c ++ text) =
      doubled c ++ replace ['\r', '\n'] ['\\', 'n'] text := by
  have keeps (d : Char) (other : d ≠ '\r') (rest : List Char) :
      ¬['\r', '\n'] <+: d :: rest := by
    rw [List.cons_prefix_cons]
    exact fun start => other start.1.symm
  unfold doubled
  split_ifs
  · simp only [List.cons_append, List.nil_append]
    rw [replace_cons (keeps _ (by decide) _), replace_cons (keeps _ (by decide) _)]
  · simp only [List.cons_append, List.nil_append]
    rw [replace_cons (keeps _ plain _)]

theorem escapeRest_doubled {c : Char} (plain : c ≠ '\r') (typed : c ≠ bell) :
    (doubled c).flatMap escapeRest = escapeChar c := by
  unfold doubled
  split_ifs with backslash
  · subst backslash
    decide
  · simp only [List.flatMap_cons, List.flatMap_nil, List.append_nil, escapeRest, escapeChar, plain,
      typed, backslash, or_false, if_false]

/-- The escape of a text is that of its characters, where line breaks are newlines. -/
theorem escapeFragment_eq {text : List Char} (typed : bell ∉ text) :
    escapeFragment text = (lineBreaks text).flatMap escapeChar := by
  rw [escapeFragment_eq_flatMap]
  induction text using lineBreaks.induct with
  | case1 => rfl
  | case2 rest ih =>
    have later : bell ∉ rest := fun member =>
      typed (List.mem_cons_of_mem _ (List.mem_cons_of_mem _ member))
    have front : ('\r' :: '\n' :: rest).flatMap doubled =
        ['\r', '\n'] ++ rest.flatMap doubled := rfl
    rw [front, replace_append (List.cons_ne_nil _ _), List.flatMap_append, ih later, lineBreaks]
    rfl
  | case3 rest single ih =>
    have later : bell ∉ rest := fun member => typed (List.mem_cons_of_mem _ member)
    have front : ('\r' :: rest).flatMap doubled = '\r' :: rest.flatMap doubled := rfl
    have keeps : ¬['\r', '\n'] <+: '\r' :: rest.flatMap doubled := by
      rw [List.cons_prefix_cons]
      rintro ⟨-, start⟩
      cases rest with
      | nil => exact absurd (List.prefix_nil.mp start) (List.cons_ne_nil _ _)
      | cons c rest =>
        rw [List.flatMap_cons, doubled] at start
        split_ifs at start with backslash
        · exact absurd (List.cons_prefix_cons.mp start).1 (by decide)
        · exact single rest (congrArg (· :: rest) (List.cons_prefix_cons.mp start).1.symm)
    rw [front, replace_cons keeps, List.flatMap_cons, ih later, lineBreaks.eq_3 rest single]
    rfl
  | case4 c rest pair single ih =>
    have later : bell ∉ rest := fun member => typed (List.mem_cons_of_mem _ member)
    have other : c ≠ bell := fun same => typed (same ▸ List.mem_cons_self)
    rw [lineBreaks_cons single, List.flatMap_cons, List.flatMap_cons, replace_doubled single,
      List.flatMap_append, escapeRest_doubled single other, ih later]

end Escaping

/-! ### Single steps -/

section Steps

/-- A keycode that is a name -/
def Call.Named : Call → Prop
  | .key _ keycode => ∀ c ∈ keycode, isIdentRest c = true
  | .delay _ => True

/-- A character that can be typed, or a macro of a name -/
def Said.WellFormed : Said → Prop
  | .char c => ' ' ≤ c ∧ c ≤ '~' ∨ c = '\n' ∨ c = '\t' ∨ c = bell
  | .call sent => sent.Named

/-- What a macro has up to its closing parenthesis -/
def InCall (c : Char) : Prop := isIdentRest c = true ∨ c = '('

instance (c : Char) : Decidable (InCall c) := inferInstanceAs (Decidable (_ ∨ _))

theorem Call.text_key (action : KeyAction) (keycode : List Char) :
    (Call.key action keycode).text = sendKey action keycode := rfl

theorem Call.text_delay (ms : ℕ) :
    (Call.delay ms).text = "SS_DELAY(".toList ++ Nat.toDigits 10 ms ++ [')'] := rfl

/-- A macro is read up to its closing parenthesis. -/
theorem call_text {call : Call} (named : call.Named) : ∃ body, call.text = 'S' :: (body ++ [')']) ∧
    (∀ c ∈ body, InCall c) ∧ callOf ('S' :: body) = some call := by
  cases call with
  | key action keycode =>
    have front : ∀ c ∈ "S_".toList ++ action.upper ++ "(X_".toList, InCall c := by
      cases action <;> simp [KeyAction.upper, InCall, isIdentRest]
    refine ⟨"S_".toList ++ action.upper ++ "(X_".toList ++ keycode, ?_, ?_, ?_⟩
    · simp [Call.text_key, sendKey]
    · intro c member
      rcases List.mem_append.mp member with inFront | inKeycode
      · exact front c inFront
      · exact .inl (named c inKeycode)
    · cases action <;> simp [callOf, KeyAction.upper]
  | delay ms =>
    have front : ∀ c ∈ "S_DELAY(".toList, InCall c := by simp [InCall, isIdentRest]
    refine ⟨"S_DELAY(".toList ++ Nat.toDigits 10 ms, ?_, ?_, ?_⟩
    · simp [Call.text_delay]
    · intro c member
      rcases List.mem_append.mp member with inFront | digit
      · exact front c inFront
      · exact .inl (isIdentRest_of_isDigit
          (Nat.isDigit_of_mem_toDigits (by decide) (by decide) digit))
    · simp [callOf]

end Steps

section Joining

/-- What a fragment says is either a text or all macros. -/
theorem fragmentText_cases {fragment : Fragment} (wellFormed : fragment.WellFormed) :
    (∃ text : List Char, fragment.steps = text.map .char ∧
      fragmentText fragment = ['"'] ++ text.flatMap escapeChar ++ ['"']) ∨
    ∃ calls : List Call, fragment.steps = calls.map .call ∧
      fragmentText fragment = calls.flatMap Call.text := by
  cases fragment with
  | string text =>
    have untyped : ¬(' ' ≤ bell ∧ bell ≤ '~' ∨ bell = '\t' ∨ bell = '\n' ∨ bell = '\r') := by decide
    have typed : bell ∉ text := fun member => untyped (wellFormed bell member)
    have written : fragmentText (.string text) = ['"'] ++ escapeFragment text ++ ['"'] := rfl
    refine .inl ⟨lineBreaks text, rfl, ?_⟩
    rw [written, escapeFragment_eq typed]
  | delay duration =>
    refine .inr ⟨[.delay duration], rfl, ?_⟩
    rw [List.flatMap_singleton]
    rfl
  | beep => exact .inl ⟨[bell], rfl, rfl⟩
  | keys action keycodes =>
    have plain (keycodes : List (List Char)) : keycodes.flatMap (sendKey action) =
        (keycodes.map fun keycode => Call.key action keycode).flatMap Call.text := by
      rw [List.flatMap_map]
      rfl
    have others : (∃ calls : List Call,
        (keycodes.map fun keycode => Said.call (.key action keycode)) = calls.map .call ∧
          keycodes.flatMap (sendKey action) = calls.flatMap Call.text) :=
      ⟨_, by rw [List.map_map]; rfl, plain keycodes⟩
    right
    cases action with
    | tap =>
      rcases List.eq_nil_or_concat keycodes with rfl | ⟨held, last, rfl⟩
      · exact ⟨[], rfl, rfl⟩
      · refine ⟨held.map (.key .down) ++ [.key .tap last] ++ held.reverse.map (.key .up), ?_, ?_⟩
        · simp only [Fragment.steps, List.concat_eq_append, List.getLast?_concat,
            List.dropLast_concat, List.map_append, List.map_map, List.map_cons, List.map_nil]
          rfl
        · have written : fragmentText (.keys .tap (held ++ [last])) =
              held.flatMap (sendKey .down) ++ sendKey .tap last ++
                held.reverse.flatMap (sendKey .up) := by
            unfold fragmentText
            dsimp only
            rw [List.getLast?_concat, List.dropLast_concat]
            dsimp only
            cases held with
            | nil =>
              rw [if_neg (by simp)]
              simp
            | cons first rest =>
              have several : 1 < (first :: rest ++ [last]).length := by simp
              exact if_pos several
          rw [List.concat_eq_append, written]
          simp only [List.flatMap_append, List.flatMap_map, List.flatMap_cons, List.flatMap_nil,
            List.append_nil]
          rfl
    | down => exact others
    | up => exact others

/-- Pairs of quotes erased -/
def erase (text : List Char) : List Char := replace ['"', '"'] [] text

theorem erase_insert (first second : List Char) :
    erase (first ++ '"' :: '"' :: second) = erase (first ++ second) :=
  replace_pair_insert '"' first second

theorem render_calls (calls : List Call) (rest : List Said) :
    render false (calls.map .call ++ rest) = calls.flatMap Call.text ++ render false rest := by
  induction calls with
  | nil => rfl
  | cons call calls ih =>
    rw [List.map_cons, List.cons_append, render, ih, if_neg Bool.false_ne_true, List.nil_append,
      List.flatMap_cons, List.append_assoc]

/-- A literal may be closed and opened again. -/
theorem erase_reopened (first : List Char) (rest : List Said) :
    erase (first ++ '"' :: render false rest) = erase (first ++ render true rest) := by
  cases rest with
  | nil => rfl
  | cons item rest =>
    cases item with
    | char c => exact erase_insert first _
    | call call => rfl

/-- A literal may be opened and closed again. -/
theorem erase_opened (first : List Char) (rest : List Said) :
    erase (first ++ '"' :: render true rest) = erase (first ++ render false rest) := by
  cases rest with
  | nil => exact erase_insert first []
  | cons item rest =>
    cases item with
    | char c => rfl
    | call call => exact erase_insert first _

theorem erase_text (first text : List Char) (rest : List Said) :
    erase (first ++ text.flatMap escapeChar ++ '"' :: render false rest) =
      erase (first ++ render true (text.map .char ++ rest)) := by
  induction text generalizing first with
  | nil =>
    rw [List.flatMap_nil, List.append_nil]
    exact erase_reopened first rest
  | cons c text ih =>
    have moved := ih (first ++ escapeChar c)
    simp only [List.append_assoc] at moved ⊢
    rw [List.flatMap_cons, List.append_assoc, moved]
    rfl

/-- `new_macro` is written as its steps are, but that pairs of quotes are erased. -/
theorem newMacro_eq {macroArray : List Fragment}
    (wellFormed : ∀ fragment ∈ macroArray, fragment.WellFormed) :
    newMacro macroArray = erase (render false (stepsOf macroArray)) := by
  have joined (first : List Char) : erase (first ++ macroArray.flatMap fragmentText) =
      erase (first ++ render false (stepsOf macroArray)) := by
    induction macroArray generalizing first with
    | nil => rfl
    | cons fragment rest ih =>
      have later := ih fun other member => wellFormed other (List.mem_cons_of_mem fragment member)
      have steps : stepsOf (fragment :: rest) = fragment.steps ++ stepsOf rest := rfl
      rw [List.flatMap_cons, ← List.append_assoc, later, steps]
      rcases fragmentText_cases (wellFormed fragment List.mem_cons_self) with
        ⟨text, taken, written⟩ | ⟨calls, taken, written⟩
      · have opened := erase_text (first ++ ['"']) text (stepsOf rest)
        rw [written, taken]
        simp only [List.append_assoc, List.cons_append, List.nil_append] at opened ⊢
        rw [opened, erase_opened]
      · rw [written, taken, render_calls, List.append_assoc]
  exact joined []

end Joining

/-! ### Quotes -/

section Quotes

/-- No two quotes stand side by side. -/
def Apart (text : List Char) : Prop :=
  text.IsChain fun first second => ¬(first = '"' ∧ second = '"')

theorem apart_iff (text : List Char) : Apart text ↔ ¬['"', '"'] <:+: text := by
  unfold Apart
  induction text with
  | nil => simp
  | cons c rest ih =>
    cases rest with
    | nil => simp [List.infix_cons_iff]
    | cons d rest =>
      have split : ['"', '"'] <:+: c :: d :: rest ↔
          ['"', '"'] <+: c :: d :: rest ∨ ['"', '"'] <:+: d :: rest := List.infix_cons_iff
      rw [List.isChain_cons_cons, ih, split, not_or]
      simp [eq_comm]

theorem apart_append {first second : List Char} : Apart (first ++ second) ↔
    Apart first ∧ Apart second ∧
      ∀ c ∈ first.getLast?, ∀ d ∈ second.head?, ¬(c = '"' ∧ d = '"') := List.isChain_append

theorem escapeChar_ne_nil (c : Char) : escapeChar c ≠ [] := by
  unfold escapeChar
  split_ifs <;> simp

theorem apart_escapeChar (c : Char) : Apart (escapeChar c) := by
  unfold escapeChar Apart
  split_ifs
  · simp
  · simp
  · simp
  · simp
  · simp
  · simp

theorem getLast?_escapeChar (c : Char) : '"' ∈ (escapeChar c).getLast? ↔ c = '"' := by
  unfold escapeChar
  split_ifs <;> simp_all

theorem head?_escapeChar (c : Char) : '"' ∉ (escapeChar c).head? := by
  unfold escapeChar
  split_ifs <;> simp_all

end Quotes

end QmkSonix.Convert
