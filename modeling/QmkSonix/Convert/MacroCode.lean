import QmkSonix.Convert.Meaning

/-! The code of all macros, and what repeated calls of `generate_c` write. -/

namespace QmkSonix.Convert

open QmkSonix.Lib

/-! ### One call -/

section Written

variable {new : List Char}

/-- The marker is in no line that lacks one of its letters. -/
theorem replace_line {line : List Char} (absent : 'L' ∉ line) :
    replace includesMarker new line = line := by
  apply replace_of_absent
  intro found
  refine absent (found.subset ?_)
  simp [includesMarker_eq]

theorem replace_sent (argument : List Char) :
    replace includesMarker new ("                SEND_STRING(".toList ++ argument ++ ");".toList) =
      "                SEND_STRING(".toList ++ replace includesMarker new argument ++
        ");".toList := by
  have lacks : 'L' ∉ "                SEND_STRING(".toList := by simp
  have absent : ¬includesMarker <:+: "                SEND_STRING(".toList := by
    intro found
    exact lacks (found.subset (by simp [includesMarker_eq]))
  have ends : EndsOutside includesMarker "                SEND_STRING(".toList := by
    simp [EndsOutside, includesMarker_eq]
  have starts : ∀ c ∈ ");".toList.head?, c ∉ includesMarker := by
    simp [includesMarker_eq]
  have closing : replace includesMarker new ");".toList = ");".toList := replace_line (by simp)
  rw [List.append_assoc, replace_append_left absent ends,
    replace_append_of_head marker_ne_nil starts, closing, List.append_assoc]

theorem linesWith_map (i : ℕ) (arguments : List (List Char)) :
    (linesWith i arguments).map (replace includesMarker new) =
      linesWith i (arguments.map (replace includesMarker new)) := by
  induction arguments generalizing i with
  | nil => rfl
  | cons argument rest ih =>
    have digits : 'L' ∉ Nat.toDigits 10 i := fun member =>
      absurd (Nat.isDigit_of_mem_toDigits (by decide) (by decide) member) (by decide)
    have label : replace includesMarker new
        ("            case MACRO_".toList ++ Nat.toDigits 10 i ++ [':']) =
          "            case MACRO_".toList ++ Nat.toDigits 10 i ++ [':'] :=
      replace_line (by simp [digits])
    have returns : replace includesMarker new "                return false;".toList =
        "                return false;".toList := replace_line (by simp)
    rw [linesWith, List.map_append, ih, List.map_cons, List.map_cons, List.map_cons, List.map_nil,
      label, replace_sent, returns, List.map_cons, linesWith]

theorem map_lines {lines : List (List Char)} (absent : ∀ line ∈ lines, 'L' ∉ line) :
    lines.map (replace includesMarker new) = lines := by
  have fixed : ∀ line ∈ lines, replace includesMarker new line = id line :=
    fun line member => replace_line (absent line member)
  rw [List.map_congr_left fixed, List.map_id]

/-- The marker is replaced in the arguments only. -/
theorem replace_codeWith (arguments : List (List Char)) :
    replace includesMarker new (codeWith arguments) =
      codeWith (arguments.map (replace includesMarker new)) := by
  cases arguments with
  | nil => rfl
  | cons argument rest =>
    have keeps (text : List Char) : ¬includesMarker <+: '\n' :: text := by
      simp [includesMarker_eq]
    have newline : '\n' ∉ includesMarker := by simp [includesMarker_eq]
    have several (first : List Char) (others : List (List Char)) :
        ¬(first :: others).isEmpty = true := by simp
    rw [List.map_cons, codeWith, codeWith, if_neg (several _ _), if_neg (several _ _),
      replace_cons (keeps _), replace_intercalate marker_ne_nil newline, List.map_append,
      List.map_append]
    refine congrArg (fun lines => '\n' :: ['\n'].intercalate lines) ?_
    exact congrArg₂ (· ++ ·) (congrArg₂ (· ++ ·) (map_lines (by simp)) (linesWith_map 0 _))
      (map_lines (by simp))

theorem macrosLines_eq (i : ℕ) (macros : List (List Fragment)) :
    macrosLines i macros = linesWith i (macros.map newMacro) := by
  induction macros generalizing i with
  | nil => rfl
  | cons macroArray rest ih => rw [macrosLines, ih, List.map_cons, linesWith, macroLines]

/-- The code behind the keymap has the arguments, once `__INCLUDES__` is replaced. -/
theorem generateC_eq (json : KeymapJson) : generateC json =
    replace includesMarker json.includes (replace keymapMarker json.keymap defaultKeymapC) ++
      codeWith json.arguments := by
  have code : json.macroCode = codeWith (json.macros.map newMacro) := by
    unfold KeymapJson.macroCode codeWith macroTxt
    rw [macrosLines_eq, List.isEmpty_map]
  have starts : ∀ c ∈ (codeWith (json.macros.map newMacro)).head?, c ∉ includesMarker := by
    cases json.macros with
    | nil => simp [codeWith]
    | cons macroArray rest => simp [codeWith, includesMarker_eq]
  rw [generateC, code, replace_append_of_head marker_ne_nil starts, replace_codeWith, List.map_map]
  rfl

end Written

/-! ### Repeated calls -/

section Repeated

variable {json : KeymapJson} {fragment : Fragment}

theorem steps_tap (held : List (List Char)) (last : List Char) :
    (Fragment.keys .tap (held ++ [last])).steps =
      (held.map (Call.key .down) ++ [Call.key .tap last] ++
        held.reverse.map (Call.key .up)).map .call := by
  simp only [Fragment.steps, List.getLast?_concat, List.dropLast_concat, List.map_append,
    List.map_map, List.map_cons, List.map_nil]
  rfl

/-- What `pop` changes: a tap of several keys. -/
theorem chord_cases (fragment : Fragment) : (¬fragment.Chord ∧ fragment.pop = fragment) ∨
    ∃ held next last, fragment = .keys .tap (held ++ [next] ++ [last]) ∧
      fragment.pop = .keys .tap (held ++ [next]) := by
  cases fragment with
  | string text => exact .inl ⟨id, rfl⟩
  | delay duration => exact .inl ⟨id, rfl⟩
  | beep => exact .inl ⟨id, rfl⟩
  | keys action keycodes =>
    cases action with
    | down => exact .inl ⟨id, rfl⟩
    | up => exact .inl ⟨id, rfl⟩
    | tap =>
      by_cases several : 1 < keycodes.length
      · right
        rcases List.eq_nil_or_concat keycodes with rfl | ⟨front, last, rfl⟩
        · simp at several
        rcases List.eq_nil_or_concat front with rfl | ⟨held, next, rfl⟩
        · simp at several
        refine ⟨held, next, last, by simp, ?_⟩
        rw [Fragment.pop, if_pos several, List.concat_eq_append, List.dropLast_concat,
          List.concat_eq_append]
      · exact .inl ⟨several, by rw [Fragment.pop, if_neg several]⟩

theorem render_calls_of_ne_nil {calls : List Call} (some : calls ≠ []) (rest : List Said)
    (inside : Bool) : render inside (calls.map .call ++ rest) =
      (if inside then ['"'] else []) ++ calls.flatMap Call.text ++ render false rest := by
  obtain ⟨call, others, rfl⟩ := List.exists_cons_of_ne_nil some
  rw [List.map_cons, List.cons_append, render, render_calls, List.flatMap_cons]
  simp only [List.append_assoc]

theorem length_render_append {first second : List Said}
    (shorter : ∀ inside, (render inside first).length ≤ (render inside second).length)
    (front : List Said) (inside : Bool) :
    (render inside (front ++ first)).length ≤ (render inside (front ++ second)).length := by
  induction front generalizing inside with
  | nil => exact shorter inside
  | cons item rest ih =>
    cases item with
    | char c =>
      have later := ih true
      simp only [List.cons_append, render, List.length_append]
      omega
    | call sent =>
      have later := ih false
      simp only [List.cons_append, render, List.length_append]
      omega

/-- What is left of a macro is no longer than it. -/
theorem length_render_pop (macroArray : List Fragment) (inside : Bool) :
    (render inside (stepsOf (macroArray.map Fragment.pop))).length ≤
      (render inside (stepsOf macroArray)).length := by
  induction macroArray generalizing inside with
  | nil => rfl
  | cons fragment rest ih =>
    have split (fragment : Fragment) (rest : List Fragment) :
        stepsOf (fragment :: rest) = fragment.steps ++ stepsOf rest := rfl
    rw [List.map_cons, split, split]
    rcases chord_cases fragment with ⟨-, same⟩ | ⟨held, next, last, rfl, popped⟩
    · rw [same]
      exact length_render_append ih fragment.steps inside
    · have later := ih false
      rw [popped, steps_tap, steps_tap, render_calls_of_ne_nil (by simp),
        render_calls_of_ne_nil (by simp)]
      simp [Call.text_key, sendKey, KeyAction.upper]
      omega

theorem length_steps_pop (fragment : Fragment) :
    fragment.pop.steps.length ≤ fragment.steps.length ∧
      (fragment.Chord → fragment.pop.steps.length < fragment.steps.length) := by
  rcases chord_cases fragment with ⟨single, same⟩ | ⟨held, next, last, rfl, popped⟩
  · rw [same]
    exact ⟨le_rfl, fun chord => absurd chord single⟩
  · rw [popped, steps_tap, steps_tap]
    simp

/-- A tap of several keys has less to say the next time. -/
theorem stepsOf_pop_ne {macroArray : List Fragment} (member : fragment ∈ macroArray)
    (chord : fragment.Chord) : stepsOf (macroArray.map Fragment.pop) ≠ stepsOf macroArray := by
  intro same
  have lengths := congrArg List.length same
  have shorter : ((macroArray.map fun fragment => fragment.pop.steps.length)).sum <
      (macroArray.map fun fragment => fragment.steps.length).sum :=
    List.sum_lt_sum _ _ (fun other _ => (length_steps_pop other).1)
      ⟨fragment, member, (length_steps_pop fragment).2 chord⟩
  simp only [stepsOf, List.length_flatMap, List.map_map] at lengths
  exact absurd lengths (ne_of_lt shorter)

theorem map_pop {macroArray : List Fragment} (single : ∀ fragment ∈ macroArray, ¬fragment.Chord) :
    macroArray.map Fragment.pop = macroArray := by
  refine (List.map_congr_left fun fragment member => ?_).trans (List.map_id macroArray)
  rcases chord_cases fragment with ⟨-, same⟩ | ⟨held, next, last, rfl, -⟩
  · exact same
  · refine absurd ?_ (single _ member)
    change 1 < (held ++ [next] ++ [last]).length
    simp

theorem afterCall_of_single (single : ∀ macroArray ∈ json.macros, ∀ fragment ∈ macroArray,
    ¬fragment.Chord) : json.afterCall = json := by
  have macros : json.macros.map (·.map Fragment.pop) = json.macros :=
    (List.map_congr_left fun macroArray member => map_pop (single macroArray member)).trans
      (List.map_id json.macros)
  rw [KeymapJson.afterCall, macros]

theorem pop_wellFormed (wellFormed : fragment.WellFormed) : fragment.pop.WellFormed := by
  rcases chord_cases fragment with ⟨-, same⟩ | ⟨held, next, last, rfl, popped⟩
  · rw [same]
    exact wellFormed
  · rw [popped]
    exact fun keycode member => wellFormed keycode (List.mem_append_left _ member)

/-- A first call is right where the macros are clean. -/
theorem right_now_iff (wellFormed : ∀ macroArray ∈ json.macros, ∀ fragment ∈ macroArray,
    fragment.WellFormed) :
    Right json.macros json ↔ ∀ macroArray ∈ json.macros, Clean (stepsOf macroArray) := by
  have means (macroArray : List Fragment) (member : macroArray ∈ json.macros) :
      meaning (replace includesMarker json.includes (newMacro macroArray)) =
        some (stepsOf macroArray) ↔ Clean (stepsOf macroArray) := by
    rw [meaning_argument json (wellFormed macroArray member) le_rfl]
    exact and_iff_right rfl
  constructor
  · intro right macroArray member
    have meant := right.meant
    rw [KeymapJson.arguments, List.map_map, List.map_inj_left] at meant
    exact (means macroArray member).mp (meant macroArray member)
  · intro clean
    refine ⟨⟨_, generateC_eq json⟩, ?_⟩
    rw [KeymapJson.arguments, List.map_map, List.map_inj_left]
    exact fun macroArray member => (means macroArray member).mpr (clean macroArray member)

/-- The next call is right only without taps of several keys. -/
theorem single_of_right (wellFormed : ∀ macroArray ∈ json.macros, ∀ fragment ∈ macroArray,
    fragment.WellFormed) (right : Right json.macros json.afterCall) :
    ∀ macroArray ∈ json.macros, ∀ fragment ∈ macroArray, ¬fragment.Chord := by
  intro macroArray member fragment inArray chord
  have meant := right.meant
  rw [KeymapJson.arguments, KeymapJson.afterCall, List.map_map, List.map_map, List.map_inj_left]
    at meant
  have popped : ∀ fragment ∈ macroArray.map Fragment.pop, fragment.WellFormed := by
    intro popped inPopped
    obtain ⟨original, inOriginal, rfl⟩ := List.mem_map.mp inPopped
    exact pop_wellFormed (wellFormed macroArray member original inOriginal)
  have same := (meaning_argument json.afterCall popped (length_render_pop macroArray false)).mp
    (meant macroArray member)
  exact stepsOf_pop_ne inArray chord same.1

/-- Calls of `generate_c` on one `keymap_json` write what its macros say exactly when the macros are
clean and, where there is a second call, no tap has several keys. -/
theorem right_iff_clean (json : KeymapJson) (later : ℕ) (wellFormed : ∀ macroArray ∈ json.macros,
    ∀ fragment ∈ macroArray, fragment.WellFormed) :
    (∀ call ≤ later, Right json.macros (KeymapJson.afterCall^[call] json)) ↔
      (∀ macroArray ∈ json.macros, Clean (stepsOf macroArray)) ∧
        (0 < later → ∀ macroArray ∈ json.macros, ∀ fragment ∈ macroArray, ¬fragment.Chord) := by
  constructor
  · intro right
    exact ⟨(right_now_iff wellFormed).mp (right 0 (Nat.zero_le later)),
      fun again => single_of_right wellFormed (right 1 again)⟩
  · rintro ⟨clean, single⟩ call bound
    have now := (right_now_iff wellFormed).mpr clean
    have unchanged : KeymapJson.afterCall^[call] json = json := by
      cases call with
      | zero => rfl
      | succ earlier =>
        exact Function.iterate_fixed (afterCall_of_single (single (by omega))) _
    rw [unchanged]
    exact now

/-- `Hi` and a key, twice -/
theorem right_when_clean :
    Right [[.string ['H', 'i'], .keys .tap [['A']]]]
      { layout := [], layers := [], macros := [[.string ['H', 'i'], .keys .tap [['A']]]] } ∧
    Right [[.string ['H', 'i'], .keys .tap [['A']]]] (KeymapJson.afterCall
      { layout := [], layers := [], macros := [[.string ['H', 'i'], .keys .tap [['A']]]] }) := by
  have steps : stepsOf [.string ['H', 'i'], .keys .tap [['A']]] =
      [.char 'H', .char 'i', .call (.key .tap ['A'])] := rfl
  have clean : Clean (stepsOf [.string ['H', 'i'], .keys .tap [['A']]]) := by
    rw [steps]
    refine ⟨by simp, by simp [QuoteEnds], ?_⟩
    rintro (text | ⟨sent, inSteps, found⟩)
    · have length := text.length_le
      simp [includesMarker_eq] at length
    · obtain rfl : sent = .key .tap ['A'] := by simpa using inSteps
      have length := found.length_le
      simp [Call.text_key, sendKey, includesMarker_eq, KeyAction.upper] at length
  have calls := (right_iff_clean
    { layout := [], layers := [], macros := [[.string ['H', 'i'], .keys .tap [['A']]]] } 1
      (by simp [Fragment.WellFormed, isIdentRest])).mpr
    ⟨fun macroArray member => List.mem_singleton.mp member ▸ clean, by simp [Fragment.Chord]⟩
  exact ⟨calls 0 (by decide), calls 1 le_rfl⟩

/-- A quote before a key is erased with the one that closes its literal, `__INCLUDES__` is gone from
a text, an empty macro is no C, and a second call lacks a key. -/
theorem quote_marker_and_chord_break :
    (newMacro [.string ['a', '"'], .keys .tap [['A']]] = "\"a\\SS_TAP(X_A)".toList ∧
      ¬Right [[.string ['a', '"'], .keys .tap [['A']]]]
        { layout := [], layers := [], macros := [[.string ['a', '"'], .keys .tap [['A']]]] }) ∧
    ¬Right [[.string includesMarker]]
      { layout := [], layers := [], macros := [[.string includesMarker]] } ∧
    ¬Right [[]] { layout := [], layers := [], macros := [[]] } ∧
    ¬Right [[.keys .tap [['L', 'C', 'T', 'L'], ['C']]]] (KeymapJson.afterCall
      { layout := [], layers := [], macros := [[.keys .tap [['L', 'C', 'T', 'L'], ['C']]]] }) := by
  have first (macroArray : List Fragment)
      (wellFormed : ∀ fragment ∈ macroArray, fragment.WellFormed)
      (right : Right [macroArray] { layout := [], layers := [], macros := [macroArray] }) :
      Clean (stepsOf macroArray) := by
    have all : ∀ other ∈ [macroArray], ∀ fragment ∈ other, fragment.WellFormed := by
      simpa using wellFormed
    exact (@right_now_iff { layout := [], layers := [], macros := [macroArray] } all).mp right
      macroArray List.mem_cons_self
  refine ⟨⟨rfl, fun right => ?_⟩, fun right => ?_, fun right => ?_, fun right => ?_⟩
  · refine (first _ (by simp [Fragment.WellFormed, isIdentRest]) right).quote ?_
    simp [stepsOf, Fragment.steps, lineBreaks_cons, lineBreaks, QuoteEnds]
  · refine (first _ (by simp [Fragment.WellFormed, includesMarker_eq]) right).marker (.inl ?_)
    have steps : stepsOf [.string includesMarker] = includesMarker.map .char := by
      rw [includesMarker_eq]
      rfl
    rw [steps]
  · exact (first _ (by simp) right).something rfl
  · have all : ∀ macroArray ∈ [[Fragment.keys .tap [['L', 'C', 'T', 'L'], ['C']]]],
        ∀ fragment ∈ macroArray, fragment.WellFormed := by
      simp [Fragment.WellFormed, isIdentRest]
    have single := @single_of_right { layout := [], layers := [], macros := [_] } all right
    exact single _ List.mem_cons_self _ List.mem_cons_self (by simp [Fragment.Chord])

end Repeated

end QmkSonix.Convert
