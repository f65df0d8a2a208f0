import QmkSonix.Convert.Literals

/-! Which arguments of a `SEND_STRING` say what their macros say, and which files have them. -/

namespace QmkSonix.Convert

open QmkSonix.Lib

/-! ### Quotes -/

section Quotes

variable {items : List Said}

theorem head?_render (items : List Said) :
    '"' ∈ (render true items).head? ↔ ∀ d, items.head? ≠ some (.char d) := by
  cases items with
  | nil => simp [render]
  | cons item rest =>
    cases item with
    | char c =>
      have escaped := head?_escapeChar c
      obtain ⟨first, others, shape⟩ : ∃ first others, escapeChar c = first :: others :=
        List.exists_cons_of_ne_nil (escapeChar_ne_nil c)
      rw [shape] at escaped
      simp_all [render]
    | call sent => simp [render]

/-- The quotes of a literal are apart from each other and from those of the text, unless a text
ends in a quote. -/
theorem apart_render (wellFormed : ∀ item ∈ items, item.WellFormed) (inside : Bool) :
    Apart (render inside items) ↔ ¬QuoteEnds items := by
  induction items generalizing inside with
  | nil => cases inside <;> simp [render, QuoteEnds, Apart]
  | cons item rest ih =>
    have later (inside : Bool) := ih (fun other member =>
      wellFormed other (List.mem_cons_of_mem item member)) inside
    cases item with
    | char c =>
      have text : Apart (escapeChar c ++ render true rest) ↔ ¬QuoteEnds (.char c :: rest) := by
        have meet : (∀ first ∈ (escapeChar c).getLast?, ∀ second ∈ (render true rest).head?,
            ¬(first = '"' ∧ second = '"')) ↔ ¬(c = '"' ∧ ∀ d, rest.head? ≠ some (.char d)) := by
          rw [← getLast?_escapeChar, ← head?_render]
          constructor
          · exact fun parted both => parted _ both.1 _ both.2 ⟨rfl, rfl⟩
          · rintro parted first last second start ⟨rfl, rfl⟩
            exact parted ⟨last, start⟩
        rw [apart_append, later, meet, QuoteEnds, not_or]
        constructor
        · exact fun parts => ⟨parts.2.2, parts.2.1⟩
        · exact fun parts => ⟨apart_escapeChar c, parts.2, parts.1⟩
      cases inside with
      | true => exact text
      | false =>
        have opened : Apart ('"' :: (escapeChar c ++ render true rest)) ↔
            Apart (escapeChar c ++ render true rest) := by
          have escaped := head?_escapeChar c
          obtain ⟨first, others, shape⟩ : ∃ first others, escapeChar c = first :: others :=
            List.exists_cons_of_ne_nil (escapeChar_ne_nil c)
          rw [shape] at escaped ⊢
          simp_all [Apart]
        exact opened.trans text
    | call sent =>
      obtain ⟨body, written, plain, -⟩ := call_text (wellFormed _ List.mem_cons_self)
      have named : Apart sent.text := by
        rw [apart_iff, written]
        intro pair
        have member : '"' ∈ 'S' :: (body ++ [')']) := pair.subset List.mem_cons_self
        have inBody : '"' ∈ body := by simpa using member
        exact absurd (plain _ inBody) (by decide)
      have closed : Apart (sent.text ++ render false rest) ↔ ¬QuoteEnds rest := by
        rw [apart_append, later]
        constructor
        · exact fun parts => parts.2.1
        · refine fun rest => ⟨named, rest, ?_⟩
          rintro first last second - ⟨rfl, -⟩
          rw [written, ← List.cons_append, List.getLast?_concat, Option.mem_some_iff] at last
          exact absurd last (by decide)
      cases inside with
      | false => exact closed
      | true =>
        have opened : Apart ('"' :: (sent.text ++ render false rest)) ↔
            Apart (sent.text ++ render false rest) := by
          rw [written]
          simp [Apart]
        exact opened.trans closed

/-- Where no text ends in a quote nothing is erased. -/
theorem erase_render (wellFormed : ∀ item ∈ items, item.WellFormed) (quote : ¬QuoteEnds items) :
    erase (render false items) = render false items :=
  replace_of_absent ((apart_iff _).mp ((apart_render wellFormed false).mpr quote))

/-- Elsewhere something is. -/
theorem quoteEnds_of_length (wellFormed : ∀ item ∈ items, item.WellFormed)
    (kept : (render false items).length ≤ (erase (render false items)).length) :
    ¬QuoteEnds items := by
  rw [← apart_render wellFormed false, apart_iff]
  intro pair
  have shorter : (erase (render false items)).length < (render false items).length :=
    length_replace_nil_lt (List.cons_ne_nil _ _) pair
  omega

end Quotes

/-! ### `__INCLUDES__` -/

section Markers

variable {items : List Said}

/-- What a text is written as from somewhere on -/
theorem exists_render_append (first second : List Said) (inside : Bool) :
    ∃ front continued, render inside (first ++ second) = front ++ render continued second := by
  induction first generalizing inside with
  | nil => exact ⟨[], inside, rfl⟩
  | cons item rest ih =>
    cases item with
    | char c =>
      obtain ⟨front, continued, later⟩ := ih true
      refine ⟨(if inside then [] else ['"']) ++ escapeChar c ++ front, continued, ?_⟩
      rw [List.cons_append, render, later, List.append_assoc _ front]
    | call sent =>
      obtain ⟨front, continued, later⟩ := ih false
      refine ⟨(if inside then ['"'] else []) ++ sent.text ++ front, continued, ?_⟩
      rw [List.cons_append, render, later, List.append_assoc _ front]

/-- A character that is written as it is -/
def Plain (c : Char) : Prop := escapeChar c = [c] ∧ c ≠ '"' ∧ c ≠ '\\'

theorem includesMarker_eq :
    includesMarker = ['_', '_', 'I', 'N', 'C', 'L', 'U', 'D', 'E', 'S', '_', '_'] := by
  change "__INCLUDES__".toList = _
  simp

theorem marker_ne_nil : includesMarker ≠ [] := by simp [includesMarker_eq]

theorem plain_marker : ∀ c ∈ includesMarker, Plain c ∧ c ≠ ')' := by
  simp [includesMarker_eq, Plain, escapeChar, bell]

theorem escapeChar_cases (c : Char) : escapeChar c = [c] ∨
    ∃ letter ∈ ['"', '\\', 'n', 't', 'a'], escapeChar c = ['\\', letter] := by
  unfold escapeChar
  split_ifs <;> simp

theorem prefix_render {pattern : List Char} (plain : ∀ c ∈ pattern, Plain c) (items : List Said) :
    pattern <+: render true items ↔ pattern.map .char <+: items := by
  induction pattern generalizing items with
  | nil => simp
  | cons c pattern ih =>
    have first := plain c List.mem_cons_self
    have later := ih fun d member => plain d (List.mem_cons_of_mem c member)
    rw [List.map_cons]
    cases items with
    | nil => simp [render, first.2.1]
    | cons item rest =>
      cases item with
      | call sent => simp [render, first.2.1]
      | char d =>
        rw [render, if_pos rfl, List.nil_append, List.cons_prefix_cons, Said.char.injEq]
        constructor
        · intro found
          have same : c = d := by
            rcases escapeChar_cases d with shape | ⟨letter, -, shape⟩
            · rw [shape] at found
              exact (List.cons_prefix_cons.mp found).1
            · rw [shape] at found
              exact absurd (List.cons_prefix_cons.mp found).1 first.2.2
          subst same
          rw [first.1, List.cons_append, List.nil_append, List.cons_prefix_cons] at found
          exact ⟨rfl, (later rest).mp found.2⟩
        · rintro ⟨rfl, found⟩
          rw [first.1, List.cons_append, List.nil_append, List.cons_prefix_cons]
          exact ⟨rfl, (later rest).mpr found⟩

/-- The characters of escape sequences -/
theorem notMem_marker : ∀ c ∈ ['"', '\\', 'n', 't', 'a'], c ∉ includesMarker := by
  simp [includesMarker_eq]

theorem marker_infix_cons {c : Char} {text : List Char} (special : c ∈ ['"', '\\', 'n', 't', 'a'])
    (found : includesMarker <:+: c :: text) : includesMarker <:+: text := by
  rcases List.infix_cons_iff.mp found with here | later
  · obtain ⟨first, others, shape⟩ := List.exists_cons_of_ne_nil marker_ne_nil
    have member : first ∈ includesMarker := shape ▸ List.mem_cons_self
    rw [shape, List.cons_prefix_cons] at here
    exact absurd (here.1 ▸ member) (notMem_marker c special)
  · exact later

/-- A marker in what is said is written. -/
theorem infix_of_marked (marked : Marked items) : includesMarker <:+: render false items := by
  rcases marked with ⟨before, behind, split⟩ | ⟨sent, member, found⟩
  · obtain ⟨front, inside, written⟩ :=
      exists_render_append before (includesMarker.map .char ++ behind) false
    have text : includesMarker <:+: render true (includesMarker.map .char ++ behind) :=
      ((prefix_render (fun c member => (plain_marker c member).1) _).mpr
        (List.prefix_append _ _)).isInfix
    rw [← split, List.append_assoc, written]
    cases inside with
    | true => exact text.trans (List.suffix_append _ _).isInfix
    | false =>
      have opened : render false (includesMarker.map .char ++ behind) =
          '"' :: render true (includesMarker.map .char ++ behind) := by
        rw [includesMarker_eq]
        rfl
      rw [opened]
      exact (text.trans (List.suffix_cons _ _).isInfix).trans (List.suffix_append _ _).isInfix
  · obtain ⟨before, behind, rfl⟩ := List.append_of_mem member
    obtain ⟨front, inside, written⟩ := exists_render_append before (.call sent :: behind) false
    rw [written, render]
    refine found.trans ⟨front ++ if inside then ['"'] else [], render false behind, ?_⟩
    simp only [List.append_assoc]

theorem marked_cons {item : Said} (marked : Marked items) : Marked (item :: items) := by
  rcases marked with text | ⟨sent, member, found⟩
  · exact .inl (text.trans (List.suffix_cons item items).isInfix)
  · exact .inr ⟨sent, List.mem_cons_of_mem item member, found⟩

/-- A marker in what is written stands in what is said. -/
theorem marked_of_found (wellFormed : ∀ item ∈ items, item.WellFormed) (inside : Bool)
    (found : includesMarker <:+: render inside items) : Marked items := by
  induction items generalizing inside with
  | nil =>
    have quote : includesMarker <:+: ['"'] := by
      cases inside with
      | true => exact found
      | false => exact found.trans (List.suffix_cons _ _).isInfix
    have nothing := marker_infix_cons (by simp) quote
    exact absurd (List.infix_nil.mp nothing) marker_ne_nil
  | cons item rest ih =>
    have later (inside : Bool) := ih (fun other member =>
      wellFormed other (List.mem_cons_of_mem item member)) inside
    cases item with
    | char c =>
      have text : includesMarker <:+: escapeChar c ++ render true rest := by
        cases inside with
        | true => exact found
        | false => exact marker_infix_cons (by simp) found
      rcases escapeChar_cases c with shape | ⟨letter, special, shape⟩
      · by_cases here : includesMarker <+: render true (.char c :: rest)
        · exact .inl ((prefix_render (fun c member => (plain_marker c member).1) _).mp here).isInfix
        · rw [shape, List.cons_append, List.nil_append] at text
          rw [render, shape] at here
          rcases List.infix_cons_iff.mp text with start | inRest
          · exact absurd start here
          · exact marked_cons (later true inRest)
      · rw [shape] at text
        have behind := marker_infix_cons (by simp) text
        exact marked_cons (later true (marker_infix_cons special behind))
    | call sent =>
      obtain ⟨body, written, plain, -⟩ := call_text (wellFormed _ List.mem_cons_self)
      have text : includesMarker <:+: sent.text ++ render false rest := by
        cases inside with
        | false => exact found
        | true => exact marker_infix_cons (by simp) found
      have ends : EndsOutside includesMarker sent.text := by
        intro last isLast member
        rw [written, ← List.cons_append, List.getLast?_concat, Option.mem_some_iff] at isLast
        exact (plain_marker last member).2 isLast.symm
      rcases infix_append_of_parted (.inl ends) text with inCall | inRest
      · exact .inr ⟨sent, List.mem_cons_self, inCall⟩
      · exact marked_cons (later false inRest)

end Markers

/-! ### Reading -/

section Reading

variable {items : List Said}

theorem scan_body {body : List Char} (plain : ∀ c ∈ body, InCall c) (text rest : List Char) :
    scan (.call text) (body ++ ')' :: rest) =
      (callOf (text ++ body)).bind fun sent => (scan .outside rest).map (.call sent :: ·) := by
  induction body generalizing text with
  | nil => simp [scan]
  | cons c body ih =>
    have goesOn : isIdentRest c = true ∨ c = '(' := plain c List.mem_cons_self
    have inside : c ≠ ')' := by
      rintro rfl
      exact absurd goesOn (by decide)
    have later := ih (fun d member => plain d (List.mem_cons_of_mem c member)) (text ++ [c])
    rw [List.cons_append, scan, if_neg inside, if_pos goesOn, later, List.append_assoc]
    rfl

theorem scan_escapeChar {c : Char} (wellFormed : (Said.char c).WellFormed) (rest : List Char) :
    scan .literal (escapeChar c ++ rest) = (scan .literal rest).map (.char c :: ·) := by
  unfold escapeChar
  split_ifs with backslash newline tab quote beeps
  · simp [scan, unescape, backslash]
  · simp [scan, unescape, newline]
  · simp [scan, unescape, tab]
  · simp [scan, unescape, quote]
  · simp [scan, unescape, beeps]
  · have printable : ' ' ≤ c ∧ c ≤ '~' := by
      rcases wellFormed with printable | newline' | tab' | beeps'
      · exact printable
      · exact absurd newline' newline
      · exact absurd tab' tab
      · exact absurd beeps' beeps
    simp [scan, backslash, quote, printable]

/-- What is written is read again. -/
theorem scan_render (wellFormed : ∀ item ∈ items, item.WellFormed) (inside : Bool) :
    scan (if inside then .literal else .outside) (render inside items) = some items := by
  induction items generalizing inside with
  | nil => cases inside <;> rfl
  | cons item rest ih =>
    have first := wellFormed item List.mem_cons_self
    have later (inside : Bool) := ih (fun other member =>
      wellFormed other (List.mem_cons_of_mem item member)) inside
    cases item with
    | char c =>
      have text : scan .literal (escapeChar c ++ render true rest) = some (.char c :: rest) := by
        have inRest : scan .literal (render true rest) = some rest := later true
        rw [scan_escapeChar first, inRest]
        rfl
      cases inside with
      | true => exact text
      | false => exact text
    | call sent =>
      obtain ⟨body, written, plain, named⟩ := call_text first
      have text : scan .outside (sent.text ++ render false rest) = some (.call sent :: rest) := by
        have inRest : scan .outside (render false rest) = some rest := later false
        rw [written, List.cons_append, List.append_assoc, scan, if_neg (by decide), if_pos rfl]
        rw [List.cons_append, List.nil_append, scan_body plain, List.singleton_append, named,
          Option.bind_some, inRest]
        rfl
      cases inside with
      | true => exact text
      | false => exact text

theorem text_of_callOf {text : List Char} {sent : Call} (named : callOf text = some sent) :
    sent.text = text ++ [')'] := by
  unfold callOf at named
  split_ifs at named with tap down up delay
  · obtain ⟨keycode, rfl⟩ := tap
    obtain rfl := Option.some.inj named
    simp [Call.text_key, sendKey, KeyAction.upper]
  · obtain ⟨keycode, rfl⟩ := down
    obtain rfl := Option.some.inj named
    simp [Call.text_key, sendKey, KeyAction.upper]
  · obtain ⟨keycode, rfl⟩ := up
    obtain rfl := Option.some.inj named
    simp [Call.text_key, sendKey, KeyAction.upper]
  · obtain ⟨digits, rfl⟩ := delay
    dsimp only at named
    split_ifs at named with number
    obtain rfl := Option.some.inj named
    rw [Call.text_delay, number]
    simp

theorem length_render_le (items : List Said) (inside : Bool) :
    (render inside items).length ≤ (render (!inside) items).length + 1 := by
  cases items with
  | nil => cases inside <;> simp [render]
  | cons item rest => cases item <;> cases inside <;> simp [render] <;> omega

theorem escapeChar_of_printable {c : Char} (printable : ' ' ≤ c ∧ c ≤ '~') (quote : c ≠ '"')
    (backslash : c ≠ '\\') : escapeChar c = [c] := by
  have others : c ≠ '\n' ∧ c ≠ '\t' ∧ c ≠ bell := by
    refine ⟨?_, ?_, ?_⟩ <;> rintro rfl <;> exact absurd printable (by decide)
  simp only [escapeChar, quote, backslash, others, if_false]

theorem length_escapeChar (c : Char) : (escapeChar c).length ≤ 2 := by
  unfold escapeChar
  split_ifs <;> simp

/-- Whether a literal is open -/
def Reading.inside : Reading → Bool
  | .outside | .call _ => false
  | .literal | .escape => true

/-- How much was read of what is not complete yet -/
def Reading.begun : Reading → ℕ
  | .outside | .literal => 0
  | .escape => 1
  | .call text => text.length

/-- What was read is no shorter than what is written for it. -/
theorem length_of_scan {reading : Reading} {text : List Char}
    (read : scan reading text = some items) :
    (render reading.inside items).length ≤ reading.begun + text.length := by
  induction text generalizing reading items with
  | nil =>
    cases reading with
    | outside =>
      obtain rfl := Option.some.inj read
      simp [render, Reading.inside]
    | literal => simp [scan] at read
    | escape => simp [scan] at read
    | call text => simp [scan] at read
  | cons c rest ih =>
    rw [List.length_cons]
    cases reading with
    | outside =>
      rw [scan] at read
      split_ifs at read with quote call
      · have later := ih read
        have other := length_render_le items false
        simp only [Reading.inside, Reading.begun, Bool.not_false] at later other ⊢
        omega
      · have later := ih read
        simp only [Reading.inside, Reading.begun, List.length_singleton] at later ⊢
        omega
    | literal =>
      rw [scan] at read
      split_ifs at read with quote backslash printable
      · have later := ih read
        have other := length_render_le items true
        simp only [Reading.inside, Reading.begun, Bool.not_true] at later other ⊢
        omega
      · have later := ih read
        simp only [Reading.inside, Reading.begun] at later ⊢
        omega
      · obtain ⟨items, readRest, rfl⟩ := Option.map_eq_some_iff.mp read
        have later := ih readRest
        have single : escapeChar c = [c] := escapeChar_of_printable printable quote backslash
        simp only [Reading.inside, Reading.begun, render, single, List.length_append] at later ⊢
        simp
        omega
    | escape =>
      obtain ⟨escaped, -, readLetter⟩ := Option.bind_eq_some_iff.mp read
      obtain ⟨items, readRest, rfl⟩ := Option.map_eq_some_iff.mp readLetter
      have later := ih readRest
      have short := length_escapeChar escaped
      simp only [Reading.inside, Reading.begun, render, List.length_append] at later ⊢
      simp
      omega
    | call text =>
      rw [scan] at read
      split_ifs at read with closed goesOn
      · obtain ⟨sent, named, readCall⟩ := Option.bind_eq_some_iff.mp read
        obtain ⟨items, readRest, rfl⟩ := Option.map_eq_some_iff.mp readCall
        have later := ih readRest
        have length := congrArg List.length (text_of_callOf named)
        simp only [Reading.inside, Reading.begun, render, List.length_append] at later length ⊢
        simp at length ⊢
        omega
      · have later := ih read
        simp only [Reading.inside, Reading.begun, List.length_append] at later ⊢
        simp at later
        omega

/-- An `#include` is no part of an argument. -/
theorem scan_include {text : List Char} (found : "#include \"k".toList <:+: text)
    (reading : Reading) : scan reading text = none := by
  induction text generalizing reading with
  | nil => simp at found
  | cons c rest ih =>
    rcases List.infix_cons_iff.mp found with here | later
    · obtain ⟨others, start⟩ := here
      rw [← start]
      cases reading <;> simp [scan, unescape, isIdentRest]
    · have nothing := ih later
      cases reading with
      | outside => simp [scan, nothing]
      | literal => simp [scan, nothing]
      | escape => simp [scan, nothing]
      | call text => simp [scan, nothing]

end Reading

/-! ### Arguments -/

section Arguments

variable {macroArray : List Fragment} {expected : List Said}

theorem mem_lineBreaks {c : Char} {text : List Char} (member : c ∈ lineBreaks text) :
    c = '\n' ∨ c ∈ text ∧ c ≠ '\r' := by
  induction text using lineBreaks.induct with
  | case1 => exact absurd member List.not_mem_nil
  | case2 rest ih =>
    rw [lineBreaks, List.mem_cons] at member
    rcases member with newline | later
    · exact .inl newline
    · exact (ih later).imp_right fun inRest => ⟨by simp [inRest.1], inRest.2⟩
  | case3 rest single ih =>
    rw [lineBreaks.eq_3 rest single, List.mem_cons] at member
    rcases member with newline | later
    · exact .inl newline
    · exact (ih later).imp_right fun inRest => ⟨by simp [inRest.1], inRest.2⟩
  | case4 d rest pair single ih =>
    rw [lineBreaks_cons single, List.mem_cons] at member
    rcases member with rfl | later
    · exact .inr ⟨List.mem_cons_self, single⟩
    · exact (ih later).imp_right fun inRest => ⟨List.mem_cons_of_mem d inRest.1, inRest.2⟩

theorem steps_wellFormed {fragment : Fragment} (wellFormed : fragment.WellFormed) :
    ∀ item ∈ fragment.steps, item.WellFormed := by
  cases fragment with
  | string text =>
    intro item member
    obtain ⟨c, inLines, rfl⟩ := List.mem_map.mp member
    rcases mem_lineBreaks inLines with newline | ⟨inText, notReturn⟩
    · exact .inr (.inl newline)
    · rcases wellFormed c inText with printable | tab | newline | isReturn
      · exact .inl printable
      · exact .inr (.inr (.inl tab))
      · exact .inr (.inl newline)
      · exact absurd isReturn notReturn
  | delay duration => simp [Fragment.steps, Said.WellFormed, Call.Named]
  | beep => simp [Fragment.steps, Said.WellFormed]
  | keys action keycodes =>
    have others : ∀ item ∈ keycodes.map fun keycode => Said.call (.key action keycode),
        item.WellFormed := by
      intro item member
      obtain ⟨keycode, inKeycodes, rfl⟩ := List.mem_map.mp member
      exact wellFormed keycode inKeycodes
    cases action with
    | tap =>
      rcases List.eq_nil_or_concat keycodes with rfl | ⟨held, last, rfl⟩
      · exact others
      · simp only [List.concat_eq_append] at wellFormed ⊢
        intro item member
        have named (keycode : List Char) (inHeld : keycode ∈ held) :=
          wellFormed keycode (List.mem_append_left _ inHeld)
        simp only [Fragment.steps, List.getLast?_concat, List.dropLast_concat, List.mem_append,
          List.mem_map, List.mem_reverse, List.mem_singleton] at member
        rcases member with (⟨keycode, inHeld, rfl⟩ | rfl) | ⟨keycode, inHeld, rfl⟩
        · exact named keycode inHeld
        · exact wellFormed last (List.mem_append_right _ List.mem_cons_self)
        · exact named keycode inHeld
    | down => exact others
    | up => exact others

theorem stepsOf_wellFormed (wellFormed : ∀ fragment ∈ macroArray, fragment.WellFormed) :
    ∀ item ∈ stepsOf macroArray, item.WellFormed := by
  intro item member
  obtain ⟨fragment, inArray, inSteps⟩ := List.mem_flatMap.mp member
  exact steps_wellFormed (wellFormed fragment inArray) item inSteps

theorem includes_cases (json : KeymapJson) :
    json.includes = [] ∨ "#include \"k".toList <:+: json.includes := by
  unfold KeymapJson.includes
  split_ifs with language
  · exact .inl rfl
  · right
    simp only [List.append_assoc]
    refine List.IsInfix.trans ?_ (List.prefix_append _ _).isInfix
    exact List.IsPrefix.isInfix (by simp)

theorem render_ne_nil {items : List Said} (wellFormed : ∀ item ∈ items, item.WellFormed)
    (something : items ≠ []) : render false items ≠ [] := by
  intro nothing
  have read := scan_render wellFormed false
  rw [nothing] at read
  exact something (Option.some.inj read).symm

/-- Nothing is replaced in an argument without a quote at an end and without the marker. -/
theorem argument_eq (includes : List Char)
    (wellFormed : ∀ fragment ∈ macroArray, fragment.WellFormed)
    (quote : ¬QuoteEnds (stepsOf macroArray)) (marker : ¬Marked (stepsOf macroArray)) :
    replace includesMarker includes (newMacro macroArray) = render false (stepsOf macroArray) := by
  have steps := stepsOf_wellFormed wellFormed
  have unmarked : ¬includesMarker <:+: render false (stepsOf macroArray) :=
    fun found => marker (marked_of_found steps false found)
  rw [newMacro_eq wellFormed, erase_render steps quote, replace_of_absent unmarked]

/-- An argument says what it should, when nothing was replaced in it. -/
theorem meaning_argument (json : KeymapJson)
    (wellFormed : ∀ fragment ∈ macroArray, fragment.WellFormed)
    (short : (render false (stepsOf macroArray)).length ≤ (render false expected).length) :
    meaning (replace includesMarker json.includes (newMacro macroArray)) = some expected ↔
      stepsOf macroArray = expected ∧ Clean expected := by
  have steps := stepsOf_wellFormed wellFormed
  constructor
  · intro means
    rw [newMacro_eq wellFormed] at means
    unfold meaning at means
    split_ifs at means with empty
    have length := length_of_scan means
    simp only [Reading.inside, Reading.begun, Nat.zero_add] at length
    have erased : (erase (render false (stepsOf macroArray))).length ≤
        (render false (stepsOf macroArray)).length :=
      length_replace_nil_le (List.cons_ne_nil _ _) _
    have unmarked : ¬includesMarker <:+: erase (render false (stepsOf macroArray)) := by
      intro found
      rcases includes_cases json with none | text
      · rw [none] at length
        have shorter := length_replace_nil_lt marker_ne_nil found
        omega
      · have replaced := text.trans (infix_replace marker_ne_nil found)
        rw [scan_include replaced] at means
        exact absurd means (Option.some_ne_none _).symm
    rw [replace_of_absent unmarked] at means length empty
    have quote : ¬QuoteEnds (stepsOf macroArray) := quoteEnds_of_length steps (by omega)
    rw [erase_render steps quote] at means unmarked empty
    have same : stepsOf macroArray = expected :=
      Option.some.inj ((scan_render steps false).symm.trans means)
    refine ⟨same, ?_, same ▸ quote, fun marked => unmarked (infix_of_marked (same ▸ marked))⟩
    rintro rfl
    rw [same] at empty
    exact empty rfl
  · rintro ⟨rfl, clean⟩
    rw [argument_eq json.includes wellFormed clean.quote clean.marker, meaning, if_neg]
    · exact scan_render steps false
    · rw [List.isEmpty_iff]
      exact render_ne_nil steps clean.something

end Arguments

end QmkSonix.Convert
