import QmkSonix.Convert.Macros

/-! The keycodes of a `keymap.json`, the pieces of C that they are written as, and what
`_get_layers` collects of them. -/

namespace QmkSonix.Convert

/-! ### Keycodes -/

/-- A name, a number, or a call with what stands between its parentheses -/
inductive Expression where
  | name (text : List Char)
  | decimal (n : ℕ)
  | hex (digits : List Char)
  | call (callee : List Char) (arguments : List Piece)

/-- A keycode, in `ANY()` or not -/
structure Keycode where
  expression : Expression
  wrapped : Bool := false

def Expression.pieces : Expression → List Piece
  | .name text => [.word text]
  | .decimal n => [.decimal n]
  | .hex digits => [.hex digits]
  | .call callee arguments =>
    .word callee :: .punctuation '(' :: (arguments ++ [.punctuation ')'])

def Expression.text (expression : Expression) : List Char := source expression.pieces

def Keycode.text (keycode : Keycode) : List Char :=
  if keycode.wrapped then "ANY(".toList ++ keycode.expression.text ++ [')']
  else keycode.expression.text

/-- Not a name or a call -/
def Expression.Number : Expression → Prop
  | .decimal _ | .hex _ => True
  | .name _ | .call _ _ => False

section WellFormed

variable (wordType : List Char → WordType)

/-- A word that the lexer takes as a name, and that stands for itself -/
structure IsName (text : List Char) : Prop where
  valid : (Piece.word text).Valid
  type : wordType text = .name
  itself : text ≠ "_______".toList ∧ text ≠ "XXXXXXX".toList

/-- Braces close what is open. -/
def Balanced : ℕ → List Piece → Prop
  | depth, [] => depth = 0
  | depth, .punctuation c :: rest =>
    if c ∈ openingBraces then Balanced (depth + 1) rest
    else if c ∈ closingBraces then 0 < depth ∧ Balanced (depth - 1) rest
    else Balanced depth rest
  | depth, _ :: rest => Balanced depth rest

/-- What stands in a call: names, and no directives -/
def Piece.InCall : Piece → Prop
  | .word text => IsName wordType text
  | .directive _ => False
  | _ => True

def Expression.WellFormed : Expression → Prop
  | .name text => IsName wordType text
  | .decimal _ => True
  | .hex digits => digits ≠ [] ∧ ∀ c ∈ digits, c.isHexDigit = true
  | .call callee arguments => IsName wordType callee ∧ Balanced 0 arguments ∧
      (∀ piece ∈ arguments, piece.InCall wordType) ∧ Separated (arguments ++ [.punctuation ')'])

/-- A call of `ANY` is a wrapper. -/
structure Keycode.WellFormed (keycode : Keycode) : Prop where
  expression : keycode.expression.WellFormed wordType
  named : ∀ arguments, keycode.expression = .call "ANY".toList arguments → keycode.wrapped = true

end WellFormed

/-! ### Pieces side by side -/

section Pieces

theorem text_ne_nil {piece : Piece} (valid : piece.Valid) : piece.text ≠ [] := by
  cases piece with
  | word text =>
    obtain ⟨⟨c, rest, rfl, -⟩, -⟩ := valid
    exact List.cons_ne_nil c rest
  | decimal n => exact Nat.toDigits_ne_nil
  | hex digits => exact List.cons_ne_nil _ _
  | blank text => exact valid.1
  | punctuation c => exact List.cons_ne_nil _ _
  | operator c => exact List.cons_ne_nil _ _
  | string body => exact List.cons_ne_nil _ _
  | comment body => exact List.cons_ne_nil _ _
  | directive text => exact List.cons_ne_nil _ _

theorem source_append (first second : List Piece) :
    source (first ++ second) = source first ++ source second := List.flatMap_append

theorem source_cons (piece : Piece) (rest : List Piece) :
    source (piece :: rest) = piece.text ++ source rest := List.flatMap_cons

/-- Pieces up to a common one, and from there on. -/
theorem separated_join {first second : List Piece} {piece : Piece}
    (before : Separated (first ++ [piece])) (behind : Separated (piece :: second)) :
    Separated (first ++ piece :: second) := by
  induction first with
  | nil => exact behind
  | cons other rest ih =>
    obtain ⟨valid, ends, separated⟩ := before
    refine ⟨valid, ?_, ih separated⟩
    have starts : (source (rest ++ piece :: second)).head? = (source (rest ++ [piece])).head? := by
      rw [source_append, source_append, source_cons, source_cons, ← List.append_assoc,
        ← List.append_assoc, List.head?_append_of_ne_nil (source rest ++ piece.text),
        List.head?_append_of_ne_nil (source rest ++ piece.text)]
      · exact List.append_ne_nil_of_right_ne_nil _ (text_ne_nil behind.1)
      · exact List.append_ne_nil_of_right_ne_nil _ (text_ne_nil behind.1)
    exact starts ▸ ends

theorem separated_punctuation {c : Char} (listed : c ∈ punctuationChars) {rest : List Piece}
    (separated : Separated rest) : Separated (.punctuation c :: rest) :=
  ⟨listed, trivial, separated⟩

/-- A keycode ends before a comma and before a parenthesis. -/
theorem separated_expression {wordType : List Char → WordType} {expression : Expression}
    (wellFormed : expression.WellFormed wordType) {c : Char} (stop : c = ',' ∨ c = ')') :
    Separated (expression.pieces ++ [.punctuation c]) := by
  have listed : c ∈ punctuationChars := by rcases stop with rfl | rfl <;> decide
  have last : Separated [.punctuation c] := separated_punctuation listed trivial
  have plain : isIdentRest c = false ∧ c ≠ '"' ∧ c ≠ '.' := by
    rcases stop with rfl | rfl <;> decide
  cases expression with
  | name text =>
    exact ⟨wellFormed.valid, by simp [Piece.EndsBefore, source, Piece.text, plain], last⟩
  | decimal n => exact ⟨trivial, by simp [Piece.EndsBefore, source, Piece.text, plain], last⟩
  | hex digits => exact ⟨wellFormed.2, by simp [Piece.EndsBefore, source, Piece.text, plain], last⟩
  | call callee arguments =>
    obtain ⟨named, -, -, separated⟩ := wellFormed
    have closed : Separated (.punctuation ')' :: [.punctuation c]) :=
      separated_punctuation (by decide) last
    have opened : Separated (.punctuation '(' ::
        (arguments ++ .punctuation ')' :: [.punctuation c])) :=
      separated_punctuation (by decide) (separated_join separated closed)
    have split : Expression.pieces (.call callee arguments) ++ [.punctuation c] =
        .word callee :: .punctuation '(' ::
          (arguments ++ .punctuation ')' :: [.punctuation c]) := by
      simp [Expression.pieces]
    rw [split]
    refine ⟨named.valid, ?_, opened⟩
    rw [source_cons]
    simp [Piece.EndsBefore, Piece.text]
    decide

end Pieces

/-! ### `ANY()` -/

section Any

variable {wordType : List Char → WordType}

theorem not_any_prefix {expression : Expression} (wellFormed : expression.WellFormed wordType)
    (other : ∀ arguments, expression ≠ .call "ANY".toList arguments) :
    ¬"ANY(".toList <+: expression.text := by
  have noParenthesis {text : List Char} (word : (Piece.word text).Valid) : '(' ∉ text :=
    fun member => absurd (word.2 _ member) (by decide)
  cases expression with
  | name text =>
    intro found
    refine noParenthesis wellFormed.valid ?_
    have member : '(' ∈ source [.word text] := found.subset (by simp)
    simpa [source, Piece.text] using member
  | decimal n =>
    intro found
    obtain ⟨c, rest, digits, first, -⟩ := toDigits_cons n
    have text : Expression.text (.decimal n) = c :: rest := by
      simp [Expression.text, Expression.pieces, source, Piece.text, digits]
    rw [text] at found
    obtain rfl : 'A' = c := by
      simpa using (List.cons_prefix_cons.mp (by simpa using found)).1
    exact absurd first (by decide)
  | hex digits =>
    simp [Expression.text, Expression.pieces, source, Piece.text]
  | call callee arguments =>
    have inName := noParenthesis wellFormed.1.valid
    have differs : callee ≠ "ANY".toList := fun same => other arguments (same ▸ rfl)
    intro found
    have text : Expression.text (.call callee arguments) =
        callee ++ '(' :: (source arguments ++ [')']) := by
      simp [Expression.text, Expression.pieces, source, Piece.text]
    rw [text] at found
    rcases callee with _ | ⟨c, _ | ⟨d, _ | ⟨e, _ | ⟨f, rest⟩⟩⟩⟩
    · simp at found
    · simp at found
    · simp at found
    · simp at found
      obtain ⟨rfl, rfl, rfl⟩ := found
      simp at differs
    · simp at found
      obtain ⟨-, -, -, rfl⟩ := found
      simp at inName

theorem stripAny_text {keycode : Keycode} (wellFormed : keycode.WellFormed wordType) :
    stripAny keycode.text = keycode.expression.text := by
  unfold Keycode.text
  split_ifs with wrapped
  · have found : "ANY(".toList <+: "ANY(".toList ++ keycode.expression.text ++ [')'] := by
      simp
    rw [stripAny, if_pos ⟨found, List.suffix_append _ _⟩]
    simp
  · rw [stripAny, if_neg]
    rintro ⟨found, -⟩
    exact not_any_prefix wellFormed.expression
      (fun arguments called => wrapped (wellFormed.named arguments called)) found

end Any

/-! ### Reading -/

section Reading

variable {wordType : List Char → WordType} {s : Scan}

/-- `_get_layers` over pieces -/
def Scan.read (wordType : List Char → WordType) (pieces : List Piece) (s : Scan) : Option Scan :=
  Scan.run (pieces.map (Piece.token wordType)) s

theorem read_nil : Scan.read wordType [] s = some s := rfl

theorem read_cons (piece : Piece) (rest : List Piece) : Scan.read wordType (piece :: rest) s =
    (s.step (piece.token wordType)).bind (Scan.read wordType rest) := rfl

theorem read_append (first second : List Piece) : Scan.read wordType (first ++ second) s =
    (Scan.read wordType first s).bind (Scan.read wordType second) := by
  induction first generalizing s with
  | nil => rfl
  | cons piece rest ih =>
    rw [List.cons_append, read_cons, read_cons, Option.bind_assoc]
    exact congrArg _ (funext fun _ => ih)

/-- Inside a layer, in a call or not, with these keycodes -/
def Scan.within (s : Scan) (depth : ℤ) (called : Bool) (keycodes : List (List Char)) : Scan :=
  { s with
    braceDepth := depth, isAdvKc := called
    layer := { s.layer with keycodes := keycodes } }

/-- The layer is named, and has a layout. -/
structure Scan.InLayer (s : Scan) : Prop where
  isKeymap : s.isKeymap = true
  isLayer : s.isLayer = true
  name : s.layer.name.isNone = false
  layout : s.layer.layout.isNone = false

theorem extend_within (depth : ℤ) (called : Bool) (front : List (List Char))
    (last text : List Char) : (s.within depth called (front ++ [last])).extend text =
      some (s.within depth called (front ++ [last ++ text])) := by
  simp [Scan.extend, Scan.within]

theorem kc_of_isName {text : List Char} (named : IsName wordType text) : Scan.kc text = text := by
  rw [Scan.kc, if_neg named.itself.1, if_neg named.itself.2]

theorem singleton_infix_iff (c : Char) (text : List Char) : [c] <:+: text ↔ c ∈ text := by
  constructor
  · exact fun found => found.subset List.mem_cons_self
  · intro member
    obtain ⟨before, behind, rfl⟩ := List.append_of_mem member
    exact ⟨before, behind, by simp⟩

/-- In a call everything is collected. -/
theorem step_inCall (inside : s.InLayer) {piece : Piece} (allowed : piece.InCall wordType)
    (plain : ∀ c, piece = .punctuation c → c ∉ openingBraces ∧ c ∉ closingBraces) (depth : ℤ)
    (front : List (List Char)) (last : List Char) :
    (s.within depth true (front ++ [last])).step (piece.token wordType) =
      some (s.within depth true (front ++ [last ++ piece.text])) := by
  have extended := extend_within depth true front last piece.text (s := s)
  obtain ⟨isKeymap, isLayer, name, layout⟩ := inside
  cases piece with
  | word text =>
    have kept := kc_of_isName allowed
    simp only [Piece.text] at extended ⊢
    simp only [Piece.token, Piece.type, allowed.type, WordType.tokenType, Scan.step, Piece.text]
    rw [Scan.name, kept]
    simp only [Scan.within, isKeymap, isLayer] at extended ⊢
    simp [name, layout, extended]
  | decimal n => simpa [Piece.token, Piece.type, Scan.step, Scan.within] using extended
  | hex digits => simpa [Piece.token, Piece.type, Scan.step, Scan.within] using extended
  | blank text => simpa [Piece.token, Piece.type, Scan.step, Scan.within] using extended
  | operator c => simpa [Piece.token, Piece.type, Scan.step, Scan.within] using extended
  | string body => simpa [Piece.token, Piece.type, Scan.step, Scan.within] using extended
  | comment body => simpa [Piece.token, Piece.type, Scan.step, Scan.within] using extended
  | directive text => exact allowed.elim
  | punctuation c =>
    have other := plain c rfl
    simpa [Piece.token, Piece.type, Scan.step, Scan.within, Piece.text, singleton_infix_iff, other]
      using extended

theorem step_opening (inside : s.InLayer) {c : Char} (opening : c ∈ openingBraces) (depth : ℤ)
    (called : Bool) (front : List (List Char)) (last : List Char) :
    (s.within depth called (front ++ [last])).step (Piece.token wordType (.punctuation c)) =
      some (s.within (depth + 1) true (front ++ [last ++ [c]])) := by
  have extended := extend_within (depth + 1) true front last [c] (s := s)
  obtain ⟨isKeymap, isLayer, -, -⟩ := inside
  simp only [Scan.within, isKeymap, isLayer] at extended
  simp [Piece.token, Piece.type, Scan.step, Piece.text, singleton_infix_iff, opening, Scan.opens,
    Scan.within, isKeymap, isLayer, extended]

theorem step_closing (inside : s.InLayer) {c : Char} (closing : c ∈ closingBraces) (depth : ℤ)
    (front : List (List Char)) (last : List Char) :
    (s.within depth true (front ++ [last])).step (Piece.token wordType (.punctuation c)) =
      some (s.within (depth - 1) (decide (depth ≠ 3)) (front ++ [last ++ [c]])) := by
  have extended := extend_within (depth - 1) true front last [c] (s := s)
  have notOpening : c ∉ openingBraces := by
    revert closing
    simp only [closingBraces, openingBraces, List.mem_cons, List.not_mem_nil, or_false]
    rintro (rfl | rfl | rfl) <;> decide
  obtain ⟨isKeymap, isLayer, -, -⟩ := inside
  simp only [Scan.within, isKeymap, isLayer] at extended
  simp [Piece.token, Piece.type, Scan.step, Piece.text, singleton_infix_iff, closing, notOpening,
    Scan.closes, Scan.within, isKeymap, isLayer, extended]
  split_ifs with innermost
  · have three : depth = 3 := by omega
    simp [three]
  · have other : depth ≠ 3 := by omega
    simp [other]

theorem balanced_plain {piece : Piece} {rest : List Piece} {depth : ℕ}
    (plain : ∀ c, piece = .punctuation c → c ∉ openingBraces ∧ c ∉ closingBraces)
    (balanced : Balanced depth (piece :: rest)) : Balanced depth rest := by
  cases piece with
  | punctuation c =>
    rw [Balanced, if_neg (plain c rfl).1, if_neg (plain c rfl).2] at balanced
    exact balanced
  | word text => exact balanced
  | decimal n => exact balanced
  | hex digits => exact balanced
  | blank text => exact balanced
  | operator c => exact balanced
  | string body => exact balanced
  | comment body => exact balanced
  | directive text => exact balanced

/-- The arguments of a call are collected, up to its parenthesis. -/
theorem read_arguments (inside : s.InLayer) {pieces : List Piece}
    (allowed : ∀ piece ∈ pieces, piece.InCall wordType) (depth : ℕ)
    (balanced : Balanced depth pieces) (front : List (List Char)) (last : List Char) :
    Scan.read wordType pieces (s.within (3 + depth) true (front ++ [last])) =
      some (s.within 3 true (front ++ [last ++ source pieces])) := by
  induction pieces generalizing depth last with
  | nil =>
    obtain rfl : depth = 0 := balanced
    simp [read_nil, source]
  | cons piece rest ih =>
    have later := ih fun other member => allowed other (List.mem_cons_of_mem piece member)
    have text : last ++ source (piece :: rest) = (last ++ piece.text) ++ source rest := by
      rw [source_cons, List.append_assoc]
    rw [read_cons, text]
    by_cases brace : ∃ c, piece = .punctuation c ∧ (c ∈ openingBraces ∨ c ∈ closingBraces)
    · obtain ⟨c, rfl, kind⟩ := brace
      by_cases opening : c ∈ openingBraces
      · rw [Balanced, if_pos opening] at balanced
        have deeper : (3 + depth : ℤ) + 1 = 3 + (depth + 1 : ℕ) := by omega
        rw [step_opening inside opening, deeper]
        exact later (depth + 1) balanced _
      · have closing := kind.resolve_left opening
        rw [Balanced, if_neg opening, if_pos closing] at balanced
        have higher : (3 + depth : ℤ) - 1 = 3 + (depth - 1 : ℕ) := by omega
        have still : decide ((3 + depth : ℤ) ≠ 3) = true := decide_eq_true (by omega)
        rw [step_closing inside closing, still, higher]
        exact later (depth - 1) balanced.2 _
    · have plain (c : Char) (punctuation : piece = .punctuation c) :
          c ∉ openingBraces ∧ c ∉ closingBraces :=
        ⟨fun opening => brace ⟨c, punctuation, .inl opening⟩,
          fun closing => brace ⟨c, punctuation, .inr closing⟩⟩
      rw [step_inCall inside (allowed piece List.mem_cons_self) plain]
      exact later depth (balanced_plain plain balanced) _

/-- What is collected of a keycode: numbers are passed by. -/
def Expression.collected : Expression → List (List Char)
  | .decimal _ | .hex _ => []
  | expression => [expression.text]

theorem read_name (inside : s.InLayer) {text : List Char} (named : IsName wordType text)
    (keycodes : List (List Char)) :
    Scan.read wordType [.word text] (s.within 2 false keycodes) =
      some (s.within 2 false (keycodes ++ [text])) := by
  have kept := kc_of_isName named
  obtain ⟨isKeymap, isLayer, name, layout⟩ := inside
  rw [read_cons]
  simp only [Piece.token, Piece.type, named.type, WordType.tokenType, Scan.step, Piece.text]
  rw [Scan.name, kept]
  simp [Scan.within, isKeymap, isLayer, name, layout, read_nil]

/-- A keycode of a layer -/
theorem read_expression (inside : s.InLayer) {expression : Expression}
    (wellFormed : expression.WellFormed wordType) (keycodes : List (List Char)) :
    Scan.read wordType expression.pieces (s.within 2 false keycodes) =
      some (s.within 2 false (keycodes ++ expression.collected)) := by
  cases expression with
  | name text =>
    have collected : Expression.collected (.name text) = [text] := by
      simp [Expression.collected, Expression.text, Expression.pieces, source, Piece.text]
    rw [collected]
    exact read_name inside wellFormed keycodes
  | decimal n =>
    obtain ⟨isKeymap, isLayer, name, layout⟩ := inside
    simp [Expression.pieces, read_cons, read_nil, Piece.token, Piece.type, Scan.step, Scan.within,
      isKeymap, name, Expression.collected]
  | hex digits =>
    simp [Expression.pieces, read_cons, read_nil, Piece.token, Piece.type, Scan.step, Scan.within,
      Expression.collected]
  | call callee arguments =>
    obtain ⟨named, balanced, allowed, -⟩ := wellFormed
    have shape : Expression.pieces (.call callee arguments) =
        [.word callee] ++ ([.punctuation '('] ++ (arguments ++ [.punctuation ')'])) := rfl
    have collected : Expression.collected (.call callee arguments) =
        [callee ++ ['('] ++ source arguments ++ [')']] := by
      simp [Expression.collected, Expression.text, Expression.pieces, source, Piece.text]
    have inner := read_arguments inside allowed 0 balanced keycodes (callee ++ ['('])
    have three : (2 : ℤ) + 1 = 3 + (0 : ℕ) := rfl
    rw [shape, read_append, read_name inside named, Option.bind_some, read_append, read_cons,
      step_opening inside (by decide), Option.bind_some, read_nil, Option.bind_some, read_append,
      three, inner, Option.bind_some, read_cons, step_closing inside (by decide), collected]
    rfl

end Reading

end QmkSonix.Convert
