import QmkSonix.Convert.Keycodes
import QmkSonix.Convert.MacroCode

/-! The layers that `generate_c` writes, read again by `_get_layers`. -/

namespace QmkSonix.Convert

open QmkSonix.Lib

/-! ### Layers -/

section Layers

variable {wordType : List Char → WordType} {s : Scan}

/-- Keycodes behind commas -/
def keycodePieces : List Keycode → List Piece
  | [] => []
  | [keycode] => keycode.expression.pieces
  | keycode :: next :: rest =>
    keycode.expression.pieces ++ .punctuation ',' :: .blank [' '] :: keycodePieces (next :: rest)

/-- A layer behind its line break -/
def layerPieces (layout : List Char) (layerNum : ℕ) (layer : List Keycode) : List Piece :=
  [.blank ['\n', '\t'], .punctuation '[', .decimal layerNum, .punctuation ']', .blank [' '],
    .operator '=', .blank [' '], .word layout, .punctuation '('] ++
    (keycodePieces layer ++ [.punctuation ')'])

/-- Layers, from one on -/
def layersPieces (layout : List Char) : ℕ → List (List Keycode) → List Piece
  | _, [] => []
  | layerNum, [layer] => layerPieces layout layerNum layer
  | layerNum, layer :: next :: rest =>
    layerPieces layout layerNum layer ++
      .punctuation ',' :: layersPieces layout (layerNum + 1) (next :: rest)

theorem source_keycodePieces (layer : List Keycode) : source (keycodePieces layer) =
    (", ".toList).intercalate (layer.map fun keycode => keycode.expression.text) := by
  induction layer with
  | nil => rfl
  | cons keycode rest ih =>
    cases rest with
    | nil => simp [keycodePieces, Expression.text]
    | cons next rest =>
      rw [keycodePieces, source_append, source_cons, source_cons, ih]
      simp [Piece.text, Expression.text]

theorem source_layerPieces {layer : List Keycode} (wellFormed : ∀ keycode ∈ layer,
    keycode.WellFormed wordType) (layout : List Char) (layerNum : ℕ) :
    source (layerPieces layout layerNum layer) =
      '\n' :: layerText layout layerNum (layer.map Keycode.text) := by
  have stripped : (layer.map Keycode.text).map stripAny =
      layer.map fun keycode => keycode.expression.text := by
    rw [List.map_map]
    exact List.map_congr_left fun keycode member => stripAny_text (wellFormed keycode member)
  rw [layerText, stripped, layerPieces, source_append, source_append, source_keycodePieces]
  simp [source, Piece.text]

/-- The layers are written with a line break before each. -/
theorem source_layersPieces {layers : List (List Keycode)} (wellFormed : ∀ layer ∈ layers,
    ∀ keycode ∈ layer, keycode.WellFormed wordType) (some : layers ≠ []) (layout : List Char)
    (layerNum : ℕ) : source (layersPieces layout layerNum layers) =
      '\n' :: ['\n'].intercalate (layerTxt layout layerNum (layers.map (·.map Keycode.text))) := by
  induction layers generalizing layerNum with
  | nil => exact absurd rfl some
  | cons layer rest ih =>
    have first := source_layerPieces (wellFormed layer List.mem_cons_self) layout layerNum
    cases rest with
    | nil =>
      rw [layersPieces, first]
      simp [layerTxt]
    | cons next rest =>
      have later := ih (fun other member => wellFormed other (List.mem_cons_of_mem layer member))
        (List.cons_ne_nil next rest) (layerNum + 1)
      rw [layersPieces, source_append, source_cons, first, later]
      simp [layerTxt, Piece.text]

theorem isBlank_of_isIdentRest {c : Char} (inWord : isIdentRest c = true) : isBlank c = false := by
  rw [Bool.eq_false_iff]
  simp only [isBlank, ne_eq, Bool.or_eq_true, beq_iff_eq]
  rintro ((rfl | rfl) | rfl) <;> exact absurd inWord (by decide)

/-- A keycode does not start with a blank. -/
theorem text_eq_cons {expression : Expression} (wellFormed : expression.WellFormed wordType) :
    ∃ c rest, expression.text = c :: rest ∧ isBlank c = false := by
  have word {text : List Char} (valid : (Piece.word text).Valid) :
      ∃ c rest, text = c :: rest ∧ isBlank c = false := by
    obtain ⟨⟨c, rest, rfl, -⟩, inWord⟩ := valid
    exact ⟨c, rest, rfl, isBlank_of_isIdentRest (inWord c List.mem_cons_self)⟩
  cases expression with
  | name text =>
    obtain ⟨c, rest, rfl, notBlank⟩ := word wellFormed.valid
    exact ⟨c, rest, by simp [Expression.text, Expression.pieces, source, Piece.text], notBlank⟩
  | decimal n =>
    obtain ⟨c, rest, digits, first, -⟩ := toDigits_cons n
    exact ⟨c, rest, by simp [Expression.text, Expression.pieces, source, Piece.text, digits],
      isBlank_of_isIdentRest (isIdentRest_of_isDigit first)⟩
  | hex digits =>
    exact ⟨'0', 'x' :: digits, by simp [Expression.text, Expression.pieces, source, Piece.text],
      rfl⟩
  | call callee arguments =>
    obtain ⟨c, rest, rfl, notBlank⟩ := word wellFormed.1.valid
    exact ⟨c, _, by simp [Expression.text, Expression.pieces, source, Piece.text]; rfl, notBlank⟩

theorem separated_keycodePieces {layer : List Keycode} (wellFormed : ∀ keycode ∈ layer,
    keycode.WellFormed wordType) : Separated (keycodePieces layer ++ [.punctuation ')']) := by
  induction layer with
  | nil => exact separated_punctuation (by decide) trivial
  | cons keycode rest ih =>
    have first (c : Char) (stop : c = ',' ∨ c = ')') :=
      separated_expression (wellFormed keycode List.mem_cons_self).expression stop
    cases rest with
    | nil => exact first ')' (.inr rfl)
    | cons next rest =>
      have later := ih fun other member => wellFormed other (List.mem_cons_of_mem keycode member)
      rw [keycodePieces, List.append_assoc]
      refine separated_join (first ',' (.inl rfl))
        (separated_punctuation (by decide) ⟨by simp [Piece.Valid, isBlank], ?_, later⟩)
      obtain ⟨c, text, starts, notBlank⟩ := text_eq_cons
        (wellFormed next (List.mem_cons_of_mem keycode List.mem_cons_self)).expression
      have front : ∃ behind, source (keycodePieces (next :: rest) ++ [.punctuation ')']) =
          next.expression.text ++ behind := by
        cases rest with
        | nil => exact ⟨_, source_append _ _⟩
        | cons other rest => exact ⟨_, by rw [keycodePieces, List.append_assoc, source_append]; rfl⟩
      obtain ⟨behind, split⟩ := front
      change Piece.EndsBefore (source (keycodePieces (next :: rest) ++ [.punctuation ')'])).head? _
      rw [split, starts]
      intro d isHead
      obtain rfl : c = d := by simpa using isHead
      exact notBlank

theorem separated_layerPieces {layer : List Keycode} (wellFormed : ∀ keycode ∈ layer,
    keycode.WellFormed wordType) {layout : List Char} (named : (Piece.word layout).Valid)
    (layerNum : ℕ) {rest : List Piece} (behind : Separated rest) :
    Separated (layerPieces layout layerNum layer ++ rest) := by
  have keycodes : Separated (keycodePieces layer ++ .punctuation ')' :: rest) :=
    separated_join (separated_keycodePieces wellFormed) (separated_punctuation (by decide) behind)
  have opened : Separated (.word layout :: .punctuation '(' ::
      (keycodePieces layer ++ .punctuation ')' :: rest)) := by
    refine ⟨named, ?_, separated_punctuation (by decide) keycodes⟩
    simp [source_cons, Piece.EndsBefore, Piece.text]
    decide
  obtain ⟨⟨c, letters, rfl, -⟩, inWord⟩ := named
  have notBlank := isBlank_of_isIdentRest (inWord c List.mem_cons_self)
  have split : layerPieces (c :: letters) layerNum layer ++ rest =
      .blank ['\n', '\t'] :: .punctuation '[' :: .decimal layerNum :: .punctuation ']' ::
        .blank [' '] :: .operator '=' :: .blank [' '] :: .word (c :: letters) :: .punctuation '(' ::
          (keycodePieces layer ++ .punctuation ')' :: rest) := by
    simp [layerPieces]
  rw [split]
  refine ⟨by simp [Piece.Valid, isBlank], ?_, separated_punctuation (by decide) ⟨trivial, ?_,
    separated_punctuation (by decide) ⟨by simp [Piece.Valid, isBlank], ?_,
      by simp [Piece.Valid, operatorChars], ?_, by simp [Piece.Valid, isBlank], ?_, opened⟩⟩⟩
  · simp [source_cons, Piece.EndsBefore, Piece.text]
    decide
  · simp [source_cons, Piece.EndsBefore, Piece.text]
    decide
  · simp [source_cons, Piece.EndsBefore, Piece.text]
    decide
  · simp [Piece.EndsBefore]
  · simp [source_cons, Piece.EndsBefore, Piece.text, notBlank]

theorem separated_layersPieces {layers : List (List Keycode)} (wellFormed : ∀ layer ∈ layers,
    ∀ keycode ∈ layer, keycode.WellFormed wordType) {layout : List Char}
    (named : (Piece.word layout).Valid) (layerNum : ℕ) {rest : List Piece}
    (behind : Separated rest) : Separated (layersPieces layout layerNum layers ++ rest) := by
  induction layers generalizing layerNum with
  | nil => exact behind
  | cons layer others ih =>
    have later := ih fun other member => wellFormed other (List.mem_cons_of_mem layer member)
    have first {rest : List Piece} (behind : Separated rest) :=
      separated_layerPieces (wellFormed layer List.mem_cons_self) named layerNum behind
    cases others with
    | nil => exact first behind
    | cons next others =>
      rw [layersPieces, List.append_assoc]
      exact first (separated_punctuation (by decide) (later (layerNum + 1)))

/-! Reading them -/

/-- What is collected of a layer -/
def layerRead (layout : List Char) (layerNum : ℕ) (layer : List Keycode) : Layer :=
  { name := some (Nat.toDigits 10 layerNum)
    layout := some layout
    keycodes := layer.flatMap fun keycode => keycode.expression.collected }

def layersRead (layout : List Char) : ℕ → List (List Keycode) → List Layer
  | _, [] => []
  | layerNum, layer :: rest =>
    layerRead layout layerNum layer :: layersRead layout (layerNum + 1) rest

/-- The keymaps array, with so many layers -/
def arrayScan (layers : List Layer) : Scan :=
  { keymapCertainty := 6, braceDepth := 1, isKeymap := true, layers := layers }

theorem read_keycodePieces (inside : s.InLayer) {layer : List Keycode}
    (wellFormed : ∀ keycode ∈ layer, keycode.WellFormed wordType) (keycodes : List (List Char)) :
    Scan.read wordType (keycodePieces layer) (s.within 2 false keycodes) =
      some (s.within 2 false
        (keycodes ++ layer.flatMap fun keycode => keycode.expression.collected)) := by
  induction layer generalizing keycodes with
  | nil => simp [keycodePieces, read_nil]
  | cons keycode rest ih =>
    have first := read_expression inside (wellFormed keycode List.mem_cons_self).expression keycodes
    cases rest with
    | nil => simp [keycodePieces, first]
    | cons next rest =>
      have later := ih fun other member => wellFormed other (List.mem_cons_of_mem keycode member)
      have comma (keycodes : List (List Char)) : (s.within 2 false keycodes).step
          (Piece.token wordType (.punctuation ',')) = some (s.within 2 false keycodes) := by
        simp [Piece.token, Piece.type, Piece.text, Scan.step, singleton_infix_iff, openingBraces,
          closingBraces, Scan.within]
      have blank (keycodes : List (List Char)) : (s.within 2 false keycodes).step
          (Piece.token wordType (.blank [' '])) = some (s.within 2 false keycodes) := by
        simp [Piece.token, Piece.type, Piece.text, Scan.step, Scan.within]
      have split : (keycode :: next :: rest).flatMap (fun keycode => keycode.expression.collected) =
          keycode.expression.collected ++
            (next :: rest).flatMap fun keycode => keycode.expression.collected := rfl
      rw [keycodePieces, read_append, first, Option.bind_some, read_cons, comma, Option.bind_some,
        read_cons, blank, Option.bind_some, later, split, List.append_assoc]

/-- Behind the opening parenthesis of a layer -/
def layerScan (layers : List Layer) (layout : List Char) (layerNum : ℕ) : Scan :=
  { arrayScan layers with
    isLayer := true
    layer := { name := some (Nat.toDigits 10 layerNum), layout := some layout } }

theorem read_layerStart {layout : List Char} (named : wordType layout = .name) (layerNum : ℕ)
    (layers : List Layer) :
    Scan.read wordType [.blank ['\n', '\t'], .punctuation '[', .decimal layerNum,
      .punctuation ']', .blank [' '], .operator '=', .blank [' '], .word layout, .punctuation '(']
      (arrayScan layers) = some ((layerScan layers layout layerNum).within 2 false []) := by
  simp [read_cons, read_nil, Piece.token, Piece.type, Piece.text, Scan.step, singleton_infix_iff,
    openingBraces, closingBraces, Scan.opens, Scan.closes, Scan.name, arrayScan, named,
    WordType.tokenType, layerScan, Scan.within]

/-- A layer of the array -/
theorem read_layerPieces {layer : List Keycode} (wellFormed : ∀ keycode ∈ layer,
    keycode.WellFormed wordType) {layout : List Char} (named : wordType layout = .name)
    (layerNum : ℕ) (layers : List Layer) :
    Scan.read wordType (layerPieces layout layerNum layer) (arrayScan layers) =
      some (arrayScan (layers ++ [layerRead layout layerNum layer])) := by
  have inside : (layerScan layers layout layerNum).InLayer := ⟨rfl, rfl, rfl, rfl⟩
  rw [layerPieces, read_append, read_layerStart named, Option.bind_some, read_append,
    read_keycodePieces inside wellFormed, Option.bind_some]
  simp [read_cons, read_nil, Piece.token, Piece.type, Piece.text, Scan.step, singleton_infix_iff,
    openingBraces, closingBraces, Scan.closes, arrayScan, layerScan, Scan.within, layerRead]

/-- The layers of the array -/
theorem read_layersPieces {layers : List (List Keycode)} (wellFormed : ∀ layer ∈ layers,
    ∀ keycode ∈ layer, keycode.WellFormed wordType) {layout : List Char}
    (named : wordType layout = .name) (layerNum : ℕ) (before : List Layer) :
    Scan.read wordType (layersPieces layout layerNum layers) (arrayScan before) =
      some (arrayScan (before ++ layersRead layout layerNum layers)) := by
  induction layers generalizing layerNum before with
  | nil => simp [layersPieces, read_nil, layersRead]
  | cons layer rest ih =>
    have first := read_layerPieces (wellFormed layer List.mem_cons_self) named layerNum before
    cases rest with
    | nil => simp [layersPieces, first, layersRead]
    | cons next rest =>
      have later := ih fun other member => wellFormed other (List.mem_cons_of_mem layer member)
      have comma (layers : List Layer) : (arrayScan layers).step
          (Piece.token wordType (.punctuation ',')) = some (arrayScan layers) := by
        simp [Piece.token, Piece.type, Piece.text, Scan.step, singleton_infix_iff, openingBraces,
          closingBraces, arrayScan]
      rw [layersPieces, read_append, first, Option.bind_some, read_cons, comma, Option.bind_some,
        later, List.append_assoc, List.singleton_append]
      rfl

end Layers

end QmkSonix.Convert
