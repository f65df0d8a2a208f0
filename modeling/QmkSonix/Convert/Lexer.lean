import Mathlib

/-! What is assumed of the C lexer: it yields one token for each identifier, number,
punctuation character, operator, blank run, string, comment and directive, with
the token types that `_get_layers` tests for. -/

namespace QmkSonix.Convert

/-- The token types of the lexer that are told apart. -/
inductive TokenType where
  | name | keyword | keywordType | punctuation | integer | other
  deriving DecidableEq, Repr

structure Token where
  type : TokenType
  text : List Char
  deriving DecidableEq, Repr

/-- How the lexer takes a word. -/
inductive WordType where
  | name | keyword | keywordType | other
  deriving DecidableEq, Repr

def WordType.tokenType : WordType → TokenType
  | name => .name
  | keyword => .keyword
  | keywordType => .keywordType
  | other => .other

def isIdentStart (c : Char) : Bool := c.isAlpha || c == '_'

def isIdentRest (c : Char) : Bool := c.isAlphanum || c == '_'

def isBlank (c : Char) : Bool := c == ' ' || c == '\t' || c == '\n'

def punctuationChars : List Char := ['(', ')', '[', ']', '{', '}', ',', ';', '.']

def operatorChars : List Char :=
  ['~', '!', '%', '^', '&', '*', '+', '=', '|', '?', ':', '<', '>', '/', '-']

/-- What stands between the quotes of a string literal. -/
inductive StringBody : List Char → Prop
  | nil : StringBody []
  | plain {c : Char} {rest : List Char} (quote : c ≠ '"') (backslash : c ≠ '\\')
      (newline : c ≠ '\n') : StringBody rest → StringBody (c :: rest)
  | escape {c : Char} {rest : List Char} (newline : c ≠ '\n') :
      StringBody rest → StringBody ('\\' :: c :: rest)

/-- A piece of C source that is one token. -/
inductive Piece where
  | word (text : List Char)
  | decimal (n : ℕ)
  | hex (digits : List Char)
  | blank (text : List Char)
  | punctuation (c : Char)
  | operator (c : Char)
  | string (body : List Char)
  | comment (body : List Char)
  | directive (text : List Char)

namespace Piece

def text : Piece → List Char
  | word text => text
  | decimal n => Nat.toDigits 10 n
  | hex digits => '0' :: 'x' :: digits
  | blank text => text
  | punctuation c => [c]
  | operator c => [c]
  | string body => '"' :: (body ++ ['"'])
  | comment body => '/' :: '*' :: (body ++ ['*', '/'])
  | directive text => '#' :: text

def type (wordType : List Char → WordType) : Piece → TokenType
  | word text => (wordType text).tokenType
  | decimal _ => .integer
  | punctuation _ => .punctuation
  | _ => .other

def token (wordType : List Char → WordType) (piece : Piece) : Token :=
  { type := piece.type wordType, text := piece.text }

/-- The piece is written as one of its kind. -/
def Valid : Piece → Prop
  | word text => (∃ c rest, text = c :: rest ∧ isIdentStart c = true) ∧
      ∀ c ∈ text, isIdentRest c = true
  | decimal _ => True
  | hex digits => ∀ c ∈ digits, c.isHexDigit = true
  | blank text => text ≠ [] ∧ ∀ c ∈ text, isBlank c = true
  | punctuation c => c ∈ punctuationChars
  | operator c => c ∈ operatorChars
  | string body => StringBody body
  | comment body => ¬['*', '/'] <:+: body
  | directive text => '\n' ∉ text

/-- The piece ends before the character that follows it, if any. -/
def EndsBefore (next : Option Char) : Piece → Prop
  | word _ => ∀ c ∈ next, isIdentRest c = false ∧ c ≠ '"'
  | decimal _ => ∀ c ∈ next, isIdentRest c = false ∧ c ≠ '.'
  | hex _ => ∀ c ∈ next, isIdentRest c = false ∧ c ≠ '.'
  | blank _ => ∀ c ∈ next, isBlank c = false
  | operator c => c = '/' → ∀ d ∈ next, d ≠ '/' ∧ d ≠ '*'
  | directive _ => ∀ c ∈ next, c = '\n'
  | _ => True

end Piece

/-- The source that pieces make up. -/
def source (pieces : List Piece) : List Char := pieces.flatMap Piece.text

/-- Pieces that do not run into each other. -/
def Separated : List Piece → Prop
  | [] => True
  | piece :: rest => piece.Valid ∧ piece.EndsBefore (source rest).head? ∧ Separated rest

/-- A C lexer, and what is assumed of it. -/
structure Lexer where
  wordType : List Char → WordType
  lex : List Char → List Token
  lexes : ∀ pieces, Separated pieces → lex (source pieces) = pieces.map (Piece.token wordType)
  const : wordType "const".toList = .keyword
  uint16 : wordType "uint16_t".toList = .keywordType
  progmem : wordType "PROGMEM".toList = .name
  keymaps : wordType "keymaps".toList = .name
  matrixRows : wordType "MATRIX_ROWS".toList = .name
  matrixCols : wordType "MATRIX_COLS".toList = .name

/-! A lexer of this kind. -/

/-- The rest of a string literal, up to its closing quote. -/
def takeString : List Char → List Char × List Char
  | [] => ([], [])
  | c :: rest =>
    if c = '"' then ([c], rest)
    else if c = '\\' then
      match rest with
      | [] => ([c], [])
      | d :: rest =>
        let taken := takeString rest
        (c :: d :: taken.1, taken.2)
    else
      let taken := takeString rest
      (c :: taken.1, taken.2)

/-- The rest of a comment, up to its end. -/
def takeComment : List Char → List Char × List Char
  | [] => ([], [])
  | c :: rest =>
    if c = '*' ∧ rest.head? = some '/' then (['*', '/'], rest.tail)
    else
      let taken := takeComment rest
      (c :: taken.1, taken.2)

section Scanner

variable (wordType : List Char → WordType)

/-- The token that starts with a character, and what is behind it. -/
def nextToken (c : Char) (rest : List Char) : Token × List Char :=
  if isIdentStart c then
    let text := c :: rest.takeWhile isIdentRest
    ({ type := (wordType text).tokenType, text := text }, rest.dropWhile isIdentRest)
  else if c.isDigit then
    if c = '0' ∧ rest.head? = some 'x' then
      ({ type := .other, text := c :: 'x' :: rest.tail.takeWhile Char.isHexDigit },
        rest.tail.dropWhile Char.isHexDigit)
    else
      ({ type := .integer, text := c :: rest.takeWhile Char.isDigit }, rest.dropWhile Char.isDigit)
  else if isBlank c then
    ({ type := .other, text := c :: rest.takeWhile isBlank }, rest.dropWhile isBlank)
  else if c = '"' then
    let taken := takeString rest
    ({ type := .other, text := c :: taken.1 }, taken.2)
  else if c = '/' ∧ rest.head? = some '*' then
    let taken := takeComment rest.tail
    ({ type := .other, text := '/' :: '*' :: taken.1 }, taken.2)
  else if c = '#' then
    ({ type := .other, text := c :: rest.takeWhile (· ≠ '\n') }, rest.dropWhile (· ≠ '\n'))
  else if c ∈ punctuationChars then ({ type := .punctuation, text := [c] }, rest)
  else ({ type := .other, text := [c] }, rest)

/-- The tokens of a source, at most so many. -/
def scanTokens : ℕ → List Char → List Token
  | 0, _ => []
  | _ + 1, [] => []
  | fuel + 1, c :: rest =>
    let next := nextToken wordType c rest
    next.1 :: scanTokens fuel next.2

end Scanner

section Runs

variable {p : Char → Bool} {run rest : List Char}

theorem takeWhile_run (all : ∀ c ∈ run, p c = true) (ends : ∀ c ∈ rest.head?, p c = false) :
    (run ++ rest).takeWhile p = run := by
  rw [List.takeWhile_append_of_pos all]
  cases rest with
  | nil => simp
  | cons c rest => simp [List.takeWhile_cons, ends c rfl]

theorem dropWhile_run (all : ∀ c ∈ run, p c = true) (ends : ∀ c ∈ rest.head?, p c = false) :
    (run ++ rest).dropWhile p = rest := by
  rw [List.dropWhile_append_of_pos all]
  cases rest with
  | nil => simp
  | cons c rest => simp [List.dropWhile_cons, ends c rfl]

theorem takeString_body {body : List Char} (valid : StringBody body) :
    takeString (body ++ '"' :: rest) = (body ++ ['"'], rest) := by
  induction valid with
  | nil =>
    rw [List.nil_append, takeString.eq_def]
    simp
  | plain quote backslash newline _ ih =>
    rw [List.cons_append, takeString.eq_def]
    simp [quote, backslash, ih]
  | escape newline _ ih =>
    rw [List.cons_append, takeString.eq_def]
    simp [ih]

theorem takeComment_body {body : List Char} (valid : ¬['*', '/'] <:+: body) :
    takeComment (body ++ '*' :: '/' :: rest) = (body ++ ['*', '/'], rest) := by
  induction body with
  | nil => simp [takeComment]
  | cons c body ih =>
    have later : ¬['*', '/'] <:+: body := fun found =>
      valid (found.trans (List.suffix_cons c body).isInfix)
    have goesOn : ¬(c = '*' ∧ (body ++ '*' :: '/' :: rest).head? = some '/') := by
      rintro ⟨rfl, slash⟩
      cases body with
      | nil => simp at slash
      | cons d body =>
        obtain rfl : d = '/' := by simpa using slash
        exact valid ⟨[], body, rfl⟩
    rw [List.cons_append, takeComment, if_neg goesOn, ih later]
    rfl

theorem not_isIdentStart_of_isDigit {c : Char} (digit : c.isDigit = true) :
    isIdentStart c = false := by
  simp only [Char.isDigit, Bool.and_eq_true, decide_eq_true_eq, UInt32.le_iff_toNat_le,
    ge_iff_le] at digit
  simp only [isIdentStart, Char.isAlpha, Char.isUpper, Char.isLower, Bool.or_eq_false_iff,
    Bool.and_eq_false_iff, decide_eq_false_iff_not, UInt32.le_iff_toNat_le, ge_iff_le, beq_eq_false_iff_ne,
    ne_eq, Char.ext_iff, ← UInt32.toNat_inj]
  have bounds : '0'.val.toNat = 48 ∧ '9'.val.toNat = 57 ∧ 'A'.val.toNat = 65 ∧ 'a'.val.toNat = 97 ∧
    '_'.val.toNat = 95 := by decide
  omega

theorem isIdentRest_of_isHexDigit {c : Char} (digit : c.isHexDigit = true) :
    isIdentRest c = true := by
  simp only [Char.isHexDigit, Char.isDigit, Bool.or_eq_true, Bool.and_eq_true, decide_eq_true_eq,
    UInt32.le_iff_toNat_le, ge_iff_le] at digit
  simp only [isIdentRest, Char.isAlphanum, Char.isAlpha, Char.isUpper, Char.isLower, Char.isDigit,
    Bool.or_eq_true, Bool.and_eq_true, decide_eq_true_eq, UInt32.le_iff_toNat_le, ge_iff_le]
  have bounds : 'f'.val.toNat ≤ 'z'.val.toNat ∧ 'F'.val.toNat ≤ 'Z'.val.toNat := by decide
  omega

theorem isIdentRest_of_isDigit {c : Char} (digit : c.isDigit = true) : isIdentRest c = true := by
  simp [isIdentRest, Char.isAlphanum, digit]

theorem toDigits_cons (n : ℕ) : ∃ c rest, Nat.toDigits 10 n = c :: rest ∧
    c.isDigit = true ∧ (∀ d ∈ rest, d.isDigit = true) := by
  obtain ⟨c, rest, digits⟩ := List.exists_cons_of_ne_nil (Nat.toDigits_ne_nil (n := n) (b := 10))
  have all (d : Char) (member : d ∈ Nat.toDigits 10 n) : d.isDigit = true :=
    Nat.isDigit_of_mem_toDigits (by decide) (by decide) member
  rw [digits] at all
  exact ⟨c, rest, digits, all c List.mem_cons_self, fun d member =>
    all d (List.mem_cons_of_mem c member)⟩

end Runs

/-- The lexer takes a piece as its token, and goes on behind it. -/
theorem nextToken_piece (wordType : List Char → WordType) {piece : Piece} {rest : List Char}
    (valid : piece.Valid) (ends : piece.EndsBefore rest.head?) :
    ∃ c run, piece.text = c :: run ∧
      nextToken wordType c (run ++ rest) = (piece.token wordType, rest) := by
  cases piece with
  | word text =>
    obtain ⟨⟨c, run, rfl, start⟩, all⟩ := valid
    have inRun : ∀ d ∈ run, isIdentRest d = true := fun d member => all d (List.mem_cons_of_mem c member)
    have stops : ∀ d ∈ rest.head?, isIdentRest d = false := fun d next => (ends d next).1
    refine ⟨c, run, rfl, ?_⟩
    simp [nextToken, start, takeWhile_run inRun stops, dropWhile_run inRun stops, Piece.token,
      Piece.type, Piece.text]
  | decimal n =>
    obtain ⟨c, run, digits, first, all⟩ := toDigits_cons n
    have stops : ∀ d ∈ rest.head?, d.isDigit = false := by
      intro d next
      by_contra digit
      have goesOn := isIdentRest_of_isDigit (Bool.not_eq_false _ ▸ digit)
      rw [(ends d next).1] at goesOn
      contradiction
    have noHex : ¬(c = '0' ∧ (run ++ rest).head? = some 'x') := by
      rintro ⟨-, hex⟩
      cases run with
      | nil =>
        have goesOn : isIdentRest 'x' = false := (ends 'x' hex).1
        exact absurd goesOn (by decide)
      | cons d run =>
        obtain rfl : d = 'x' := by simpa using hex
        exact absurd (all 'x' List.mem_cons_self) (by decide)
    refine ⟨c, run, digits, ?_⟩
    simp only [nextToken, not_isIdentStart_of_isDigit first, first, noHex, takeWhile_run all stops,
      dropWhile_run all stops, ↓reduceIte, Bool.false_eq_true]
    simp [Piece.token, Piece.type, Piece.text, digits]
  | hex digits =>
    have stops : ∀ d ∈ rest.head?, d.isHexDigit = false := by
      intro d next
      by_contra digit
      have goesOn := isIdentRest_of_isHexDigit (Bool.not_eq_false _ ▸ digit)
      rw [(ends d next).1] at goesOn
      contradiction
    have zero : isIdentStart '0' = false ∧ '0'.isDigit = true := by decide
    refine ⟨'0', 'x' :: digits, rfl, ?_⟩
    simp [nextToken, zero, takeWhile_run valid stops, dropWhile_run valid stops, Piece.token,
      Piece.type, Piece.text]
  | blank text =>
    obtain ⟨nonempty, all⟩ := valid
    obtain ⟨c, run, rfl⟩ := List.exists_cons_of_ne_nil nonempty
    obtain ⟨first, inRun⟩ := List.forall_mem_cons.mp all
    have plain : isIdentStart c = false ∧ c.isDigit = false := by
      simp only [isBlank, Bool.or_eq_true, beq_iff_eq] at first
      rcases first with (rfl | rfl) | rfl <;> decide
    refine ⟨c, run, rfl, ?_⟩
    simp [nextToken, plain, first, takeWhile_run inRun ends, dropWhile_run inRun ends, Piece.token,
      Piece.type, Piece.text]
  | punctuation c =>
    refine ⟨c, [], rfl, ?_⟩
    have kinds : isIdentStart c = false ∧ c.isDigit = false ∧ isBlank c = false ∧ c ≠ '"' ∧
        c ≠ '/' ∧ c ≠ '#' := by
      have each : punctuationChars.all (fun c => decide (isIdentStart c = false ∧
          c.isDigit = false ∧ isBlank c = false ∧ c ≠ '"' ∧ c ≠ '/' ∧ c ≠ '#')) = true := by decide
      exact of_decide_eq_true (List.all_eq_true.mp each c valid)
    have listed : c ∈ punctuationChars := valid
    simp [nextToken, kinds, listed, Piece.token, Piece.type, Piece.text]
  | operator c =>
    refine ⟨c, [], rfl, ?_⟩
    have kinds : isIdentStart c = false ∧ c.isDigit = false ∧ isBlank c = false ∧ c ≠ '"' ∧
        c ≠ '#' ∧ c ∉ punctuationChars := by
      have each : operatorChars.all (fun c => decide (isIdentStart c = false ∧ c.isDigit = false ∧
          isBlank c = false ∧ c ≠ '"' ∧ c ≠ '#' ∧ c ∉ punctuationChars)) = true := by decide
      exact of_decide_eq_true (List.all_eq_true.mp each c valid)
    have noComment : ¬(c = '/' ∧ rest.head? = some '*') := by
      rintro ⟨slash, star⟩
      exact (ends slash '*' star).2 rfl
    simp [nextToken, kinds, noComment, Piece.token, Piece.type, Piece.text]
  | string body =>
    refine ⟨'"', body ++ ['"'], rfl, ?_⟩
    have kinds : isIdentStart '"' = false ∧ '"'.isDigit = false ∧ isBlank '"' = false := by decide
    simp [nextToken, kinds, takeString_body valid, Piece.token, Piece.type, Piece.text]
  | comment body =>
    refine ⟨'/', '*' :: (body ++ ['*', '/']), rfl, ?_⟩
    have kinds : isIdentStart '/' = false ∧ '/'.isDigit = false ∧ isBlank '/' = false := by decide
    simp [nextToken, kinds, takeComment_body valid, Piece.token, Piece.type, Piece.text]
  | directive text =>
    refine ⟨'#', text, rfl, ?_⟩
    have kinds : isIdentStart '#' = false ∧ '#'.isDigit = false ∧ isBlank '#' = false := by decide
    have inLine : ∀ d ∈ text, decide (d ≠ '\n') = true := by
      intro d member
      simp only [ne_eq, decide_not, Bool.not_eq_true', decide_eq_false_iff_not]
      rintro rfl
      exact valid member
    have stops : ∀ d ∈ rest.head?, decide (d ≠ '\n') = false := by
      intro d next
      simp [ends d next]
    simp only [nextToken, kinds, takeWhile_run inLine stops, dropWhile_run inLine stops]
    simp [Piece.token, Piece.type, Piece.text]

theorem scanTokens_source (wordType : List Char → WordType) {pieces : List Piece}
    (separated : Separated pieces) {fuel : ℕ} (enough : (source pieces).length ≤ fuel) :
    scanTokens wordType fuel (source pieces) = pieces.map (Piece.token wordType) := by
  induction pieces generalizing fuel with
  | nil => cases fuel <;> rfl
  | cons piece rest ih =>
    obtain ⟨valid, ends, separated⟩ := separated
    obtain ⟨c, run, splits, next⟩ := nextToken_piece wordType valid ends
    have text : source (piece :: rest) = c :: (run ++ source rest) := by
      rw [source, List.flatMap_cons, splits]
      rfl
    rw [text] at enough ⊢
    cases fuel with
    | zero => cases enough
    | succ fuel =>
      rw [scanTokens, next]
      have rests : (source rest).length ≤ fuel := by
        rw [List.length_cons, List.length_append] at enough
        omega
      rw [ih separated rests, List.map_cons]

/-- A lexer of this kind, for the words that C keeps for itself. -/
def plainLexer : Lexer where
  wordType text :=
    if text = "const".toList then .keyword
    else if text = "uint16_t".toList then .keywordType
    else .name
  lex text := scanTokens _ text.length text
  lexes _ separated := scanTokens_source _ separated le_rfl
  const := rfl
  uint16 := rfl
  progmem := rfl
  keymaps := rfl
  matrixRows := rfl
  matrixCols := rfl

end QmkSonix.Convert
