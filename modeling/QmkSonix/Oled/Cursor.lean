import QmkSonix.Lib.Run
import QmkSonix.Oled.Model

/-! Where the cursor stands, and which calls stay inside of the buffer. -/

namespace QmkSonix.Oled

open QmkSonix.Lib QmkSonix.Lib.Traced

variable {cfg : Config} {state : State cfg} {allowed : ℕ → Prop}

section Primitives

@[simp] theorem value_load (index : ℕ) :
    (load index : Oled cfg _).value state = state.buffer index := rfl

@[simp] theorem after_load (index : ℕ) : (load index : Oled cfg _).after state = state := rfl

@[simp] theorem respects_load (index : ℕ) :
    Respects allowed (load index : Oled cfg _) state ↔ allowed index := by
  simp [Respects, Traced.trace, load]

@[simp] theorem after_store (index : ℕ) (data : BitVec 8) :
    (store index data : Oled cfg _).after state =
      { state with buffer := Function.update state.buffer index data } := rfl

@[simp] theorem respects_store (index : ℕ) (data : BitVec 8) :
    Respects allowed (store index data : Oled cfg _) state ↔ allowed index := by
  simp [Respects, Traced.trace, store]

@[simp] theorem value_getCursor : (getCursor : Oled cfg _).value state = state.cursor := rfl

@[simp] theorem after_getCursor : (getCursor : Oled cfg _).after state = state := rfl

@[simp] theorem respects_getCursor : Respects allowed (getCursor : Oled cfg _) state := by
  simp [Respects, Traced.trace, getCursor]

@[simp] theorem after_setCursor (index : ℕ) :
    (setCursor index : Oled cfg _).after state = { state with cursor := index } := rfl

@[simp] theorem respects_setCursor (index : ℕ) :
    Respects allowed (setCursor index : Oled cfg _) state := by
  simp [Respects, Traced.trace, setCursor]

@[simp] theorem after_markDirty (block : ℕ) :
    (markDirty block : Oled cfg _).after state =
      { state with dirty := state.dirty ||| BitVec.ofNat _ 1 <<< block } := rfl

@[simp] theorem respects_markDirty (block : ℕ) :
    Respects allowed (markDirty block : Oled cfg _) state := by
  simp [Respects, Traced.trace, markDirty]

@[simp] theorem after_markAll :
    (markAll : Oled cfg _).after state = { state with dirty := cfg.allBlocks } := rfl

@[simp] theorem respects_markAll : Respects allowed (markAll : Oled cfg _) state := by
  simp [Respects, Traced.trace, markAll]

@[simp] theorem value_loadBytes (start count : ℕ) :
    (loadBytes start count : Oled cfg _).value state =
      (List.range' start count).map state.buffer := rfl

@[simp] theorem after_loadBytes (start count : ℕ) :
    (loadBytes start count : Oled cfg _).after state = state := rfl

@[simp] theorem respects_loadBytes (start count : ℕ) :
    Respects allowed (loadBytes start count : Oled cfg _) state ↔
      ∀ index ∈ List.range' start count, allowed index := Iff.rfl

@[simp] theorem respects_storeBytes (start : ℕ) (bytes : List (BitVec 8)) :
    Respects allowed (storeBytes start bytes : Oled cfg _) state ↔
      ∀ i ∈ List.range bytes.length, allowed (start + i) :=
  respects_forEach (fun i => allowed (start + i)) (fun _ _ _ => respects_store _ _) state

@[simp] theorem respects_invertCharacter (cursor : ℕ) :
    Respects allowed (invertCharacter cfg cursor) state ↔
      ∀ index ∈ List.range' cursor cfg.fontWidth, allowed index :=
  respects_forEach allowed (fun index _ state => by simp) state

theorem keeps_storeBytes (start : ℕ) (bytes : List (BitVec 8)) :
    Keeps State.cursor (storeBytes start bytes : Oled cfg _) :=
  keeps_forEach fun _ _ _ => rfl

theorem keeps_invertCharacter (cursor : ℕ) :
    Keeps State.cursor (invertCharacter cfg cursor) :=
  keeps_forEach fun _ _ _ => rfl

end Primitives

section Sizes

theorem Config.rotationWidth_pos (cfg : Config) : 0 < cfg.rotationWidth := by
  have width := cfg.width_pos
  have height := cfg.height_ge
  unfold Config.rotationWidth
  split <;> omega

theorem Config.rotationWidth_lt (cfg : Config) : cfg.rotationWidth < 256 := by
  have width := cfg.width_lt
  have height := cfg.height_lt
  unfold Config.rotationWidth
  split <;> omega

theorem Config.matrixSize_pos (cfg : Config) : 0 < cfg.matrixSize :=
  Nat.mul_pos (Nat.div_pos cfg.height_ge (by omega)) cfg.width_pos

theorem Config.matrixSize_lt (cfg : Config) : cfg.matrixSize < 8192 := by
  have rows : cfg.displayHeight / 8 ≤ 31 := by
    have height := cfg.height_lt
    omega
  have width := cfg.width_lt
  have := Nat.mul_le_mul rows (Nat.le_of_lt_succ width)
  unfold Config.matrixSize
  omega

end Sizes

section Movement

/-- A character fits into the buffer at the cursor. -/
def Config.Fits (cfg : Config) (cursor : ℕ) : Prop := cursor + cfg.fontWidth ≤ cfg.matrixSize

instance (cursor : ℕ) : Decidable (cfg.Fits cursor) := inferInstanceAs (Decidable (_ ≤ _))

/-- Where a character of a text moves the cursor to -/
def charCursor (cfg : Config) (cursor : ℕ) (data : BitVec 8) : ℕ :=
  if data = newline then (nextChar cfg)^[lineRemainder cfg cursor / cfg.fontWidth] cursor
  else if data = carriageReturn then nextPage cfg cursor
  else nextChar cfg cursor

/-- Where blanks are written -/
def blankStarts (cfg : Config) : ℕ → ℕ → List ℕ
  | 0, _ => []
  | remaining + 1, cursor => cursor :: blankStarts cfg remaining (nextChar cfg cursor)

/-- Where a character of a text is written, and the blanks of a line break -/
def charStarts (cfg : Config) (cursor : ℕ) (data : BitVec 8) : List ℕ :=
  if data = newline then blankStarts cfg (lineRemainder cfg cursor / cfg.fontWidth) cursor
  else if data = carriageReturn then []
  else [cursor]

/-- Where the characters of a text are written -/
def textStarts (cfg : Config) : ℕ → List (BitVec 8) → List ℕ
  | _, [] => []
  | cursor, data :: rest =>
    charStarts cfg cursor data ++ textStarts cfg (charCursor cfg cursor data) rest

/-- A program writes characters from some places on and moves the cursor. -/
structure Writes (program : Oled cfg Unit) (starts : ℕ → List ℕ) (cursor : ℕ → ℕ) : Prop where
  respects : ∀ state, Respects (· < cfg.matrixSize) program state ↔
    ∀ start ∈ starts state.cursor, cfg.Fits start
  cursor : ∀ state, (program.after state).cursor = cursor state.cursor

theorem Writes.bind {first second : Oled cfg Unit} {starts later : ℕ → List ℕ}
    {cursor move : ℕ → ℕ} (writes : Writes first starts cursor) (writesToo : Writes second later move) :
    Writes (first >>= fun _ => second) (fun from' => starts from' ++ later (cursor from'))
      (fun from' => move (cursor from')) where
  respects state := by
    rw [respects_bind, writes.respects, writesToo.respects, writes.cursor]
    simp only [List.forall_mem_append]
  cursor state := by rw [after_bind, writesToo.cursor, writes.cursor]

theorem fits_iff (cursor : ℕ) :
    cfg.Fits cursor ↔ ∀ index ∈ List.range' cursor cfg.fontWidth, index < cfg.matrixSize := by
  have some := cfg.font_pos
  unfold Config.Fits
  constructor
  · intro fits index member
    rw [List.mem_range'_1] at member
    omega
  · intro inside
    have last := inside (cursor + (cfg.fontWidth - 1)) (List.mem_range'_1.mpr (by omega))
    omega

@[simp] theorem length_glyph (data : BitVec 8) : (glyph cfg data).length = cfg.fontWidth := by
  simp [glyph]

theorem fits_iff_offsets (cursor : ℕ) :
    cfg.Fits cursor ↔ ∀ i ∈ List.range cfg.fontWidth, cursor + i < cfg.matrixSize := by
  have some := cfg.font_pos
  unfold Config.Fits
  constructor
  · intro fits i member
    rw [List.mem_range] at member
    omega
  · intro inside
    have last := inside (cfg.fontWidth - 1) (List.mem_range.mpr (by omega))
    omega

theorem keeps_invertIf (invert : Bool) (cursor : ℕ) :
    Keeps State.cursor (invertIf cfg invert cursor) := by
  unfold invertIf
  split
  · exact keeps_invertCharacter cursor
  · exact keeps_pure _

theorem keeps_dirtyCheck (index : ℕ) (tempBuffer written : List (BitVec 8)) :
    Keeps State.cursor (dirtyCheck cfg index tempBuffer written) := by
  unfold dirtyCheck
  split
  · exact fun _ => rfl
  · exact keeps_pure _

theorem respects_dirtyCheck (index : ℕ) (tempBuffer written : List (BitVec 8)) :
    Respects allowed (dirtyCheck cfg index tempBuffer written) state := by
  unfold dirtyCheck
  split <;> simp

theorem writes_writeGlyph (data : BitVec 8) (invert : Bool) :
    Writes (writeGlyph cfg data invert) (fun cursor => [cursor]) (nextChar cfg) := by
  constructor
  · intro state
    rw [List.forall_mem_singleton, fits_iff]
    constructor
    · intro respects
      simp only [writeGlyph, respects_bind, respects_loadBytes] at respects
      exact respects.2.1
    · intro inside
      have offsets := (fits_iff_offsets _).mp ((fits_iff _).mpr inside)
      have inverts (state : State cfg) (index : ℕ) (here : ∀ i ∈ List.range' index cfg.fontWidth,
          i < cfg.matrixSize) : Respects (· < cfg.matrixSize) (invertIf cfg invert index) state := by
        unfold invertIf
        split
        · exact (respects_invertCharacter index).mpr here
        · exact respects_pure _ _
      simp only [writeGlyph, respects_bind]
      refine ⟨respects_getCursor, inside, ?_, inverts _ _ inside, inside,
        respects_dirtyCheck _ _ _, by simp [oledAdvanceChar]⟩
      rw [respects_storeBytes, length_glyph]
      exact offsets
  · intro state
    have moves (state : State cfg) :
        ((oledAdvanceChar cfg).after state).cursor = nextChar cfg state.cursor := rfl
    simp only [writeGlyph, after_bind, moves]
    rw [keeps_dirtyCheck, after_loadBytes, keeps_invertIf, keeps_storeBytes]
    rfl

theorem writes_writeBlanks (cfg : Config) (remaining : ℕ) :
    Writes (writeBlanks cfg remaining) (blankStarts cfg remaining) (nextChar cfg)^[remaining] := by
  induction remaining with
  | zero => exact ⟨fun state => by simp [writeBlanks, blankStarts], fun _ => rfl⟩
  | succ remaining ih => exact (writes_writeGlyph space false).bind ih

/-- A line break moves as a character of a text does. -/
theorem writes_advancePage (cfg : Config) (clear : Bool) :
    Writes (oledAdvancePage cfg clear)
      (fun cursor => charStarts cfg cursor (if clear then newline else carriageReturn))
      (fun cursor => charCursor cfg cursor (if clear then newline else carriageReturn)) := by
  cases clear with
  | false => exact ⟨fun state => by simp [oledAdvancePage, charStarts, newline, carriageReturn],
      fun _ => rfl⟩
  | true =>
    constructor
    · intro state
      have blanks := (writes_writeBlanks cfg
        (lineRemainder cfg state.cursor / cfg.fontWidth)).respects state
      simpa [oledAdvancePage, charStarts] using blanks
    · intro state
      exact (writes_writeBlanks cfg (lineRemainder cfg state.cursor / cfg.fontWidth)).cursor state

theorem writes_writeChar (data : BitVec 8) (invert : Bool) :
    Writes (oledWriteChar cfg data invert) (fun cursor => charStarts cfg cursor data)
      (fun cursor => charCursor cfg cursor data) := by
  unfold oledWriteChar
  split
  · rename_i breaks
    rw [breaks]
    exact writes_advancePage cfg true
  · rename_i other
    split
    · rename_i returns
      rw [returns]
      exact writes_advancePage cfg false
    · rename_i glyph
      simp only [charStarts, charCursor, other, glyph, if_false]
      exact writes_writeGlyph data invert

/-- Where a text moves the cursor to -/
def textCursor (cfg : Config) (cursor : ℕ) (text : List (BitVec 8)) : ℕ :=
  text.foldl (charCursor cfg) cursor

theorem writes_write (text : List (BitVec 8)) (invert : Bool) :
    Writes (oledWrite cfg text invert) (fun cursor => textStarts cfg cursor text)
      (fun cursor => textCursor cfg cursor text) := by
  induction text with
  | nil => exact ⟨fun state => by simp [oledWrite, Traced.forEach, textStarts], fun _ => rfl⟩
  | cons data rest ih => exact (writes_writeChar data invert).bind ih

theorem textStarts_append (cursor : ℕ) (text more : List (BitVec 8)) :
    textStarts cfg cursor (text ++ more) =
      textStarts cfg cursor text ++ textStarts cfg (textCursor cfg cursor text) more := by
  induction text generalizing cursor with
  | nil => rfl
  | cons data rest ih =>
    rw [List.cons_append, textStarts, textStarts, ih, List.append_assoc]
    rfl

theorem writes_writeLn (text : List (BitVec 8)) (invert : Bool) :
    Writes (oledWriteLn cfg text invert) (fun cursor => textStarts cfg cursor (text ++ [newline]))
      (fun cursor => textCursor cfg cursor (text ++ [newline])) := by
  have line := (writes_write text invert).bind (writes_advancePage cfg true)
  refine ⟨fun state => ?_, fun state => ?_⟩
  · have respects := line.respects state
    rw [textStarts_append, textStarts, textStarts, List.append_nil]
    exact respects
  · rw [textCursor, List.foldl_append]
    exact line.cursor state

theorem orStart_lt (cfg : Config) (index : ℕ) : orStart cfg index < cfg.matrixSize := by
  have some := cfg.matrixSize_pos
  unfold orStart
  split <;> omega

/-- The cursor stays inside of the buffer wherever it is moved to. -/
theorem nextChar_lt (cfg : Config) (cursor : ℕ) : nextChar cfg cursor < cfg.matrixSize :=
  orStart_lt cfg _

theorem nextPage_lt (cfg : Config) (cursor : ℕ) : nextPage cfg cursor < cfg.matrixSize :=
  orStart_lt cfg _

theorem charCursor_lt {cursor : ℕ} (inside : cursor < cfg.matrixSize) (data : BitVec 8) :
    charCursor cfg cursor data < cfg.matrixSize := by
  unfold charCursor
  split
  · generalize lineRemainder cfg cursor / cfg.fontWidth = remaining
    cases remaining with
    | zero => exact inside
    | succ remaining =>
      rw [Function.iterate_succ_apply']
      exact nextChar_lt cfg _
  · split
    · exact nextPage_lt cfg cursor
    · exact nextChar_lt cfg cursor

theorem textCursor_lt {cursor : ℕ} (inside : cursor < cfg.matrixSize) (text : List (BitVec 8)) :
    textCursor cfg cursor text < cfg.matrixSize := by
  induction text generalizing cursor with
  | nil => exact inside
  | cons data rest ih => exact ih (charCursor_lt inside data)

end Movement

section Aligned

/-- The lines fill the buffer, and a character fits into a line. -/
def Config.Aligned (cfg : Config) : Prop :=
  cfg.rotationWidth ∣ cfg.matrixSize ∧ cfg.fontWidth ≤ cfg.rotationWidth

instance (cfg : Config) : Decidable cfg.Aligned := inferInstanceAs (Decidable (_ ∧ _))

/-- A line that starts inside of the buffer ends inside of it. -/
theorem line_fits (aligned : cfg.Aligned) {cursor : ℕ} (inside : cursor < cfg.matrixSize)
    (fits : cursor % cfg.rotationWidth + cfg.fontWidth ≤ cfg.rotationWidth) : cfg.Fits cursor := by
  obtain ⟨lines, size⟩ := aligned.1
  have split := Nat.div_add_mod cursor cfg.rotationWidth
  have line : cursor / cfg.rotationWidth < lines := by
    rw [Nat.div_lt_iff_lt_mul cfg.rotationWidth_pos, Nat.mul_comm, ← size]
    exact inside
  have next := Nat.mul_le_mul_left cfg.rotationWidth (Nat.succ_le_of_lt line)
  rw [Nat.succ_eq_add_one, Nat.mul_add, Nat.mul_one, ← size] at next
  unfold Config.Fits
  omega

theorem start_fits (aligned : cfg.Aligned) {cursor : ℕ} (inside : cursor < cfg.matrixSize)
    (start : cursor % cfg.rotationWidth = 0) : cfg.Fits cursor :=
  line_fits aligned inside (by rw [start, Nat.zero_add]; exact aligned.2)

/-- The end of a line is the start of one. -/
theorem lineEnd_mod (cfg : Config) (cursor : ℕ) : (cursor + lineRemainder cfg cursor) % cfg.rotationWidth = 0 := by
  have below := Nat.mod_lt cursor cfg.rotationWidth_pos
  have split := Nat.div_add_mod cursor cfg.rotationWidth
  have ends : cursor + lineRemainder cfg cursor =
      cfg.rotationWidth * (cursor / cfg.rotationWidth + 1) := by
    unfold lineRemainder
    rw [Nat.mul_add, Nat.mul_one]
    omega
  rw [ends, Nat.mul_mod_right]

theorem orStart_fits (aligned : cfg.Aligned) {index : ℕ}
    (fits : index % cfg.rotationWidth + cfg.fontWidth ≤ cfg.rotationWidth) :
    cfg.Fits (orStart cfg index) := by
  unfold orStart
  split
  · exact start_fits aligned cfg.matrixSize_pos (Nat.zero_mod _)
  · rename_i inside
    exact line_fits aligned (Nat.lt_of_not_le inside) fits

theorem nextPage_fits (aligned : cfg.Aligned) (cursor : ℕ) : cfg.Fits (nextPage cfg cursor) := by
  refine orStart_fits aligned ?_
  rw [lineEnd_mod, Nat.zero_add]
  exact aligned.2

theorem nextChar_fits (aligned : cfg.Aligned) {cursor : ℕ} (inside : cursor < cfg.matrixSize) :
    cfg.Fits (nextChar cfg cursor) := by
  have small := cfg.matrixSize_lt
  have narrow := cfg.rotationWidth_lt
  have width := aligned.2
  have below := Nat.mod_lt (cursor + cfg.fontWidth) cfg.rotationWidth_pos
  have ends := lineEnd_mod cfg (cursor + cfg.fontWidth)
  unfold lineRemainder at ends
  unfold nextChar
  dsimp only
  rw [Nat.mod_eq_of_lt (show cursor + cfg.fontWidth < 65536 by omega)]
  refine orStart_fits aligned ?_
  split
  · rw [Nat.mod_eq_of_lt (show _ < 65536 by omega), ends, Nat.zero_add]
    exact width
  · omega

/-- A character fits if it fits into what is left of the line. -/
theorem fits_of_remainder (aligned : cfg.Aligned) {cursor : ℕ} (inside : cursor < cfg.matrixSize)
    (some : lineRemainder cfg cursor / cfg.fontWidth ≠ 0) : cfg.Fits cursor := by
  have room : cfg.fontWidth ≤ lineRemainder cfg cursor := by
    by_contra narrow
    exact some (Nat.div_eq_of_lt (Nat.lt_of_not_le narrow))
  refine line_fits aligned inside ?_
  have below := Nat.mod_lt cursor cfg.rotationWidth_pos
  unfold lineRemainder at room
  omega

theorem blankStarts_fit (aligned : cfg.Aligned) {cursor : ℕ} (inside : cursor < cfg.matrixSize)
    (fits : cfg.Fits cursor) (remaining : ℕ) :
    (∀ start ∈ blankStarts cfg remaining cursor, cfg.Fits start) ∧
      cfg.Fits ((nextChar cfg)^[remaining] cursor) := by
  induction remaining generalizing cursor with
  | zero => exact ⟨fun start none => absurd none List.not_mem_nil, fits⟩
  | succ remaining ih =>
    have later := ih (nextChar_lt cfg cursor) (nextChar_fits aligned inside)
    exact ⟨List.forall_mem_cons.mpr ⟨fits, later.1⟩, later.2⟩

/-- A character at a cursor with room is written inside of the buffer, and leaves room. -/
theorem charStarts_fit (aligned : cfg.Aligned) {cursor : ℕ} (inside : cursor < cfg.matrixSize)
    (fits : cfg.Fits cursor) (data : BitVec 8) :
    (∀ start ∈ charStarts cfg cursor data, cfg.Fits start) ∧
      cfg.Fits (charCursor cfg cursor data) := by
  unfold charStarts charCursor
  split
  · exact blankStarts_fit aligned inside fits _
  · split
    · exact ⟨fun start none => absurd none List.not_mem_nil, nextPage_fits aligned cursor⟩
    · exact ⟨List.forall_mem_singleton.mpr fits, nextChar_fits aligned inside⟩

theorem textStarts_fit (aligned : cfg.Aligned) {cursor : ℕ} (inside : cursor < cfg.matrixSize)
    (fits : cfg.Fits cursor) (text : List (BitVec 8)) :
    ∀ start ∈ textStarts cfg cursor text, cfg.Fits start := by
  induction text generalizing cursor with
  | nil => exact fun start none => absurd none List.not_mem_nil
  | cons data rest ih =>
    have first := charStarts_fit aligned inside fits data
    rw [textStarts, List.forall_mem_append]
    exact ⟨first.1, ih (charCursor_lt inside data) first.2⟩

/-- A text writes nothing in front of its first carriage return but line breaks. -/
def Leaves (text : List (BitVec 8)) : Prop :=
  ∀ data ∈ text.takeWhile (· ≠ carriageReturn), data = newline

/-- In the last bytes of the buffer, which are too few for a character, only a carriage return
or a new position helps. -/
theorem textStarts_iff (aligned : cfg.Aligned) {cursor : ℕ} (inside : cursor < cfg.matrixSize)
    (text : List (BitVec 8)) :
    (∀ start ∈ textStarts cfg cursor text, cfg.Fits start) ↔ cfg.Fits cursor ∨ Leaves text := by
  by_cases fits : cfg.Fits cursor
  · exact iff_of_true (textStarts_fit aligned inside fits text) (.inl fits)
  · rw [or_iff_right fits]
    induction text with
    | nil =>
      exact iff_of_true (fun start none => absurd none List.not_mem_nil)
        (fun data none => absurd none List.not_mem_nil)
    | cons data rest ih =>
      rw [textStarts, List.forall_mem_append]
      by_cases breaks : data = newline
      · have none : lineRemainder cfg cursor / cfg.fontWidth = 0 := by
          by_contra some
          exact fits (fits_of_remainder aligned inside some)
        have stays : charCursor cfg cursor data = cursor := by simp [charCursor, breaks, none]
        have writes : charStarts cfg cursor data = [] := by
          simp [charStarts, breaks, none, blankStarts]
        rw [stays, writes, ih, breaks]
        simp [Leaves, newline, carriageReturn]
      · by_cases returns : data = carriageReturn
        · have moves : charCursor cfg cursor data = nextPage cfg cursor := by
            simp [charCursor, returns, newline, carriageReturn]
          rw [moves]
          refine iff_of_true ⟨?_, ?_⟩ ?_
          · simp [charStarts, returns, newline, carriageReturn]
          · exact textStarts_fit aligned (nextPage_lt cfg cursor) (nextPage_fits aligned cursor) rest
          · simp [Leaves, returns]
        · refine iff_of_false (fun writes => ?_) (fun leaves => ?_)
          · have here := writes.1 cursor
            simp only [charStarts, breaks, returns, if_false] at here
            exact fits (here List.mem_cons_self)
          · refine breaks (leaves data ?_)
            simp [returns]

end Aligned

end QmkSonix.Oled
