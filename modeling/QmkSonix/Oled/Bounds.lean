import QmkSonix.Oled.Cursor

/-! When what is drawn stays inside of the buffer, and that a text comes to its end. -/

namespace QmkSonix.Oled

open QmkSonix.Lib QmkSonix.Lib.Traced

variable {cfg : Config}

section Bytes

variable {state : State cfg}

@[simp] theorem respects_putByte (index : ℕ) (data : BitVec 8) :
    Respects (· < cfg.matrixSize) (putByte cfg index data) state ↔ index < cfg.matrixSize := by
  simp only [putByte, respects_bind, respects_load, after_load]
  refine and_iff_left_of_imp fun inside => ?_
  split <;> simp [inside]

theorem keeps_putByte (index : ℕ) (data : BitVec 8) :
    Keeps State.cursor (putByte cfg index data) := by
  refine Keeps.bind (fun _ => rfl) fun old => ?_
  split <;> exact fun _ => rfl

theorem respects_writeRawByte (data : BitVec 8) (index : BitVec 16) :
    Respects (· < cfg.matrixSize) (oledWriteRawByte cfg data index) state ↔
      index.toNat < cfg.matrixSize := by
  unfold oledWriteRawByte
  rw [respects_putByte]
  split <;> omega

theorem respects_writeRaw (inside : state.cursor < cfg.matrixSize) (data : ℕ → BitVec 8)
    (size : BitVec 16) : Respects (· < cfg.matrixSize) (oledWriteRaw cfg data size) state := by
  simp only [oledWriteRaw, respects_bind]
  refine ⟨respects_getCursor, ?_⟩
  refine (respects_forEach (fun i => state.cursor + i < cfg.matrixSize)
    (fun _ _ _ => respects_putByte _ _) state).mpr fun i member => ?_
  change i ∈ List.range (if cfg.matrixSize < size.toNat + state.cursor then
    cfg.matrixSize - state.cursor else size.toNat) at member
  rw [List.mem_range] at member
  split at member <;> omega

theorem respects_writePixel (x y : BitVec 8) (on : Bool) :
    Respects (· < cfg.matrixSize) (oledWritePixel cfg x y on) state := by
  unfold oledWritePixel
  dsimp only
  split
  · exact respects_pure _ _
  · split
    · exact respects_pure _ _
    · rename_i inside
      simp [Nat.lt_of_not_le inside]

/-- The bytes of a row of the display are in the buffer. -/
theorem row_lt {y x : ℕ} (row : y < cfg.displayHeight / 8) (column : x < cfg.displayWidth) :
    y * cfg.displayWidth + x < cfg.matrixSize := by
  have next := Nat.mul_le_mul_right cfg.displayWidth (Nat.succ_le_of_lt row)
  rw [Nat.succ_eq_add_one, Nat.add_mul, Nat.one_mul] at next
  unfold Config.matrixSize
  omega

theorem respects_moveByte (source i : ℕ) :
    Respects (· < cfg.matrixSize) (moveByte cfg source i) state ↔
      source < cfg.matrixSize ∧ i < cfg.matrixSize := by
  simp [moveByte]

theorem respects_panRow (left : Bool) {y : ℕ} (row : y < cfg.displayHeight / 8) :
    Respects (· < cfg.matrixSize) (panRow cfg left y) state := by
  cases left with
  | true =>
    refine (respects_forEach (fun x => y * cfg.displayWidth + x + 1 < cfg.matrixSize ∧
      y * cfg.displayWidth + x < cfg.matrixSize) (fun _ _ _ => respects_moveByte _ _) state).mpr ?_
    intro x member
    rw [List.mem_range] at member
    have inside := row_lt row (show x + 1 < cfg.displayWidth by omega)
    omega
  | false =>
    refine (respects_forEach (fun x => y * cfg.displayWidth + x - 1 < cfg.matrixSize ∧
      y * cfg.displayWidth + x < cfg.matrixSize) (fun _ _ _ => respects_moveByte _ _) state).mpr ?_
    intro x member
    rw [List.mem_reverse, List.mem_range'_1] at member
    have inside := row_lt row (show x < cfg.displayWidth by omega)
    omega

theorem respects_pan (left : Bool) : Respects (· < cfg.matrixSize) (oledPan cfg left) state := by
  simp only [oledPan, respects_bind]
  exact ⟨(respects_forEach (fun y => y < cfg.displayHeight / 8)
    (fun y member state => iff_of_true (respects_panRow left (List.mem_range.mp member))
      (List.mem_range.mp member)) state).mpr fun y member => List.mem_range.mp member,
    respects_markAll⟩

theorem keeps_pan (left : Bool) : Keeps State.cursor (oledPan cfg left) := by
  have moves (source i : ℕ) : Keeps State.cursor (moveByte cfg source i) := fun _ => rfl
  refine Keeps.bind (keeps_forEach fun y _ => ?_) fun _ _ => rfl
  cases left with
  | true => exact keeps_forEach fun x _ => moves _ _
  | false => exact keeps_forEach fun x _ => moves _ _

end Bytes

section Calls

/-- A text is written inside of the buffer from a cursor on. Where the lines fill the buffer, it
takes room for a character at the cursor, or no character before the first carriage return. -/
def Placed (cfg : Config) (cursor : ℕ) (text : List (BitVec 8)) : Prop :=
  if cfg.Aligned then cfg.Fits cursor ∨ Leaves text
  else ∀ start ∈ textStarts cfg cursor text, cfg.Fits start

/-- A raw byte is written to an index of the buffer, and a text where it has room. -/
def Careful (cfg : Config) (state : State cfg) : Call → Prop
  | .writeRawByte _ index => index.toNat < cfg.matrixSize
  | .advancePage true => Placed cfg state.cursor [newline]
  | .writeChar data _ => Placed cfg state.cursor [data]
  | .write text _ => Placed cfg state.cursor text
  | .writeLn text _ => Placed cfg state.cursor (text ++ [newline])
  | _ => True

def drawStep (cfg : Config) (state : State cfg) (call : Call) : State cfg :=
  (draw cfg call).after state

/-- A call accesses the buffer below its size only. -/
def InBuffer (cfg : Config) (state : State cfg) (call : Call) : Prop :=
  Respects (· < cfg.matrixSize) (draw cfg call) state

theorem placed_iff {cursor : ℕ} (inside : cursor < cfg.matrixSize) (text : List (BitVec 8)) :
    (∀ start ∈ textStarts cfg cursor text, cfg.Fits start) ↔ Placed cfg cursor text := by
  unfold Placed
  split
  · rename_i aligned
    exact textStarts_iff aligned inside text
  · exact Iff.rfl

theorem inBuffer_iff {state : State cfg} (inside : state.cursor < cfg.matrixSize) (call : Call) :
    InBuffer cfg state call ↔ Careful cfg state call := by
  cases call with
  | setCursor col line => exact iff_of_true (respects_setCursor _) trivial
  | advancePage clear =>
    cases clear with
    | true =>
      have page := (writes_advancePage cfg true).respects state
      rw [Careful, ← placed_iff inside, textStarts, textStarts, List.append_nil]
      exact page
    | false => exact iff_of_true (by simp [InBuffer, draw, oledAdvancePage]) trivial
  | advanceChar => exact iff_of_true (by simp [InBuffer, draw, oledAdvanceChar]) trivial
  | writeChar data invert =>
    have char := (writes_writeChar data invert).respects state
    rw [Careful, ← placed_iff inside, textStarts, textStarts, List.append_nil]
    exact char
  | write text invert =>
    exact ((writes_write text invert).respects state).trans (placed_iff inside text)
  | writeLn text invert =>
    exact ((writes_writeLn text invert).respects state).trans (placed_iff inside _)
  | writeRaw data size => exact iff_of_true (respects_writeRaw inside data size) trivial
  | writeRawByte data index => exact respects_writeRawByte data index
  | writePixel x y on => exact iff_of_true (respects_writePixel x y on) trivial
  | pan left => exact iff_of_true (respects_pan left) trivial

/-- No call moves the cursor out of the buffer. -/
theorem cursor_drawStep {state : State cfg} (inside : state.cursor < cfg.matrixSize) (call : Call) :
    (drawStep cfg state call).cursor < cfg.matrixSize := by
  unfold drawStep
  cases call with
  | setCursor col line => exact orStart_lt cfg _
  | advancePage clear =>
    rw [draw, (writes_advancePage cfg clear).cursor]
    exact charCursor_lt inside _
  | advanceChar => exact nextChar_lt cfg _
  | writeChar data invert =>
    rw [draw, (writes_writeChar data invert).cursor]
    exact charCursor_lt inside data
  | write text invert =>
    rw [draw, (writes_write text invert).cursor]
    exact textCursor_lt inside text
  | writeLn text invert =>
    rw [draw, (writes_writeLn text invert).cursor]
    exact textCursor_lt inside _
  | writeRaw data size =>
    have keeps : Keeps State.cursor (oledWriteRaw cfg data size) :=
      Keeps.bind (fun _ => rfl) fun _ => keeps_forEach fun _ _ => keeps_putByte _ _
    rw [draw, keeps]
    exact inside
  | writeRawByte data index =>
    rw [draw, oledWriteRawByte, keeps_putByte]
    exact inside
  | writePixel x y on =>
    have keeps : Keeps State.cursor (oledWritePixel cfg x y on) := by
      unfold oledWritePixel
      dsimp only
      split
      · exact keeps_pure _
      · split
        · exact keeps_pure _
        · exact Keeps.bind (fun _ => rfl) fun _ => keeps_putByte _ _
    rw [draw, keeps]
    exact inside
  | pan left =>
    rw [draw, keeps_pan]
    exact inside

end Calls

section Loops

/-! The loops and the nested calls of `oled_write`, each of them for so many steps. The value is
whether it has returned. -/

/-- `while (remaining--)` with a call of `oled_write_char` in each round -/
def blanksWithin (write : Oled cfg Bool) : ℕ → BitVec 8 → Oled cfg Bool
  | 0, _ => pure false
  | steps + 1, remaining =>
    if remaining = 0 then pure true
    else do
      let returned ← write
      if returned then blanksWithin write steps (remaining - 1) else pure false

/-- `oled_write_char`, which a line break calls again through `oled_advance_page` -/
def writeCharWithin (cfg : Config) : ℕ → BitVec 8 → Bool → Oled cfg Bool
  | 0, _, _ => pure false
  | steps + 1, data, invert =>
    if data = newline then do
      let index ← getCursor
      blanksWithin (writeCharWithin cfg steps space false) steps
        (BitVec.ofNat 8 (lineRemainder cfg index / cfg.fontWidth))
    else if data = carriageReturn then do
      oledAdvancePage cfg false
      pure true
    else do
      writeGlyph cfg data invert
      pure true

/-- `while (data < end)`, from a character of the text on -/
def writeWithin (cfg : Config) (text : List (BitVec 8)) (invert : Bool) : ℕ → ℕ → Oled cfg Bool
  | 0, _ => pure false
  | steps + 1, data =>
    if data < text.length then do
      let returned ← writeCharWithin cfg steps (text.getD data 0) invert
      if returned then writeWithin cfg text invert steps (data + 1) else pure false
    else pure true

/-- A loop returns, and has done what a program does. -/
def Returns (within : Oled cfg Bool) (program : Oled cfg Unit) : Prop :=
  ∀ state, within state = (true, program.after state, program.trace state)

theorem returns_pure : Returns (pure true) (pure () : Oled cfg Unit) := fun _ => rfl

theorem returns_finish (program : Oled cfg Unit) : Returns (do program; pure true) program := by
  intro state
  change (true, program.after state, program.trace state ++ []) = _
  rw [List.append_nil]

theorem Returns.bind {within then_ : Oled cfg Bool} {program rest : Oled cfg Unit}
    (returns : Returns within program) (returnsToo : Returns then_ rest) :
    Returns (do
      let returned ← within
      if returned then then_ else pure false) (do program; rest) := by
  intro state
  have value : within.value state = true := congrArg Prod.fst (returns state)
  have after : within.after state = program.after state :=
    congrArg (fun result => result.2.1) (returns state)
  have trace : within.trace state = program.trace state :=
    congrArg (fun result => result.2.2) (returns state)
  change (Traced.value (if within.value state then then_ else pure false) (within.after state),
    Traced.after (if within.value state then then_ else pure false) (within.after state),
    within.trace state ++
      Traced.trace (if within.value state then then_ else pure false) (within.after state)) = _
  rw [value, after, trace, if_pos rfl]
  unfold Traced.value Traced.after Traced.trace
  rw [returnsToo]
  rfl

theorem returns_blanks {write : Oled cfg Bool}
    (returns : Returns write (writeGlyph cfg space false)) {steps : ℕ} {remaining : BitVec 8}
    (enough : remaining.toNat < steps) :
    Returns (blanksWithin write steps remaining) (writeBlanks cfg remaining.toNat) := by
  induction steps generalizing remaining with
  | zero => omega
  | succ steps ih =>
    rw [blanksWithin]
    split
    · rename_i none
      rw [none]
      exact returns_pure
    · rename_i some
      have positive : 0 < remaining.toNat :=
        Nat.pos_of_ne_zero fun zero => some (BitVec.eq_of_toNat_eq zero)
      have fewer : (remaining - 1).toNat = remaining.toNat - 1 :=
        BitVec.toNat_sub_of_le (BitVec.le_def.mpr positive)
      have rest : Returns (blanksWithin write steps (remaining - 1))
          (writeBlanks cfg (remaining - 1).toNat) := ih (by omega)
      rw [fewer] at rest
      rw [show remaining.toNat = remaining.toNat - 1 + 1 by omega]
      exact returns.bind rest

/-- The blanks of a line break are no line breaks, so the calls are nested once. -/
theorem returns_writeChar (cfg : Config) {steps : ℕ} (enough : 257 ≤ steps) (data : BitVec 8)
    (invert : Bool) : Returns (writeCharWithin cfg steps data invert) (oledWriteChar cfg data invert) := by
  obtain ⟨steps, rfl⟩ : ∃ fewer, steps = fewer + 2 := ⟨steps - 2, by omega⟩
  have blank : Returns (writeCharWithin cfg (steps + 1) space false) (writeGlyph cfg space false) :=
    returns_finish _
  rw [writeCharWithin, oledWriteChar]
  split
  · intro state
    have narrow := cfg.rotationWidth_lt
    have few : lineRemainder cfg state.cursor / cfg.fontWidth < 256 := by
      refine (Nat.div_le_self _ _).trans_lt ?_
      unfold lineRemainder
      omega
    have remaining : (BitVec.ofNat 8 (lineRemainder cfg state.cursor / cfg.fontWidth)).toNat =
        lineRemainder cfg state.cursor / cfg.fontWidth := by
      rw [BitVec.toNat_ofNat]
      exact Nat.mod_eq_of_lt few
    have enough : (BitVec.ofNat 8 (lineRemainder cfg state.cursor / cfg.fontWidth)).toNat <
        steps + 1 := by omega
    have blanks := returns_blanks blank enough state
    rw [remaining] at blanks
    exact blanks
  · split
    · exact returns_finish _
    · exact returns_finish _

theorem returns_write (cfg : Config) (text : List (BitVec 8)) (invert : Bool) {steps data : ℕ}
    (enough : text.length - data + 257 < steps) :
    Returns (writeWithin cfg text invert steps data) (oledWrite cfg (text.drop data) invert) := by
  induction steps generalizing data with
  | zero => omega
  | succ steps ih =>
    rw [writeWithin]
    split
    · rename_i more
      rw [List.drop_eq_getElem_cons more, List.getD_eq_getElem text 0 more]
      exact (returns_writeChar cfg (by omega) _ invert).bind (ih (by omega))
    · rename_i ended
      rw [List.drop_eq_nil_of_le (by omega)]
      exact returns_pure

end Loops

/-- In every run of calls, the buffer is accessed below its size only and every text comes to
its end exactly if each call is careful. -/
theorem inBuffer_iff_careful (cfg : Config) (calls : List Call) :
    (Along (drawStep cfg) (InBuffer cfg) {} calls ∧
        ∀ text invert, ∃ steps, Returns (writeWithin cfg text invert steps 0)
          (oledWrite cfg text invert)) ↔
      Along (drawStep cfg) (Careful cfg) {} calls := by
  have ends (text : List (BitVec 8)) (invert : Bool) : ∃ steps,
      Returns (writeWithin cfg text invert steps 0) (oledWrite cfg text invert) :=
    ⟨text.length + 258, returns_write cfg text invert (by omega)⟩
  rw [and_iff_left ends]
  have inside : ({} : State cfg).cursor < cfg.matrixSize := cfg.matrixSize_pos
  exact along_congr
    (fun (state : State cfg) call (inside : state.cursor < cfg.matrixSize) _ =>
      cursor_drawStep inside call)
    (fun state call inside => inBuffer_iff inside call) inside calls

/-- A display of 128x32 pixels with the font of the driver -/
def smallDisplay : Config where
  displayWidth := 128
  displayHeight := 32
  fontWidth := 6
  fontStart := 0
  fontEnd := 223
  font := fun _ => 0
  blockBits := 16
  blockCount := 16
  blockSize := 32
  sourceMap := [0, 8, 16, 24]
  targetMap := [24, 16, 8, 0]
  rotation90 := false
  width_pos := Nat.succ_pos 127
  width_lt := Nat.lt_add_left 127 (Nat.lt_succ_self 128)
  height_ge := Nat.le_add_left 8 24
  height_lt := Nat.lt_add_left 223 (Nat.lt_succ_self 32)
  font_pos := Nat.succ_pos 5

/-- A character in column 85 of the first line is written up to byte 515 of 512, and a raw byte
at index 512 is not clamped. -/
theorem last_column_and_clamp_break :
    ¬ Along (drawStep smallDisplay) (InBuffer smallDisplay) {}
        [.setCursor 85 0, .writeChar 65 false] ∧
      ¬ Along (drawStep smallDisplay) (InBuffer smallDisplay) {} [.writeRawByte 1 512] := by
  constructor
  · rintro ⟨-, written, -⟩
    have fits := ((writes_writeChar 65 false).respects _).mp written 510 (by decide)
    exact absurd fits (by decide)
  · rintro ⟨written, -⟩
    exact absurd ((respects_writeRawByte 1 512).mp written) (by decide)

end QmkSonix.Oled
