import QmkSonix.Oled.Bounds
import QmkSonix.Oled.Render

/-! A block that is not dirty is on the display as it is in the buffer. -/

namespace QmkSonix.Oled

open QmkSonix.Lib QmkSonix.Lib.Traced

variable {cfg : Config}

section Masks

theorem getLsbD_mark {width block : ℕ} (inside : block < width) (dirty : BitVec width) (other : ℕ) :
    (dirty ||| BitVec.ofNat _ 1 <<< block).getLsbD other =
      (dirty.getLsbD other || decide (block = other)) := by
  rw [BitVec.getLsbD_or, ← BitVec.twoPow_eq, BitVec.getLsbD_twoPow]
  simp [inside]

/-- The mask covers all blocks. -/
theorem getLsbD_allBlocks (bits : cfg.blockCount ≤ cfg.blockBits) {block : ℕ}
    (inside : block < cfg.blockCount) : cfg.allBlocks.getLsbD block = true := by
  have top : cfg.blockCount - 1 < cfg.blockBits := by omega
  have below : BitVec.ofNat cfg.blockBits 1 <<< (cfg.blockCount - 1) - 1 =
      BitVec.ofNat cfg.blockBits (2 ^ (cfg.blockCount - 1) - 1) := by
    refine BitVec.eq_of_toNat_eq ?_
    have small := Nat.pow_lt_pow_right Nat.one_lt_two top
    have positive := Nat.two_pow_pos (cfg.blockCount - 1)
    have power : (BitVec.ofNat cfg.blockBits 1 <<< (cfg.blockCount - 1)).toNat =
        2 ^ (cfg.blockCount - 1) := by
      rw [← BitVec.twoPow_eq, BitVec.toNat_twoPow_eq_ite, if_pos top]
    have one : (1 : BitVec cfg.blockBits).toNat = 1 :=
      Nat.mod_eq_of_lt (Nat.one_lt_two_pow (by omega))
    rw [BitVec.toNat_sub_of_le (by rw [BitVec.le_def, power, one]; exact positive), power, one,
      BitVec.toNat_ofNat, Nat.mod_eq_of_lt (by omega)]
  unfold Config.allBlocks
  rw [BitVec.getLsbD_or, below, BitVec.getLsbD_shiftLeft, BitVec.getLsbD_ofNat,
    Nat.testBit_two_pow_sub_one]
  cases block with
  | zero => simp; omega
  | succ block => simp; omega

end Masks

section Marking

/-- The buffer is divided into blocks, a character spans two of them at most, and the tables for
the rotation stay inside of a block. -/
structure Config.Tiled (cfg : Config) : Prop where
  covers : cfg.blockCount * cfg.blockSize = cfg.matrixSize
  narrow : cfg.fontWidth ≤ cfg.blockSize + 1
  bits : cfg.blockCount ≤ cfg.blockBits
  sources : cfg.rotation90 = true → ∀ source ∈ cfg.sourceMap, source + 8 ≤ cfg.blockSize

theorem Config.Tiled.block_lt (tiled : cfg.Tiled) {index : ℕ} (inside : index < cfg.matrixSize) :
    index / cfg.blockSize < cfg.blockCount := by
  rw [← tiled.covers] at inside
  exact Nat.div_lt_of_lt_mul (by rwa [Nat.mul_comm])

theorem Config.Tiled.blockSize_pos (tiled : cfg.Tiled) : 0 < cfg.blockSize := by
  have some := cfg.matrixSize_pos
  rw [← tiled.covers] at some
  exact Nat.pos_of_mul_pos_left some

/-- What changes is dirty behind it, and what was dirty stays dirty. -/
def Marks (cfg : Config) (before after : State cfg) : Prop :=
  ∀ index, after.dirty.getLsbD (index / cfg.blockSize) = false → index < cfg.matrixSize →
    before.dirty.getLsbD (index / cfg.blockSize) = false ∧ after.buffer index = before.buffer index

theorem Marks.refl (state : State cfg) : Marks cfg state state := fun _ clean _ => ⟨clean, rfl⟩

theorem Marks.trans {first second third : State cfg} (marks : Marks cfg first second)
    (marksToo : Marks cfg second third) : Marks cfg first third := by
  intro index clean inside
  obtain ⟨before, same⟩ := marksToo index clean inside
  obtain ⟨earlier, sameToo⟩ := marks index before inside
  exact ⟨earlier, same.trans sameToo⟩

/-- A program that stays inside of the buffer marks what it changes. -/
def Marked (program : Oled cfg Unit) : Prop :=
  ∀ state, Respects (· < cfg.matrixSize) program state → Marks cfg state (program.after state)

theorem marked_pure : Marked (pure () : Oled cfg Unit) := fun state _ => Marks.refl state

theorem Marked.bind {first second : Oled cfg Unit} (marked : Marked first)
    (markedToo : Marked second) : Marked (do first; second) := by
  intro state respects
  rw [respects_bind] at respects
  exact (marked state respects.1).trans (markedToo _ respects.2)

theorem marked_forEach {Element : Type*} (elements : List Element)
    {body : Element → Oled cfg Unit} (each : ∀ element, Marked (body element)) :
    Marked (Traced.forEach elements body) := by
  induction elements with
  | nil => exact marked_pure
  | cons element rest ih => exact (each element).bind ih

/-- A program behind a look at the state -/
theorem Marked.of_get {Value : Type} {read : Oled cfg Value} (looks : ∀ state, read.after state = state)
    {next : Value → Oled cfg Unit} (each : ∀ value, Marked (next value)) :
    Marked (do let value ← read; next value) := by
  intro state respects
  rw [respects_bind, looks] at respects
  rw [after_bind, looks]
  exact each _ state respects.2

theorem marked_of_same {program : Oled cfg Unit}
    (same : ∀ state, (program.after state).buffer = state.buffer ∧
      (program.after state).dirty = state.dirty) : Marked program := by
  intro state _ index clean _
  rw [(same state).2] at clean
  exact ⟨clean, by rw [(same state).1]⟩

theorem marked_putByte (tiled : cfg.Tiled) (index : ℕ) (data : BitVec 8) :
    Marked (putByte cfg index data) := by
  intro state respects
  have inside := (respects_putByte index data).mp respects
  have block := (tiled.block_lt inside).trans_le tiled.bits
  by_cases same : state.buffer index = data
  · have stays : (putByte cfg index data).after state = state := by
      simp only [putByte, after_bind, after_load]
      rw [if_pos (show (load index).value state = data from same)]
      rfl
    rw [stays]
    exact Marks.refl state
  · have puts : (putByte cfg index data).after state =
        { state with
          buffer := Function.update state.buffer index data
          dirty := state.dirty ||| BitVec.ofNat _ 1 <<< (index / cfg.blockSize) } := by
      simp only [putByte, after_bind, after_load]
      rw [if_neg (show ¬ (load index).value state = data from same)]
      rfl
    rw [puts]
    intro other clean _
    dsimp only at clean ⊢
    rw [getLsbD_mark block, Bool.or_eq_false_iff, decide_eq_false_iff_not] at clean
    refine ⟨clean.1, Function.update_of_ne ?_ _ _⟩
    rintro rfl
    exact clean.2 rfl

/-- What is written of a character is between the cursor and its end. -/
theorem notes_store (index : ℕ) (data : BitVec 8) :
    Notes State.buffer id (store index data : Oled cfg Unit) := by
  intro state address apart
  have other : address ≠ index := fun same => apart (by rw [same]; exact List.mem_cons_self)
  exact Function.update_of_ne other _ _

theorem notes_storeBytes (start : ℕ) (bytes : List (BitVec 8)) :
    Notes State.buffer id (storeBytes start bytes : Oled cfg Unit) :=
  notes_forEach fun _ => notes_store _ _

theorem notes_invertIf (invert : Bool) (cursor : ℕ) :
    Notes State.buffer id (invertIf cfg invert cursor) := by
  unfold invertIf
  split
  · refine notes_forEach fun index => Notes.bind (Keeps.notes fun _ => rfl) fun _ => ?_
    exact notes_store _ _
  · exact (keeps_pure _).notes

theorem keepsDirty_storeBytes (start : ℕ) (bytes : List (BitVec 8)) :
    Keeps State.dirty (storeBytes start bytes : Oled cfg Unit) :=
  keeps_forEach fun _ _ _ => rfl

theorem keepsDirty_invertIf (invert : Bool) (cursor : ℕ) :
    Keeps State.dirty (invertIf cfg invert cursor) := by
  unfold invertIf
  split
  · exact keeps_forEach fun _ _ _ => rfl
  · exact keeps_pure _

/-- The bytes of a character in the buffer, drawn -/
def drawn (cfg : Config) (data : BitVec 8) (invert : Bool) (state : State cfg) : State cfg :=
  (invertIf cfg invert state.cursor).after
    ((storeBytes state.cursor (glyph cfg data)).after state)

theorem drawn_outside (data : BitVec 8) (invert : Bool) (state : State cfg) {index : ℕ}
    (outside : index ∉ List.range' state.cursor cfg.fontWidth) :
    (drawn cfg data invert state).buffer index = state.buffer index := by
  have stores : Respects (· ∈ List.range' state.cursor cfg.fontWidth)
      (storeBytes state.cursor (glyph cfg data)) state := by
    rw [respects_storeBytes, length_glyph]
    intro i member
    rw [List.mem_range] at member
    exact List.mem_range'_1.mpr (by omega)
  have inverts (middle : State cfg) : Respects (· ∈ List.range' state.cursor cfg.fontWidth)
      (invertIf cfg invert state.cursor) middle := by
    unfold invertIf
    split
    · exact (respects_invertCharacter _).mpr fun _ member => member
    · exact respects_pure _ _
  unfold drawn
  rw [(notes_invertIf invert state.cursor).unchanged (inverts _) outside,
    (notes_storeBytes state.cursor _).unchanged stores outside]

theorem dirty_drawn (data : BitVec 8) (invert : Bool) (state : State cfg) :
    (drawn cfg data invert state).dirty = state.dirty := by
  unfold drawn
  rw [keepsDirty_invertIf, keepsDirty_storeBytes]

/-- The blocks of the first and of the last byte of a character are all that it touches. -/
theorem Config.Tiled.spans (tiled : cfg.Tiled) {cursor index : ℕ}
    (member : index ∈ List.range' cursor cfg.fontWidth) :
    index / cfg.blockSize = cursor / cfg.blockSize ∨
      index / cfg.blockSize = (cursor + cfg.fontWidth - 1) / cfg.blockSize := by
  have narrow := tiled.narrow
  have positive := tiled.blockSize_pos
  rw [List.mem_range'_1] at member
  have low := Nat.div_le_div_right (c := cfg.blockSize) member.1
  have high := Nat.div_le_div_right (c := cfg.blockSize)
    (show index ≤ cursor + cfg.fontWidth - 1 by omega)
  have next : (cursor + cfg.fontWidth - 1) / cfg.blockSize ≤ cursor / cfg.blockSize + 1 := by
    rw [← Nat.add_div_right cursor positive]
    exact Nat.div_le_div_right (by omega)
  omega

theorem marked_writeGlyph (tiled : cfg.Tiled) (data : BitVec 8) (invert : Bool) :
    Marked (writeGlyph cfg data invert) := by
  intro state respects
  have fits : cfg.Fits state.cursor :=
    List.forall_mem_singleton.mp (((writes_writeGlyph data invert).respects state).mp respects)
  have some := cfg.font_pos
  have outside (index : ℕ) (apart : index ∉ List.range' state.cursor cfg.fontWidth) :=
    drawn_outside data invert state apart
  have checks : (writeGlyph cfg data invert).after state =
      (oledAdvanceChar cfg).after ((dirtyCheck cfg state.cursor
        ((List.range' state.cursor cfg.fontWidth).map state.buffer)
        ((List.range' state.cursor cfg.fontWidth).map (drawn cfg data invert state).buffer)).after
          (drawn cfg data invert state)) := rfl
  have before := dirty_drawn data invert state
  by_cases same : (List.range' state.cursor cfg.fontWidth).map state.buffer =
      (List.range' state.cursor cfg.fontWidth).map (drawn cfg data invert state).buffer
  · have writes : (writeGlyph cfg data invert).after state =
        { drawn cfg data invert state with
          cursor := nextChar cfg (drawn cfg data invert state).cursor } := by
      rw [checks, dirtyCheck, if_neg (not_not.mpr same)]
      rfl
    rw [writes]
    intro index clean _
    dsimp only at clean ⊢
    rw [before] at clean
    refine ⟨clean, ?_⟩
    by_cases inside : index ∈ List.range' state.cursor cfg.fontWidth
    · exact (List.map_inj_left.mp same index inside).symm
    · exact outside index inside
  · have writes : (writeGlyph cfg data invert).after state =
        { drawn cfg data invert state with
          cursor := nextChar cfg (drawn cfg data invert state).cursor
          dirty := state.dirty ||| BitVec.ofNat _ 1 <<< (state.cursor / cfg.blockSize) |||
            BitVec.ofNat _ 1 <<< ((state.cursor + cfg.fontWidth - 1) / cfg.blockSize) } := by
      rw [checks, dirtyCheck, if_pos same, ← before]
      rfl
    have first := (tiled.block_lt (show state.cursor < cfg.matrixSize by
      unfold Config.Fits at fits
      omega)).trans_le tiled.bits
    have last := (tiled.block_lt (show state.cursor + cfg.fontWidth - 1 < cfg.matrixSize by
      unfold Config.Fits at fits
      omega)).trans_le tiled.bits
    rw [writes]
    intro index clean _
    dsimp only at clean ⊢
    rw [getLsbD_mark last, getLsbD_mark first, Bool.or_eq_false_iff, Bool.or_eq_false_iff,
      decide_eq_false_iff_not, decide_eq_false_iff_not] at clean
    refine ⟨clean.1.1, outside index fun member => ?_⟩
    rcases tiled.spans member with here | there
    · exact clean.1.2 here.symm
    · exact clean.2 there.symm

theorem marked_setCursor (index : ℕ) : Marked (setCursor index : Oled cfg Unit) :=
  marked_of_same fun _ => ⟨rfl, rfl⟩

theorem marked_writeBlanks (tiled : cfg.Tiled) (remaining : ℕ) :
    Marked (writeBlanks cfg remaining) := by
  induction remaining with
  | zero => exact marked_pure
  | succ remaining ih => exact (marked_writeGlyph tiled space false).bind ih

theorem marked_advancePage (tiled : cfg.Tiled) (clear : Bool) :
    Marked (oledAdvancePage cfg clear) := by
  refine Marked.of_get (fun _ => rfl) fun index => ?_
  cases clear with
  | true => exact marked_writeBlanks tiled _
  | false => exact marked_setCursor _

theorem marked_writeChar (tiled : cfg.Tiled) (data : BitVec 8) (invert : Bool) :
    Marked (oledWriteChar cfg data invert) := by
  unfold oledWriteChar
  split
  · exact marked_advancePage tiled true
  · split
    · exact marked_advancePage tiled false
    · exact marked_writeGlyph tiled data invert

theorem marked_pan (tiled : cfg.Tiled) (left : Bool) : Marked (oledPan cfg left) := by
  intro state _ index clean inside
  have dirty : ((oledPan cfg left).after state).dirty = cfg.allBlocks := rfl
  rw [dirty, getLsbD_allBlocks tiled.bits (tiled.block_lt inside)] at clean
  cases clean

/-- Everything that draws marks what it changes. -/
theorem marked_draw (tiled : cfg.Tiled) (call : Call) : Marked (draw cfg call) := by
  cases call with
  | setCursor col line => exact marked_setCursor _
  | advancePage clear => exact marked_advancePage tiled clear
  | advanceChar => exact Marked.of_get (fun _ => rfl) fun _ => marked_setCursor _
  | writeChar data invert => exact marked_writeChar tiled data invert
  | write text invert => exact marked_forEach _ fun data => marked_writeChar tiled data invert
  | writeLn text invert =>
    exact (marked_forEach _ fun data => marked_writeChar tiled data invert).bind
      (marked_advancePage tiled true)
  | writeRaw data size =>
    exact Marked.of_get (fun _ => rfl) fun _ => marked_forEach _ fun _ => marked_putByte tiled _ _
  | writeRawByte data index => exact marked_putByte tiled _ _
  | writePixel x y on =>
    simp only [draw, oledWritePixel]
    split
    · exact marked_pure
    · split
      · exact marked_pure
      · exact Marked.of_get (fun _ => rfl) fun _ => marked_putByte tiled _ _
  | pan left => exact marked_pan tiled left

end Marking

section Transfers

/-- A rotated block depends on the bytes of the block only. -/
theorem rotate90_congr {block other : ℕ → BitVec 8} {source : ℕ}
    (same : ∀ i < 8, block (source + i) = other (source + i)) (target : ℕ)
    (dest : ℕ → BitVec 8) : rotate90 block source target dest = rotate90 other source target dest := by
  unfold rotate90
  refine List.foldl_ext _ _ _ fun dest i _ => List.foldl_ext _ _ _ fun dest j member => ?_
  rw [same j (List.mem_range.mp member)]

theorem payload_congr (tiled : cfg.Tiled) {block other : ℕ → BitVec 8}
    (same : ∀ i < cfg.blockSize, block i = other i) : payload cfg block = payload cfg other := by
  unfold payload
  split
  · rename_i rotated
    have rotates : (cfg.sourceMap.zip cfg.targetMap).foldl
        (fun tempBuffer maps => rotate90 block maps.1 maps.2 tempBuffer) (fun _ => 0) =
      (cfg.sourceMap.zip cfg.targetMap).foldl
        (fun tempBuffer maps => rotate90 other maps.1 maps.2 tempBuffer) fun _ => 0 := by
      refine List.foldl_ext _ _ _ fun tempBuffer maps member => ?_
      have source := tiled.sources rotated maps.1 (List.of_mem_zip member).1
      exact rotate90_congr (fun i below => same _ (by omega)) _ _
    rw [rotates]
  · exact List.map_congr_left fun i member => same i (List.mem_range.mp member)

/-- Every block that is not dirty is on the display as it is in the buffer. -/
def Clean (cfg : Config) (watched : Watched cfg) : Prop :=
  ∀ block < cfg.blockCount, watched.state.dirty.getLsbD block = false →
    watched.sent block = some (payload cfg (watched.state.block block))

theorem Config.Tiled.index_lt (tiled : cfg.Tiled) {block i : ℕ} (inside : block < cfg.blockCount)
    (below : i < cfg.blockSize) : cfg.blockSize * block + i < cfg.matrixSize := by
  have next := Nat.mul_le_mul_left cfg.blockSize (Nat.succ_le_of_lt inside)
  rw [Nat.succ_eq_add_one, Nat.mul_add, Nat.mul_one, Nat.mul_comm _ cfg.blockCount,
    tiled.covers] at next
  omega

theorem Config.Tiled.block_index (tiled : cfg.Tiled) (block : ℕ) {i : ℕ}
    (below : i < cfg.blockSize) : (cfg.blockSize * block + i) / cfg.blockSize = block := by
  rw [Nat.mul_add_div tiled.blockSize_pos, Nat.div_eq_of_lt below, Nat.add_zero]

/-- What marks its changes keeps the clean blocks. -/
theorem clean_of_marks (tiled : cfg.Tiled) {watched : Watched cfg} (holds : Clean cfg watched)
    {after : State cfg} (marks : Marks cfg watched.state after) :
    Clean cfg { watched with state := after } := by
  intro block inside clean
  have each (i : ℕ) (below : i < cfg.blockSize) := marks (cfg.blockSize * block + i)
    (by rw [tiled.block_index block below]; exact clean) (tiled.index_lt inside below)
  have before := (each 0 tiled.blockSize_pos).1
  rw [tiled.block_index block tiled.blockSize_pos] at before
  rw [holds block inside before]
  exact congrArg some (payload_congr tiled fun i below => ((each i below).2).symm)

theorem clean_of_allDirty (tiled : cfg.Tiled) (watched : Watched cfg)
    (dirty : watched.state.dirty = cfg.allBlocks) : Clean cfg watched := by
  intro block inside clean
  rw [dirty, getLsbD_allBlocks tiled.bits inside] at clean
  cases clean

theorem clean_startScrolling {watched : Watched cfg} (holds : Clean cfg watched) (sent : Bool) :
    Clean cfg { watched with state := startScrolling cfg watched.state sent } := by
  unfold startScrolling
  split <;> exact holds

theorem clean_scrollOff (tiled : cfg.Tiled) {watched : Watched cfg} (holds : Clean cfg watched)
    (sent : Bool) : Clean cfg { watched with state := oledScrollOff cfg watched.state sent } := by
  unfold oledScrollOff
  split
  · exact clean_of_allDirty tiled _ rfl
  · exact holds

/-- A block is only cleaned behind a transfer of what is in the buffer. -/
theorem clean_render (tiled : cfg.Tiled) {watched : Watched cfg} (holds : Clean cfg watched)
    (boundsSent dataSent onSent : Bool) :
    Clean cfg (watchStep cfg watched (.render boundsSent dataSent onSent)) := by
  have masked : Clean cfg { watched with
      state := { watched.state with dirty := watched.state.dirty &&& cfg.allBlocks } } := by
    intro block inside clean
    dsimp only at clean ⊢
    rw [BitVec.getLsbD_and, getLsbD_allBlocks tiled.bits inside, Bool.and_true] at clean
    exact holds block inside clean
  simp only [watchStep, oledRender]
  cases found : (List.range cfg.blockBits).find?
      (watched.state.dirty &&& cfg.allBlocks).getLsbD with
  | none => exact masked
  | some updateStart =>
    have bits : updateStart < cfg.blockBits :=
      List.mem_range.mp (List.mem_of_find?_eq_some found)
    dsimp only
    by_cases stops : (watched.state.scrolling || !boundsSent || !dataSent) = true
    · rw [if_pos stops]
      exact masked
    · rw [if_neg stops]
      have turned (state : State cfg) :
          (oledOn cfg state onSent).buffer = state.buffer ∧
            (oledOn cfg state onSent).dirty = state.dirty := by
        unfold oledOn
        split <;> exact ⟨rfl, rfl⟩
      intro block inside clean
      dsimp only at clean ⊢
      rw [(turned _).2, BitVec.getLsbD_and, BitVec.getLsbD_not, ← BitVec.twoPow_eq,
        BitVec.getLsbD_twoPow] at clean
      have shown : (({ oledOn cfg { watched.state with
          dirty := watched.state.dirty &&& cfg.allBlocks } onSent with
            dirty := (oledOn cfg { watched.state with
              dirty := watched.state.dirty &&& cfg.allBlocks } onSent).dirty &&&
                ~~~(BitVec.ofNat _ 1 <<< updateStart) } : State cfg).block block) =
          watched.state.block block := by
        unfold State.block
        dsimp only
        rw [(turned _).1]
      rw [shown]
      by_cases here : block = updateStart
      · subst here
        rw [Function.update_self]
        rfl
      · have before : (watched.state.dirty &&& cfg.allBlocks).getLsbD block = false := by
          have apart : updateStart ≠ block := fun same => here same.symm
          have width := inside.trans_le tiled.bits
          simpa [apart, width] using clean
        rw [Function.update_of_ne here]
        exact masked block inside before

theorem clean_step (tiled : cfg.Tiled) {watched : Watched cfg} (holds : Clean cfg watched)
    {event : Event} (inBuffer : ∀ call, event = .draw call → InBuffer cfg watched.state call) :
    Clean cfg (watchStep cfg watched event) := by
  cases event with
  | draw call =>
    exact clean_of_marks tiled holds (marked_draw tiled call watched.state (inBuffer call rfl))
  | clear => exact clean_of_allDirty tiled _ rfl
  | scrollRight sent => exact clean_startScrolling holds sent
  | scrollLeft sent => exact clean_startScrolling holds sent
  | scrollOff sent => exact clean_scrollOff tiled holds sent
  | render boundsSent dataSent onSent => exact clean_render tiled holds boundsSent dataSent onSent

end Transfers

/-- In every run whose drawing stays inside of the buffer, whatever transfers fail, each block
that is not dirty is on the display as it is in the buffer. -/
theorem clean_blocks_shown (tiled : cfg.Tiled) {events : List Event}
    (inBuffer : Along (watchStep cfg)
      (fun watched event => ∀ call, event = .draw call → InBuffer cfg watched.state call) {} events) :
    Clean cfg (run (watchStep cfg) {} events) :=
  run_invariant
    (fun (watched : Watched cfg) _ (holds : Clean cfg watched) inside => clean_step tiled holds inside)
    (clean_of_allDirty tiled ({} : Watched cfg) rfl) inBuffer

theorem tiled_smallDisplay : smallDisplay.Tiled where
  covers := by decide
  narrow := by decide
  bits := by decide
  sources := by decide

/-- A character is drawn, the first transfer succeeds and the second one fails. -/
theorem character_shown :
    Clean smallDisplay (run (watchStep smallDisplay) {}
      [.draw (.writeChar 65 false), .render true true true, .render true false true]) := by
  have inside : InBuffer smallDisplay {} (.writeChar 65 false) :=
    (inBuffer_iff smallDisplay.matrixSize_pos _).mpr (.inl (by decide))
  refine clean_blocks_shown tiled_smallDisplay ⟨?_, ?_, ?_, trivial⟩
  · rintro call same
    cases same
    exact inside
  · rintro call same
    cases same
  · rintro call same
    cases same

end QmkSonix.Oled
