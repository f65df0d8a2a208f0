import QmkSonix.Ws2812.Model

/-! Whether the LEDs read from the buffer what `ws2812_setleds` was called with. -/

namespace QmkSonix.Ws2812

open QmkSonix.Lib

/-! ### A byte of a colour -/

section Bytes

variable {txbuf other : Txbuf} {start : ℕ} {data : BitVec 8}

theorem setByte_apply (start : ℕ) (data : BitVec 8) (txbuf : Txbuf) (address : ℕ) :
    setByte start data txbuf address =
      if start ≤ address ∧ address < start + 4 then getProtocolEq data (address - start)
      else txbuf address := by
  have places : List.range 4 = [0, 1, 2, 3] := rfl
  simp only [setByte, places, List.map_cons, List.map_nil, overlay_cons, overlay_nil,
    Function.update_apply]
  split_ifs with third second first zeroth inside <;>
    first | omega | rfl | (congr 1; omega)

theorem setByte_of_outside {address : ℕ} (outside : address < start ∨ start + 4 ≤ address) :
    setByte start data txbuf address = txbuf address := by
  rw [setByte_apply, if_neg (by omega)]

theorem readByte_congr (same : ∀ j < 4, txbuf (start + j) = other (start + j)) :
    readByte txbuf start = readByte other start := by
  have places : List.range 4 = [0, 1, 2, 3] := rfl
  simp only [readByte, places, List.flatMap_cons, List.flatMap_nil, same 0 (by decide),
    same 1 (by decide), same 2 (by decide), same 3 (by decide)]

theorem readByte_getProtocolEq : ∀ data : BitVec 8, readByte (getProtocolEq data) 0 = some data := by
  decide +kernel

/-- What is written for a byte is read as that byte. -/
theorem readByte_setByte (start : ℕ) (data : BitVec 8) (txbuf : Txbuf) :
    readByte (setByte start data txbuf) start = some data := by
  rw [← readByte_getProtocolEq data]
  have places : List.range 4 = [0, 1, 2, 3] := rfl
  have written (j : ℕ) (inside : j < 4) :
      setByte start data txbuf (start + j) = getProtocolEq data (0 + j) := by
    rw [setByte_apply, if_pos (by omega), Nat.add_sub_cancel_left, Nat.zero_add]
  simp only [readByte, places, List.flatMap_cons, List.flatMap_nil, written 0 (by decide),
    written 1 (by decide), written 2 (by decide), written 3 (by decide)]

/-- No symbol is zero. -/
theorem readByte_of_zero (zero : txbuf start = 0) : readByte txbuf start = none := by
  have places : List.range 4 = [0, 1, 2, 3] := rfl
  simp only [readByte, places, List.flatMap_cons, Nat.add_zero, zero]
  rfl

end Bytes

/-! ### The loop -/

section Loop

variable {build : Build}

/-- The buffer after so many rounds -/
def Call.lit (call : Call build) (txbuf : Txbuf) : ℕ → Txbuf
  | 0 => txbuf
  | i + 1 => setLedColorRgb build (call.ledarray i) i (call.lit txbuf i)

theorem loop_lit (call : Call build) (short : call.leds.toNat < 256) (txbuf : Txbuf) {left : ℕ}
    (within : left ≤ call.leds.toNat) :
    loop call.round (left + 1)
      (BitVec.ofNat 8 (call.leds.toNat - left), call.lit txbuf (call.leds.toNat - left)) =
        some ([], call.lit txbuf call.leds.toNat) := by
  induction left with
  | zero =>
    have counter : (BitVec.ofNat 8 call.leds.toNat).toNat = call.leds.toNat :=
      Nat.mod_eq_of_lt short
    rw [Nat.sub_zero, loop, Call.round, if_neg (by omega)]
  | succ left ih =>
    have counter : (BitVec.ofNat 8 (call.leds.toNat - (left + 1))).toNat =
        call.leds.toNat - (left + 1) := Nat.mod_eq_of_lt (by omega)
    have next : call.leds.toNat - (left + 1) + 1 = call.leds.toNat - left := by omega
    have advanced : BitVec.ofNat 8 (call.leds.toNat - (left + 1)) + 1 =
        BitVec.ofNat 8 (call.leds.toNat - left) := by
      rw [← next]
      exact (BitVec.ofNat_add _ _).symm
    have lit : setLedColorRgb build (call.ledarray (call.leds.toNat - (left + 1)))
        (call.leds.toNat - (left + 1)) (call.lit txbuf (call.leds.toNat - (left + 1))) =
          call.lit txbuf (call.leds.toNat - left) := by
      rw [← next]
      rfl
    rw [loop, Call.round, if_pos (by omega), counter, lit, advanced]
    simp only [ih (by omega)]
    rfl

/-- A byte counts no further than 255. -/
theorem loop_forever (call : Call build) (long : 256 ≤ call.leds.toNat) (rounds : ℕ)
    (state : BitVec 8 × Txbuf) : loop call.round rounds state = none := by
  induction rounds generalizing state with
  | zero => rfl
  | succ rounds ih =>
    have below : state.1.toNat < call.leds.toNat := state.1.isLt.trans_le long
    rw [loop, Call.round, if_pos below]
    simp only [ih, Option.map_none]

theorem ws2812Setleds_iff (txbuf after : Txbuf) (call : Call build) :
    (∃ rounds, ws2812Setleds txbuf call rounds = some after) ↔
      call.leds.toNat < 256 ∧ after = call.lit txbuf call.leds.toNat := by
  constructor
  · rintro ⟨rounds, ends⟩
    obtain ⟨done, looped, rfl⟩ := Option.map_eq_some_iff.mp ends
    have short : call.leds.toNat < 256 := by
      by_contra long
      rw [loop_forever call (Nat.le_of_not_lt long)] at looped
      cases looped
    have expected := loop_lit call short txbuf (Nat.le_refl _)
    rw [Nat.sub_self] at expected
    rw [loop_unique looped expected]
    exact ⟨short, rfl⟩
  · rintro ⟨short, rfl⟩
    have ends := loop_lit call short txbuf (Nat.le_refl _)
    rw [Nat.sub_self] at ends
    exact ⟨call.leds.toNat + 1, congrArg (Option.map Prod.snd) ends⟩

end Loop

/-! ### RGB builds -/

section Rgb

variable {build : Build}

theorem bytesForLed_rgb (rgb : build.rgbw = false) : build.bytesForLed = 12 := by
  simp [Build.bytesForLed, Build.channels, bytesForLedByte, rgb]

/-- The colours of an LED are read from its place. -/
theorem decoded_setLedColorRgb (rgb : build.rgbw = false) (color : LedType) (pos : ℕ)
    (txbuf : Txbuf) : (List.range build.channels).map
      (fun c => readByte (setLedColorRgb build color pos txbuf) (build.start pos c)) =
        (build.inOrder color).map some := by
  have channels : List.range build.channels = [0, 1, 2] := by
    simp [Build.channels, rgb, List.range_succ]
  generalize arranged : build.byteOrder.arrange color = ordered
  obtain ⟨first, second, third⟩ := ordered
  simp only [channels, Build.inOrder, arranged, rgb, setLedColorRgb, Build.start, bytesForLedByte,
    Bool.false_eq_true, if_false, List.map_cons, List.map_nil, Nat.mul_zero, Nat.mul_one,
    Nat.add_zero]
  generalize preambleSize + build.bytesForLed * pos = start
  have zeroth : readByte (setByte (start + 4 * 2) third (setByte (start + 4) second
      (setByte start first txbuf))) start = some first := by
    rw [← readByte_setByte start first txbuf]
    refine readByte_congr fun j inside => ?_
    rw [setByte_of_outside (by omega), setByte_of_outside (by omega)]
  have middle : readByte (setByte (start + 4 * 2) third (setByte (start + 4) second
      (setByte start first txbuf))) (start + 4) = some second := by
    rw [← readByte_setByte (start + 4) second (setByte start first txbuf)]
    refine readByte_congr fun j inside => ?_
    rw [setByte_of_outside (by omega)]
  rw [zeroth, middle, Nat.mul_comm 4 2, readByte_setByte]

theorem setLedColorRgb_of_outside (rgb : build.rgbw = false) (color : LedType) (pos : ℕ)
    (txbuf : Txbuf) {address : ℕ}
    (outside : address < preambleSize + 12 * pos ∨ preambleSize + 12 * (pos + 1) ≤ address) :
    setLedColorRgb build color pos txbuf address = txbuf address := by
  generalize arranged : build.byteOrder.arrange color = ordered
  obtain ⟨first, second, third⟩ := ordered
  simp only [setLedColorRgb, arranged, rgb, Bool.false_eq_true, if_false, bytesForLed_rgb rgb,
    bytesForLedByte]
  rw [setByte_of_outside (by omega), setByte_of_outside (by omega), setByte_of_outside (by omega)]

theorem lit_of_outside (rgb : build.rgbw = false) (call : Call build) (txbuf : Txbuf) {count : ℕ}
    {address : ℕ} (outside : address < preambleSize ∨ preambleSize + 12 * count ≤ address) :
    call.lit txbuf count address = txbuf address := by
  induction count with
  | zero => rfl
  | succ count ih => rw [Call.lit, setLedColorRgb_of_outside rgb _ _ _ (by omega), ih (by omega)]

/-- The LEDs that have been written keep their colours while others are written. -/
theorem decoded_lit (rgb : build.rgbw = false) (call : Call build) (txbuf : Txbuf) {count i : ℕ}
    (before : i < count) : (List.range build.channels).map
      (fun c => readByte (call.lit txbuf count) (build.start i c)) =
        (build.inOrder (call.ledarray i)).map some := by
  induction count with
  | zero => exact absurd before (Nat.not_lt_zero i)
  | succ count ih =>
    rcases Nat.lt_succ_iff_lt_or_eq.mp before with earlier | rfl
    · rw [← ih earlier]
      refine List.map_congr_left fun c channel => readByte_congr fun j inside => ?_
      have third : c < 3 := by simpa [Build.channels, rgb] using channel
      rw [Call.lit, setLedColorRgb_of_outside rgb]
      simp only [Build.start, bytesForLed_rgb rgb, bytesForLedByte]
      omega
    · exact decoded_setLedColorRgb rgb _ _ _

theorem shows_rgb (rgb : build.rgbw = false) (call : Call build) {txbuf : Txbuf}
    (paused : ∀ j < build.resetSize, txbuf (preambleSize + build.dataSize + j) = 0) :
    Shows txbuf call (call.lit txbuf call.leds.toNat) where
  decoded := fun i below => decoded_lit rgb call txbuf below
  kept := fun i above _ j _ => by
    apply lit_of_outside rgb
    simp only [Build.start, bytesForLed_rgb rgb]
    omega
  reset := fun j inside => by
    have bounded := call.bounded
    rw [lit_of_outside rgb]
    · exact paused j inside
    · rw [Build.dataSize, bytesForLed_rgb rgb]
      omega

end Rgb

/-! ### RGBW builds -/

section Rgbw

variable {build : Build}

/-- Nothing is ever written to the place of the white of the first LED. -/
theorem lit_white (rgbw : build.rgbw = true) (call : Call build) (txbuf : Txbuf) (count : ℕ) :
    call.lit txbuf count (build.start 0 3) = txbuf (build.start 0 3) := by
  have size : build.bytesForLed = 16 := by
    simp [Build.bytesForLed, Build.channels, bytesForLedByte, rgbw]
  have place : build.start 0 3 = 16 := by simp [Build.start, preambleSize, bytesForLedByte]
  rw [place]
  induction count with
  | zero => rfl
  | succ count ih =>
    generalize arranged : build.byteOrder.arrange (call.ledarray count) = ordered
    obtain ⟨first, second, third⟩ := ordered
    simp only [Call.lit, setLedColorRgb, arranged, rgbw, if_true, size, preambleSize,
      bytesForLedByte]
    rw [setByte_of_outside (by omega), setByte_of_outside (by omega),
      setByte_of_outside (by omega), setByte_of_outside (by omega), ih]

theorem not_shows_rgbw (rgbw : build.rgbw = true) (call : Call build)
    (lights : 0 < call.leds.toNat) {txbuf : Txbuf} (unwritten : txbuf (build.start 0 3) = 0) :
    ¬Shows txbuf call (call.lit txbuf call.leds.toNat) := by
  intro shows
  have channels : List.range build.channels = [0, 1, 2, 3] := by
    simp [Build.channels, rgbw, List.range_succ]
  have decoded := shows.decoded 0 lights
  have white := readByte_of_zero ((lit_white rgbw call txbuf call.leds.toNat).trans unwritten)
  simp only [channels, Build.inOrder, rgbw, if_true, List.map_cons, white, List.cons.injEq,
    reduceCtorEq, false_and, and_false] at decoded

end Rgbw

/-! ### Every run -/

section Runs

variable {build : Build}

/-- The pause is zero, and so is the white of the first LED. -/
structure Blank (build : Build) (txbuf : Txbuf) : Prop where
  paused : ∀ j < build.resetSize, txbuf (preambleSize + build.dataSize + j) = 0
  unwritten : build.rgbw = true → txbuf (build.start 0 3) = 0

/-- A call ends and shows its colours exactly if it fits. -/
theorem shows_iff (call : Call build) {txbuf : Txbuf} (blank : Blank build txbuf) :
    call.leds.toNat < 256 ∧ Shows txbuf call (call.lit txbuf call.leds.toNat) ↔ Fits call := by
  unfold Fits
  cases kind : build.rgbw with
  | false =>
    rw [if_neg Bool.false_ne_true]
    exact ⟨fun shown => shown.1, fun short => ⟨short, shows_rgb kind call blank.paused⟩⟩
  | true =>
    rw [if_pos rfl]
    constructor
    · rintro ⟨-, shows⟩
      by_contra lights
      have positive : 0 < call.leds.toNat := Nat.pos_of_ne_zero fun zero =>
        lights (BitVec.eq_of_toNat_eq zero)
      exact not_shows_rgbw kind call positive (blank.unwritten kind) shows
    · intro dark
      have zero : call.leds.toNat = 0 := congrArg BitVec.toNat dark
      rw [zero]
      refine ⟨by decide, ⟨fun i below => ?_, fun _ _ _ _ _ => rfl, blank.paused⟩⟩
      rw [zero] at below
      exact absurd below (Nat.not_lt_zero i)

theorem blank_lit {call : Call build} {txbuf : Txbuf} (blank : Blank build txbuf)
    (shows : Shows txbuf call (call.lit txbuf call.leds.toNat)) :
    Blank build (call.lit txbuf call.leds.toNat) where
  paused := shows.reset
  unwritten := fun rgbw => (lit_white rgbw call txbuf _).trans (blank.unwritten rgbw)

theorem decodes_iff {txbuf : Txbuf} (blank : Blank build txbuf) (calls : List (Call build)) :
    Decodes txbuf calls ↔ ∀ call ∈ calls, Fits call := by
  induction calls generalizing txbuf with
  | nil => simp [Decodes]
  | cons call rest ih =>
    rw [List.forall_mem_cons, ← shows_iff call blank]
    constructor
    · rintro ⟨rounds, after, ends, shows, later⟩
      obtain ⟨short, rfl⟩ := (ws2812Setleds_iff txbuf after call).mp ⟨rounds, ends⟩
      exact ⟨⟨short, shows⟩, (ih (blank_lit blank shows)).mp later⟩
    · rintro ⟨⟨short, shows⟩, later⟩
      obtain ⟨rounds, ends⟩ := (ws2812Setleds_iff txbuf _ call).mpr ⟨short, rfl⟩
      exact ⟨rounds, _, ends, shows, (ih (blank_lit blank shows)).mpr later⟩

/-- From a buffer of zeros, every call of a run ends and shows its colours exactly if no call has
256 LEDs or more and, with white, none has any. -/
theorem decodes_iff_fits (build : Build) (calls : List (Call build)) :
    Decodes (fun _ => 0) calls ↔ ∀ call ∈ calls, Fits call :=
  decodes_iff ⟨fun _ _ => rfl, fun _ => rfl⟩ calls

/-- A white LED in an RGBW build, and 256 LEDs in any -/
theorem white_and_many_leds_break :
    ¬Decodes (fun _ => 0) [(⟨fun _ => ⟨0, 0, 0, 255⟩, 1, by decide⟩ : Call ⟨1, .grb, true, 280, 1250⟩)] ∧
      ¬Decodes (fun _ => 0) [(⟨fun _ => ⟨0, 0, 0, 0⟩, 256, by decide⟩ :
        Call ⟨256, .grb, false, 280, 1250⟩)] := by
  constructor
  · intro decodes
    have fits := (decodes_iff ⟨fun _ _ => rfl, fun _ => rfl⟩ _).mp decodes _ List.mem_cons_self
    exact absurd fits (by decide)
  · intro decodes
    have fits := (decodes_iff ⟨fun _ _ => rfl, fun _ => rfl⟩ _).mp decodes _ List.mem_cons_self
    exact absurd fits (by decide)

end Runs

end QmkSonix.Ws2812
