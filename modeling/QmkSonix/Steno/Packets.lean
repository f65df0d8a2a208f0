import Mathlib.Algebra.BigOperators.Group.List.Basic
import QmkSonix.Lib.Codewords
import QmkSonix.Lib.Run
import QmkSonix.Steno.Model

/-! What the packets of a stream of steno chords denote. -/

namespace QmkSonix.Steno

open InformationTheory QmkSonix.Lib

section Denotation

/-- The byte of a chord that a key is part of -/
def slotOf : Mode → StenoKey → Fin 6
  | .bolt, key => txbGetGroup (boltmap key)
  | .gemini, key => ⟨key.val / 7, slot_lt key⟩

/-- The bits that a key sets there -/
def bitsOf : Mode → StenoKey → BitVec 8
  | .bolt, key => boltmap key
  | .gemini, key => 1#8 <<< (6 - key.val % 7)

/-- Two keys stand for one steno function. A key without a Bolt code stands for none. -/
def SameFunction : Mode → StenoKey → StenoKey → Prop
  | .bolt, first, second => boltmap first ≠ 0 ∧ boltmap first = boltmap second
  | .gemini, first, second => first = second

/-- A packet of the protocol: with TX Bolt bytes that are not zero, in ascending order of their
groups, and a zero byte; with GeminiPR six bytes of which only the first has its bit 7 set -/
def WellFormed : Mode → List (BitVec 8) → Prop
  | .bolt, packet => ∃ groups, packet = groups ++ [0] ∧ 0 ∉ groups ∧
      groups.Pairwise (fun first second => txbGetGroup first < txbGetGroup second)
  | .gemini, packet => packet.length = 6 ∧
      ∀ slot < 6, (packet.getD slot 0).getLsbD 7 = decide (slot = 0)

/-- A packet shows the function of a key. -/
def Shows : Mode → List (BitVec 8) → StenoKey → Prop
  | .bolt, packet, key => boltmap key ≠ 0 ∧ ∃ byte ∈ packet,
      txbGetGroup byte = txbGetGroup (boltmap key) ∧ byte &&& boltmap key = boltmap key
  | .gemini, packet, key => (packet.getD (key.val / 7) 0).getLsbD (6 - key.val % 7) = true

/-- The functions that a packet shows are those of the keys. -/
def Denotes (mode : Mode) (packet : List (BitVec 8)) (keys : List StenoKey) : Prop :=
  ∀ key, Shows mode packet key ↔ ∃ pressed ∈ keys, SameFunction mode pressed key

/-- A stream of packets splits in one way. -/
theorem uniquelyDecodable (mode : Mode) : UniquelyDecodable {packet | WellFormed mode packet} := by
  cases mode with
  | bolt =>
    have stopped (packet) (fine : packet ∈ {packet | WellFormed .bolt packet}) :
        ∃ groups, (0 : BitVec 8) ∉ groups ∧ packet = groups ++ [0] := by
      obtain ⟨groups, same, clean, -⟩ := fine
      exact ⟨groups, clean, same⟩
    exact (prefixFree_of_stop stopped).uniquelyDecodable
  | gemini =>
    have sized (packet) (fine : packet ∈ {packet | WellFormed .gemini packet}) :
        packet.length = 6 := fine.1
    exact (prefixFree_of_length (Nat.succ_pos 5) sized).uniquelyDecodable

end Denotation

section Chords

/-- The bytes of a chord hold the bits of the keys that were pressed. -/
def Collected (mode : Mode) (keys : List StenoKey) (chord : Fin 6 → BitVec 8) : Prop :=
  ∀ slot bit, (chord slot).getLsbD bit = true ↔
    ∃ key ∈ keys, slotOf mode key = slot ∧ (bitsOf mode key).getLsbD bit = true

theorem collected_nil (mode : Mode) : Collected mode [] fun _ => 0 := by
  intro slot bit
  simp

theorem Collected.press {mode : Mode} {keys : List StenoKey} {chord : Fin 6 → BitVec 8}
    (collected : Collected mode keys chord) (key : StenoKey) :
    Collected mode (keys ++ [key])
      (Function.update chord (slotOf mode key) (chord (slotOf mode key) ||| bitsOf mode key)) := by
  intro slot bit
  by_cases same : slot = slotOf mode key
  · subst same
    rw [Function.update_self, BitVec.getLsbD_or, Bool.or_eq_true, collected]
    simp [or_and_right, exists_or]
  · rw [Function.update_of_ne same, collected]
    simp [or_and_right, exists_or, Ne.symm same]

theorem txbGetGroup_val (code : BitVec 8) :
    (txbGetGroup code).val = (code.getLsbD 6).toNat + 2 * (code.getLsbD 7).toNat := by
  revert code
  decide +kernel

/-- Two keys of one group that share a bit of their functions have one code. -/
theorem boltmap_eq (first second : StenoKey)
    (group : txbGetGroup (boltmap first) = txbGetGroup (boltmap second)) (bit : Fin 6)
    (inFirst : (boltmap first).getLsbD bit = true)
    (inSecond : (boltmap second).getLsbD bit = true) : boltmap first = boltmap second := by
  revert first second bit
  decide +kernel

theorem exists_bit (key : StenoKey) (coded : boltmap key ≠ 0) :
    ∃ bit : Fin 6, (boltmap key).getLsbD bit = true := by
  revert key
  decide +kernel

theorem exists_of_ne_zero {byte : BitVec 8} (filled : byte ≠ 0) :
    ∃ bit, byte.getLsbD bit = true := by
  by_contra empty
  refine filled (BitVec.eq_of_getLsbD_eq fun bit _ => ?_)
  have unset : byte.getLsbD bit = false :=
    Bool.eq_false_iff.mpr fun set => empty ⟨bit, set⟩
  rw [unset]
  exact BitVec.getLsbD_zero.symm

theorem txbGetGroup_congr {first second : BitVec 8}
    (six : first.getLsbD 6 = second.getLsbD 6) (seven : first.getLsbD 7 = second.getLsbD 7) :
    txbGetGroup first = txbGetGroup second := by
  apply Fin.ext
  rw [txbGetGroup_val, txbGetGroup_val, six, seven]

/-- Keys of one group have the bits of the group in common. -/
theorem group_bits {first second : BitVec 8} (group : txbGetGroup first = txbGetGroup second) :
    first.getLsbD 6 = second.getLsbD 6 ∧ first.getLsbD 7 = second.getLsbD 7 := by
  have values := congrArg Fin.val group
  rw [txbGetGroup_val, txbGetGroup_val] at values
  generalize first.getLsbD 6 = a, first.getLsbD 7 = b, second.getLsbD 6 = c,
    second.getLsbD 7 = d at values ⊢
  revert a b c d
  decide

/-- What a byte of a Bolt chord holds is of its group. -/
theorem Collected.group {keys : List StenoKey} {chord : Fin 6 → BitVec 8}
    (collected : Collected .bolt keys chord) {slot : Fin 6} (filled : chord slot ≠ 0) :
    txbGetGroup (chord slot) = slot := by
  obtain ⟨bit, set⟩ := exists_of_ne_zero filled
  obtain ⟨key, member, rfl, -⟩ := (collected slot bit).mp set
  have agree (bit : ℕ)
      (common : ∀ other, txbGetGroup (boltmap other) = txbGetGroup (boltmap key) →
        (boltmap other).getLsbD bit = (boltmap key).getLsbD bit) :
      (chord (slotOf .bolt key)).getLsbD bit = (boltmap key).getLsbD bit := by
    rw [Bool.eq_iff_iff, collected]
    constructor
    · rintro ⟨other, -, group, inOther⟩
      exact (common other group).symm.trans inOther
    · exact fun inKey => ⟨key, member, rfl, inKey⟩
  exact txbGetGroup_congr (agree 6 fun other group => (group_bits group).1)
    (agree 7 fun other group => (group_bits group).2)

theorem mem_boltGroups (chord : Fin 6 → BitVec 8) (byte : BitVec 8) :
    byte ∈ sendStenoState chord 4 false ↔
      byte ≠ 0 ∧ ∃ slot : Fin 6, slot.val < 4 ∧ chord slot = byte := by
  have slots : (List.finRange 6).take 4 = [0, 1, 2, 3] := rfl
  have first (slot : Fin 6) : slot ∈ (List.finRange 6).take 4 ↔ slot.val < 4 := by
    rw [slots]
    revert slot
    decide
  simp only [sendStenoState, List.mem_filter, List.mem_map, first, Bool.or_false, bne_iff_ne]
  exact And.comm

/-- The bytes of a Bolt chord that hold something ascend. -/
theorem Collected.ascending {keys : List StenoKey} {chord : Fin 6 → BitVec 8}
    (collected : Collected .bolt keys chord) :
    (sendStenoState chord 4 false).Pairwise
      (fun first second => txbGetGroup first < txbGetGroup second) := by
  rw [sendStenoState, List.pairwise_filter, List.pairwise_map]
  have ordered := (List.pairwise_lt_finRange 6).sublist (List.take_sublist 4 _)
  refine ordered.imp fun {first second} before inFirst inSecond => ?_
  simp only [Bool.or_false, bne_iff_ne] at inFirst inSecond
  rw [collected.group inFirst, collected.group inSecond]
  exact before

theorem group_lt_four (code : BitVec 8) : (txbGetGroup code).val < 4 := by
  have six := Bool.toNat_le (code.getLsbD 6)
  have seven := Bool.toNat_le (code.getLsbD 7)
  rw [txbGetGroup_val]
  omega

theorem Collected.bolt_denotes {keys : List StenoKey} {chord : Fin 6 → BitVec 8}
    (collected : Collected .bolt keys chord) :
    Denotes .bolt (sendStenoState chord 4 false ++ [0]) keys := by
  intro key
  constructor
  · rintro ⟨coded, byte, member, group, covers⟩
    obtain ⟨bit, inKey⟩ := exists_bit key coded
    have inByte : byte.getLsbD bit = true := by
      have both := congrArg (fun bits : BitVec 8 => bits.getLsbD bit) covers
      simpa [inKey] using both
    rcases List.mem_append.mp member with sent | last
    · obtain ⟨filled, slot, -, rfl⟩ := (mem_boltGroups chord byte).mp sent
      obtain ⟨pressed, among, place, inPressed⟩ := (collected slot bit).mp inByte
      have same : txbGetGroup (boltmap pressed) = txbGetGroup (boltmap key) :=
        place.trans ((collected.group filled).symm.trans group)
      have code := boltmap_eq pressed key same bit inPressed inKey
      exact ⟨pressed, among, code ▸ coded, code⟩
    · rw [List.mem_singleton.mp last] at inByte
      exact absurd inByte (by simp)
  · rintro ⟨pressed, among, coded, code⟩
    have holds (bit : ℕ) (inKey : (boltmap key).getLsbD bit = true) :
        (chord (txbGetGroup (boltmap key))).getLsbD bit = true :=
      (collected _ bit).mpr ⟨pressed, among, congrArg txbGetGroup code,
        (congrArg (fun bits : BitVec 8 => bits.getLsbD bit) code).trans inKey⟩
    obtain ⟨bit, inKey⟩ := exists_bit key (code ▸ coded)
    have filled : chord (txbGetGroup (boltmap key)) ≠ 0 := by
      intro zero
      have set := holds bit inKey
      rw [zero] at set
      exact absurd set (by simp)
    refine ⟨code ▸ coded, chord (txbGetGroup (boltmap key)), ?_, collected.group filled, ?_⟩
    · exact List.mem_append_left _
        ((mem_boltGroups chord _).mpr ⟨filled, _, group_lt_four _, rfl⟩)
    · refine BitVec.eq_of_getLsbD_eq fun bit _ => ?_
      rw [BitVec.getLsbD_and, Bool.and_eq_right_iff_imp]
      exact holds bit

theorem Collected.bolt_wellFormed {keys : List StenoKey} {chord : Fin 6 → BitVec 8}
    (collected : Collected .bolt keys chord) :
    WellFormed .bolt (sendStenoState chord 4 false ++ [0]) :=
  ⟨_, rfl, fun member => ((mem_boltGroups chord 0).mp member).1 rfl, collected.ascending⟩

theorem getLsbD_geminiBit (key : StenoKey) (bit : ℕ) :
    (bitsOf .gemini key).getLsbD bit = decide (bit = 6 - key.val % 7) := by
  have small : 6 - key.val % 7 < 8 := by omega
  rw [bitsOf, ← BitVec.twoPow_eq, BitVec.getLsbD_twoPow]
  simp [small, eq_comm]

theorem sendStenoState_all (chord : Fin 6 → BitVec 8) :
    sendStenoState chord 6 true = (List.finRange 6).map chord := by
  have slots : (List.finRange 6).take 6 = List.finRange 6 := rfl
  rw [sendStenoState, slots]
  simp

/-- The bytes of a GeminiPR packet are those of the chord, of which the first is marked. -/
theorem geminiPacket_getD (chord : Fin 6 → BitVec 8) (slot : Fin 6) :
    (sendStenoState (Function.update chord 0 (chord 0 ||| 0x80)) 6 true).getD slot 0 =
      chord slot ||| (if slot = 0 then 0x80 else 0) := by
  have entry (bytes : Fin 6 → BitVec 8) : ((List.finRange 6).map bytes).getD slot 0 = bytes slot := by
    simp [List.getD_eq_getElem?_getD]
  rw [sendStenoState_all, entry]
  by_cases first : slot = 0
  · subst first
    exact Function.update_self ..
  · rw [if_neg first]
    exact (Function.update_of_ne first ..).trans BitVec.or_zero.symm

theorem getLsbD_mark (slot : Fin 6) (bit : ℕ) :
    (if slot = 0 then (0x80 : BitVec 8) else 0).getLsbD bit =
      (decide (slot = 0) && decide (bit = 7)) := by
  have mark : (0x80 : BitVec 8) = BitVec.twoPow 8 7 := rfl
  by_cases first : slot = 0
  · rw [if_pos first, mark, BitVec.getLsbD_twoPow]
    simp [first, eq_comm]
  · simp [first]

theorem Collected.gemini_denotes {keys : List StenoKey} {chord : Fin 6 → BitVec 8}
    (collected : Collected .gemini keys chord) :
    Denotes .gemini (sendStenoState (Function.update chord 0 (chord 0 ||| 0x80)) 6 true) keys := by
  intro key
  have lower : 6 - key.val % 7 ≠ 7 := by omega
  have read := geminiPacket_getD chord ⟨key.val / 7, slot_lt key⟩
  simp only at read
  rw [Shows, read, BitVec.getLsbD_or, getLsbD_mark, decide_eq_false lower, Bool.and_false,
    Bool.or_false, collected]
  simp only [SameFunction, slotOf, getLsbD_geminiBit, decide_eq_true_eq, Fin.mk.injEq]
  constructor
  · rintro ⟨pressed, among, slot, bit⟩
    have bits := Nat.mod_lt pressed.val (Nat.succ_pos 6)
    have others := Nat.mod_lt key.val (Nat.succ_pos 6)
    exact ⟨pressed, among, Fin.ext (by omega)⟩
  · rintro ⟨pressed, among, rfl⟩
    exact ⟨pressed, among, rfl, rfl⟩

theorem Collected.gemini_wellFormed {keys : List StenoKey} {chord : Fin 6 → BitVec 8}
    (collected : Collected .gemini keys chord) :
    WellFormed .gemini (sendStenoState (Function.update chord 0 (chord 0 ||| 0x80)) 6 true) := by
  refine ⟨by simp [sendStenoState_all], fun slot inside => ?_⟩
  have read := geminiPacket_getD chord ⟨slot, inside⟩
  have clear : (chord ⟨slot, inside⟩).getLsbD 7 = false := by
    rw [Bool.eq_false_iff]
    intro set
    obtain ⟨key, -, -, high⟩ := (collected _ 7).mp set
    rw [getLsbD_geminiBit, decide_eq_true_eq] at high
    omega
  simp only at read
  rw [read, BitVec.getLsbD_or, clear, getLsbD_mark]
  simp [Fin.ext_iff]

end Chords

section Keys

/-- The machine counts the keys that are down and has collected those of the chord. -/
structure Holding (mode : Mode) (count : ℕ) (keys : List StenoKey) (state : State) : Prop where
  protocol : state.mode = mode
  count : state.pressed.toNat = count
  collected : Collected mode keys state.chord

variable {mode : Mode} {count : ℕ} {keys : List StenoKey} {state : State}

theorem Holding.denotes (holding : Holding mode count keys state) :
    WellFormed mode (sendStenoChord state).2 ∧ Denotes mode (sendStenoChord state).2 keys := by
  obtain ⟨same, -, collected⟩ := holding
  cases mode with
  | bolt =>
    simp only [sendStenoChord, same]
    exact ⟨collected.bolt_wellFormed, collected.bolt_denotes⟩
  | gemini =>
    simp only [sendStenoChord, same]
    exact ⟨collected.gemini_wellFormed, collected.gemini_denotes⟩

/-- A chord that is sent is cleared. -/
theorem Holding.sent (holding : Holding mode 0 keys state) :
    Holding mode 0 [] (sendStenoChord state).1 := by
  obtain ⟨same, counted, -⟩ := holding
  cases mode with
  | bolt =>
    simp only [sendStenoChord, same]
    exact ⟨same, counted, collected_nil .bolt⟩
  | gemini =>
    simp only [sendStenoChord, same]
    exact ⟨same, counted, collected_nil .gemini⟩

/-- What either protocol makes of a key -/
theorem processStenoKey_eq (state : State) (key : StenoKey) (press : Bool) :
    processStenoKey state key press =
      let updated := updateState (slotOf state.mode key) (bitsOf state.mode key) state press
      if press then
        ({ updated with pressed := state.pressed + 1 }, [])
      else if (state.pressed - 1).toInt ≤ 0 then
        sendStenoChord { updated with pressed := 0 }
      else
        ({ updated with pressed := state.pressed - 1 }, []) := by
  cases mode : state.mode <;> cases press <;>
    simp [processStenoKey, mode, updateStateBolt, updateStateGemini, updateState, slotOf, bitsOf]

theorem Holding.press (holding : Holding mode count keys state) (room : count < 128)
    (key : StenoKey) :
    Holding mode (count + 1) (keys ++ [key]) (processStenoKey state key true).1 ∧
      (processStenoKey state key true).2 = [] := by
  obtain ⟨same, counted, collected⟩ := holding
  rw [processStenoKey_eq, same]
  refine ⟨⟨same, ?_, collected.press key⟩, rfl⟩
  have one : (1 : BitVec 8).toNat = 1 := rfl
  simp only [updateState, if_true, BitVec.toNat_add, counted, one]
  omega

/-- While other keys are down a release sends nothing. -/
theorem Holding.release (holding : Holding mode count keys state) (others : 1 < count)
    (few : count ≤ 128) (key : StenoKey) :
    Holding mode (count - 1) keys (processStenoKey state key false).1 ∧
      (processStenoKey state key false).2 = [] := by
  obtain ⟨same, counted, collected⟩ := holding
  have less : (state.pressed - 1).toNat = count - 1 := by
    have one : (1 : BitVec 8).toNat = 1 := rfl
    rw [BitVec.toNat_sub, counted, one]
    omega
  have positive : ¬ (state.pressed - 1).toInt ≤ 0 := by
    rw [BitVec.toInt_eq_toNat_cond, less]
    omega
  rw [processStenoKey_eq, same]
  simp only [Bool.false_eq_true, if_false, if_neg positive]
  exact ⟨⟨same, less, collected⟩, trivial⟩

/-- The release of the last key sends the chord. -/
theorem Holding.release_last (holding : Holding mode 1 keys state) (key : StenoKey) :
    Holding mode 0 [] (processStenoKey state key false).1 ∧
      WellFormed mode (processStenoKey state key false).2 ∧
      Denotes mode (processStenoKey state key false).2 keys := by
  obtain ⟨same, counted, collected⟩ := holding
  have one : state.pressed = 1 := BitVec.eq_of_toNat_eq counted
  have none : (state.pressed - 1).toInt ≤ 0 := by
    rw [one]
    decide
  rw [processStenoKey_eq]
  simp only [Bool.false_eq_true, if_false, if_pos none]
  have before : Holding mode 0 keys { updateState (slotOf state.mode key) (bitsOf state.mode key)
      state false with pressed := 0 } := ⟨same, rfl, collected⟩
  exact ⟨before.sent, before.denotes⟩

/-- The steno keys that a keycode stands for -/
def functions : Keycode → List StenoKey
  | .steno key => [key]
  | .combined key => [combinedmapFirst key, combinedmapSecond key]
  | _ => []

/-- How many keys of the counter a keycode is -/
def weight (keycode : Keycode) : ℕ := (functions keycode).length

theorem Holding.press_keycode (holding : Holding mode count keys state) {keycode : Keycode}
    (steno : 0 < weight keycode) (room : count + weight keycode ≤ 128) :
    Holding mode (count + weight keycode) (keys ++ functions keycode)
        (processSteno state keycode true).1 ∧
      (processSteno state keycode true).2.1 = [] := by
  cases keycode with
  | steno key => exact holding.press room key
  | combined key =>
    simp only [weight, functions, List.length_cons, List.length_nil] at room
    obtain ⟨first, firstSent⟩ := holding.press (by omega) (combinedmapFirst key)
    obtain ⟨second, secondSent⟩ := first.press (by omega) (combinedmapSecond key)
    rw [List.append_assoc] at second
    refine ⟨second, ?_⟩
    simp only [processSteno, firstSent, secondSent, List.append_nil]
  | bolt => exact absurd steno (Nat.lt_irrefl 0)
  | gemini => exact absurd steno (Nat.lt_irrefl 0)
  | other keycode => exact absurd steno (Nat.lt_irrefl 0)

theorem Holding.release_keycode (holding : Holding mode count keys state) {keycode : Keycode}
    (steno : 0 < weight keycode) (others : weight keycode < count) (few : count ≤ 128) :
    Holding mode (count - weight keycode) keys (processSteno state keycode false).1 ∧
      (processSteno state keycode false).2.1 = [] := by
  cases keycode with
  | steno key => exact holding.release others few key
  | combined key =>
    simp only [weight, functions, List.length_cons, List.length_nil] at others
    obtain ⟨first, firstSent⟩ := holding.release (by omega) few (combinedmapFirst key)
    obtain ⟨second, secondSent⟩ :=
      first.release (by omega) (by omega) (combinedmapSecond key)
    refine ⟨second, ?_⟩
    simp only [processSteno, firstSent, secondSent, List.append_nil]
  | bolt => exact absurd steno (Nat.lt_irrefl 0)
  | gemini => exact absurd steno (Nat.lt_irrefl 0)
  | other keycode => exact absurd steno (Nat.lt_irrefl 0)

theorem Holding.release_last_keycode {keycode : Keycode} (steno : 0 < weight keycode)
    (holding : Holding mode (weight keycode) keys state) :
    Holding mode 0 [] (processSteno state keycode false).1 ∧
      WellFormed mode (processSteno state keycode false).2.1 ∧
      Denotes mode (processSteno state keycode false).2.1 keys := by
  cases keycode with
  | steno key => exact Holding.release_last holding key
  | combined key =>
    obtain ⟨first, firstSent⟩ := Holding.release holding (Nat.lt_succ_self 1)
      (Nat.le_add_left 2 126) (combinedmapFirst key)
    obtain ⟨second, fine, denotes⟩ := Holding.release_last first (combinedmapSecond key)
    refine ⟨second, ?_⟩
    simp only [processSteno, firstSent, List.nil_append]
    exact ⟨fine, denotes⟩
  | bolt => exact absurd steno (Nat.lt_irrefl 0)
  | gemini => exact absurd steno (Nat.lt_irrefl 0)
  | other keycode => exact absurd steno (Nat.lt_irrefl 0)

end Keys

section Runs

/-- A key is pressed or released. -/
structure Press where
  keycode : Keycode
  press : Bool
  deriving DecidableEq, Repr

/-- A packet with the keys that were pressed for it -/
structure Sent where
  packet : List (BitVec 8)
  keys : List StenoKey

/-- The machine with the keys that are down, what it has sent, the keys that were pressed since
the last key went up, and what was sent whenever it did -/
structure Watched where
  state : State
  held : List Keycode := []
  stream : List (BitVec 8) := []
  keys : List StenoKey := []
  packets : List Sent := []

/-- How many keys of the counter are down -/
def down (held : List Keycode) : ℕ := (held.map weight).sum

def watchStep (watched : Watched) : Press → Watched
  | ⟨keycode, true⟩ =>
    let (state, sent, _) := processSteno watched.state keycode true
    { watched with
      state := state
      stream := watched.stream ++ sent
      held := keycode :: watched.held
      keys := watched.keys ++ functions keycode }
  | ⟨keycode, false⟩ =>
    let (state, sent, _) := processSteno watched.state keycode false
    let released := { watched with
      state := state
      stream := watched.stream ++ sent
      held := watched.held.erase keycode }
    if watched.held.erase keycode = [] then
      { released with keys := [], packets := watched.packets ++ [⟨sent, watched.keys⟩] }
    else
      released

/-- Steno keys are pressed, no more of them are down than are allowed, and a release follows its
press. -/
def Fits (counted : List Keycode → ℕ) (most : ℕ) (watched : Watched) : Press → Prop
  | ⟨keycode, true⟩ => 0 < weight keycode ∧ counted (keycode :: watched.held) ≤ most
  | ⟨keycode, false⟩ => keycode ∈ watched.held

instance (counted : List Keycode → ℕ) (most : ℕ) (watched : Watched) (press : Press) :
    Decidable (Fits counted most watched press) :=
  match press with
  | ⟨keycode, true⟩ =>
    inferInstanceAs (Decidable (0 < weight keycode ∧ counted (keycode :: watched.held) ≤ most))
  | ⟨keycode, false⟩ => inferInstanceAs (Decidable (keycode ∈ watched.held))

/-- The stream is the packets that were sent as the last key went up, each denotes the keys
pressed since the one before, and the stream is no other sequence of packets. -/
structure Decodes (mode : Mode) (watched : Watched) : Prop where
  stream : watched.stream = (watched.packets.map Sent.packet).flatten
  wellFormed : ∀ sent ∈ watched.packets, WellFormed mode sent.packet
  denotes : ∀ sent ∈ watched.packets, Denotes mode sent.packet sent.keys
  unique : ∀ packets : List (List (BitVec 8)), (∀ packet ∈ packets, WellFormed mode packet) →
    packets.flatten = watched.stream → packets = watched.packets.map Sent.packet

/-- Steno keys are down, which the machine counts, and what it has sent are packets. -/
structure Sound (mode : Mode) (watched : Watched) : Prop where
  holding : Holding mode (down watched.held) watched.keys watched.state
  steno : ∀ keycode ∈ watched.held, 0 < weight keycode
  few : down watched.held ≤ 128
  stream : watched.stream = (watched.packets.map Sent.packet).flatten
  fine : ∀ sent ∈ watched.packets,
    WellFormed mode sent.packet ∧ Denotes mode sent.packet sent.keys

variable {mode : Mode} {watched : Watched}

theorem sound_init (mode : Mode) : Sound mode { state := { mode := mode } } where
  holding := ⟨rfl, rfl, collected_nil mode⟩
  steno := fun keycode member => absurd member List.not_mem_nil
  few := Nat.zero_le 128
  stream := rfl
  fine := fun sent member => absurd member List.not_mem_nil

theorem Sound.decodes (sound : Sound mode watched) : Decodes mode watched where
  stream := sound.stream
  wellFormed := fun sent member => (sound.fine sent member).1
  denotes := fun sent member => (sound.fine sent member).2
  unique := by
    intro packets fine same
    refine uniquelyDecodable mode packets _ fine (fun packet member => ?_)
      (same.trans sound.stream)
    obtain ⟨sent, among, rfl⟩ := List.mem_map.mp member
    exact (sound.fine sent among).1

theorem Sound.press (sound : Sound mode watched) {keycode : Keycode} (steno : 0 < weight keycode)
    (room : down (keycode :: watched.held) ≤ 128) :
    Sound mode (watchStep watched ⟨keycode, true⟩) := by
  have total : down (keycode :: watched.held) = down watched.held + weight keycode :=
    Nat.add_comm _ _
  obtain ⟨holding, sent⟩ := sound.holding.press_keycode steno (total ▸ room)
  refine ⟨?_, ?_, room, ?_, sound.fine⟩
  · exact total ▸ holding
  · intro other member
    rcases List.mem_cons.mp member with rfl | before
    · exact steno
    · exact sound.steno other before
  · simp only [watchStep, sent, List.append_nil]
    exact sound.stream

theorem Sound.release (sound : Sound mode watched) {keycode : Keycode}
    (member : keycode ∈ watched.held) : Sound mode (watchStep watched ⟨keycode, false⟩) := by
  have steno := sound.steno keycode member
  have total : weight keycode + down (watched.held.erase keycode) = down watched.held :=
    List.sum_map_erase weight member
  have few := sound.few
  have remain (other : Keycode) (inside : other ∈ watched.held.erase keycode) : 0 < weight other :=
    sound.steno other (List.mem_of_mem_erase inside)
  by_cases last : watched.held.erase keycode = []
  · have alone : down watched.held = weight keycode := by
      rw [← total, last]
      rfl
    obtain ⟨holding, fine, denotes⟩ := Holding.release_last_keycode steno (alone ▸ sound.holding)
    simp only [watchStep, if_pos last]
    refine ⟨?_, ?_, ?_, ?_, ?_⟩
    · simp only [last]
      exact holding
    · simp [last]
    · simp [last, down]
    · simp [sound.stream]
    · intro sent among
      rcases List.mem_append.mp among with before | new
      · exact sound.fine sent before
      · rw [List.mem_singleton.mp new]
        exact ⟨fine, denotes⟩
  · have others : 0 < down (watched.held.erase keycode) := by
      obtain ⟨other, inside⟩ := List.exists_mem_of_ne_nil _ last
      have more : weight other + down ((watched.held.erase keycode).erase other) =
        down (watched.held.erase keycode) := List.sum_map_erase weight inside
      have positive := remain other inside
      omega
    obtain ⟨holding, sent⟩ := sound.holding.release_keycode steno (by omega) few
    simp only [watchStep, if_neg last]
    refine ⟨?_, remain, ?_, ?_, sound.fine⟩
    · have left : down watched.held - weight keycode = down (watched.held.erase keycode) := by
        omega
      exact left ▸ holding
    · simp only
      omega
    · simp only [sent, List.append_nil]
      exact sound.stream

/-- Every run of steno keys decodes to what was pressed, where the counter is not passed. -/
theorem chords_decode (mode : Mode) (presses : List Press)
    (fits : Along watchStep (Fits down 128) { state := { mode := mode } } presses) :
    Decodes mode (run watchStep { state := { mode := mode } } presses) := by
  refine Sound.decodes (run_invariant (fun watched press sound allowed => ?_) (sound_init mode) fits)
  obtain ⟨keycode, press⟩ := press
  cases press with
  | true => exact sound.press allowed.1 allowed.2
  | false => exact sound.release allowed

/-- `S` and `TKL` are pressed and released one within the other. -/
theorem overlapping_chord_decodes :
    Decodes .bolt (run watchStep { state := { mode := .bolt } }
      [⟨.steno stnS1, true⟩, ⟨.combined 1, true⟩, ⟨.steno stnS1, false⟩, ⟨.combined 1, false⟩]) :=
  chords_decode .bolt _ (by decide)

/-- A combined key that is pressed time and again is counted twice each time. -/
theorem run_combined (count : ℕ) :
    let watched := run watchStep { state := { mode := .bolt } }
      (List.replicate count ⟨.combined 0, true⟩)
    watched.state.mode = .bolt ∧ watched.state.pressed = BitVec.ofNat 8 (2 * count) ∧
      watched.held = List.replicate count (.combined 0) ∧ watched.stream = [] ∧
      watched.packets = [] := by
  induction count with
  | zero => exact ⟨rfl, rfl, rfl, rfl, rfl⟩
  | succ count ih =>
    simp only [List.replicate_succ', run_append, run_cons, run_nil]
    generalize run watchStep { state := { mode := .bolt } }
      (List.replicate count ⟨.combined 0, true⟩) = watched at ih ⊢
    obtain ⟨mode, pressed, held, stream, packets⟩ := ih
    refine ⟨?_, ?_, ?_, ?_, packets⟩
    · simpa [watchStep, processSteno, processStenoKey_eq, updateState] using mode
    · have next : BitVec.ofNat 8 (2 * (count + 1)) = BitVec.ofNat 8 (2 * count) + 1 + 1 := by
        apply BitVec.eq_of_toNat_eq
        simp
        omega
      simp only [watchStep, processSteno, processStenoKey_eq, updateState, if_true, pressed, next]
    · simp only [watchStep, held, ← List.replicate_succ, ← List.replicate_succ']
    · simpa [watchStep, processSteno, processStenoKey_eq] using stream

theorem along_combined (count : ℕ) (few : count ≤ 127) :
    Along watchStep (Fits List.length 127) { state := { mode := .bolt } }
      (List.replicate count ⟨.combined 0, true⟩) := by
  induction count with
  | zero => trivial
  | succ count ih =>
    rw [List.replicate_succ', along_append]
    obtain ⟨-, -, held, -, -⟩ := run_combined count
    refine ⟨ih (by omega), ⟨⟨Nat.succ_pos 1, ?_⟩, trivial⟩⟩
    rw [held, List.length_cons, List.length_replicate]
    exact few

/-- Once the counter is not positive the first key to go up sends a packet. -/
theorem early_packet {keycode : Fin 11} (mode : watched.state.mode = .bolt)
    (early : (watched.state.pressed - 1).toInt ≤ 0)
    (others : watched.held.erase (.combined keycode) ≠ []) (stream : watched.stream = [])
    (packets : watched.packets = []) :
    ¬ Decodes .bolt (watchStep watched ⟨.combined keycode, false⟩) := by
  intro decodes
  have split := decodes.stream
  simp only [watchStep, if_neg others, stream, packets, processSteno, processStenoKey_eq,
    Bool.false_eq_true, if_false, if_pos early, sendStenoChord, updateState, mode] at split
  simp at split

/-- A combined key counts as two keys, and 65 of them pass the range of the counter: the first to
go up sends a packet. -/
theorem combined_keys_break :
    Along watchStep (Fits List.length 127) { state := { mode := .bolt } }
        (List.replicate 65 ⟨.combined 0, true⟩ ++ [⟨.combined 0, false⟩]) ∧
      ¬ Decodes .bolt (run watchStep { state := { mode := .bolt } }
        (List.replicate 65 ⟨.combined 0, true⟩ ++ [⟨.combined 0, false⟩])) := by
  obtain ⟨mode, pressed, held, stream, packets⟩ := run_combined 65
  have early : (BitVec.ofNat 8 (2 * 65) - 1).toInt ≤ 0 := by decide
  have others : (List.replicate 65 (.combined 0)).erase (.combined 0) ≠ ([] : List Keycode) := by
    decide
  have down : Keycode.combined 0 ∈ List.replicate 65 (.combined 0) := by decide
  rw [along_append, run_append, run_cons, run_nil]
  refine ⟨⟨along_combined 65 (by decide), ⟨?_, trivial⟩⟩, ?_⟩
  · rw [← held] at down
    exact down
  · rw [← held] at others
    rw [← pressed] at early
    exact early_packet mode early others stream packets

end Runs

end QmkSonix.Steno
