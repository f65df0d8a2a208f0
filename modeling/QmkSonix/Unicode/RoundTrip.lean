import QmkSonix.Lib.CString
import QmkSonix.Unicode.Decode
import Mathlib.Data.List.Forall2
import Mathlib.Data.List.Induction
import Mathlib.Tactic.Ring

/-! What `send_unicode_string` types for a text: the number of every character, between
the start and the finish of one input. -/

namespace QmkSonix.Unicode

open QmkSonix.Lib

/-! ### What a host reads -/

/-- The hexadecimal digit that a key types, on the keypad and by letters in Windows, as a
character elsewhere. -/
def digitOf : Event → Option ℕ
  | .tapCode keycode =>
    if 0x59 ≤ keycode.toNat ∧ keycode.toNat ≤ 0x61 then some (keycode.toNat - 0x58)
    else if keycode.toNat = 0x62 then some 0
    else if 0x04 ≤ keycode.toNat ∧ keycode.toNat ≤ 0x09 then some (keycode.toNat - 0x04 + 10)
    else none
  | .sendChar asciiCode =>
    if 0x30 ≤ asciiCode.toNat ∧ asciiCode.toNat ≤ 0x39 then some (asciiCode.toNat - 0x30)
    else if 0x61 ≤ asciiCode.toNat ∧ asciiCode.toNat ≤ 0x66 then some (asciiCode.toNat - 0x61 + 10)
    else none
  | _ => none

/-- The number that hexadecimal digits denote. -/
def value (digits : List ℕ) : ℕ := digits.foldl (fun number digit => number * 16 + digit) 0

/-- Keys that type digits. -/
def Types (keys : List Event) (digits : List ℕ) : Prop := keys.map digitOf = digits.map some

/-- The digits of a character: one number of at least four digits, or in macOS the two
surrogates of a character above `U+FFFF`, of four digits each. -/
def Denotes (inputMode : BitVec 8) (char : Char) (keys : List Event) : Prop :=
  if 0xFFFF < char.toNat ∧ inputMode = ucMac then
    ∃ high low, Types keys (high ++ low) ∧ high.length = 4 ∧ low.length = 4 ∧
      0xD800 ≤ value high ∧ value high ≤ 0xDBFF ∧ 0xDC00 ≤ value low ∧ value low ≤ 0xDFFF ∧
      0x10000 + (value high - 0xD800) * 0x400 + (value low - 0xDC00) = char.toNat
  else ∃ digits, Types keys digits ∧ 4 ≤ digits.length ∧ value digits = char.toNat

/-- What the host sees of the events. -/
def visible (events : List Event) : List Event :=
  events.filter fun event => match event with
    | .read _ | .registerUnicode _ _ _ => false
    | _ => true

theorem visible_append (first second : List Event) :
    visible (first ++ second) = visible first ++ visible second := List.filter_append ..

/-! ### The digits -/

theorem Types.append {keys later : List Event} {digits more : List ℕ} (first : Types keys digits)
    (second : Types later more) : Types (keys ++ later) (digits ++ more) := by
  rw [Types, List.map_append, List.map_append, first, second]

theorem value_append (digits more : List ℕ) :
    value (digits ++ more) = value digits * 16 ^ more.length + value more := by
  induction more using List.reverseRecOn with
  | nil => simp [value]
  | append_singleton more digit ih =>
    simp only [value, ← List.append_assoc, List.foldl_append, List.foldl_cons, List.foldl_nil,
      List.length_append, List.length_singleton] at ih ⊢
    rw [ih, Nat.pow_succ]
    ring

/-- Every digit types itself, in every mode. -/
theorem nibble_types (inputMode : BitVec 8) {digit : ℕ} (small : digit < 16) :
    digitOf (sendNibbleWrapper inputMode digit) = some digit := by
  have typed : ∀ digit < 16, digitOf (sendNibble digit) = some digit := by decide
  have tapped : ∀ digit < 16, digitOf (.tapCode (BitVec.ofNat 8
      (if digit < 10 then kcKp1 + (10 + digit - 1) % 10 else kcA + (digit - 10)))) = some digit := by
    decide
  unfold sendNibbleWrapper
  split
  · exact tapped digit small
  · exact typed digit small

theorem digit_eq (hex i : ℕ) : (hex >>> (i * 4)) &&& 0xF = hex / 16 ^ i % 16 := by
  rw [show (0xF : ℕ) = 2 ^ 4 - 1 from rfl, Nat.and_two_pow_sub_one_eq_mod, Nat.shiftRight_eq_div_pow,
    Nat.mul_comm, Nat.pow_mul]

theorem mod_succ (hex i : ℕ) : hex % 16 ^ (i + 1) = hex / 16 ^ i % 16 * 16 ^ i + hex % 16 ^ i := by
  rw [Nat.pow_succ, Nat.mod_mul]
  ring

/-- Once zeros are typed, the loop types all its digits. -/
theorem loop_types (inputMode : BitVec 8) (hex i : ℕ) :
    ∃ digits, Types (registerHexLoop inputMode hex i false) digits ∧ digits.length = i ∧
      value digits = hex % 16 ^ i := by
  induction i with
  | zero => exact ⟨[], rfl, rfl, by simp [value, Nat.mod_one]⟩
  | succ i ih =>
    obtain ⟨digits, types, length, denotes⟩ := ih
    have small : hex / 16 ^ i % 16 < 16 := Nat.mod_lt _ (by decide)
    have first : Types [sendNibbleWrapper inputMode (hex / 16 ^ i % 16)] [hex / 16 ^ i % 16] := by
      simp only [Types, List.map_cons, List.map_nil, nibble_types inputMode small]
    have unfolded : registerHexLoop inputMode hex (i + 1) false =
        [sendNibbleWrapper inputMode (hex / 16 ^ i % 16)] ++
          registerHexLoop inputMode hex i false := by
      simp only [registerHexLoop, digit_eq, ite_self, Bool.false_eq_true, ↓reduceIte,
        List.singleton_append]
    refine ⟨[hex / 16 ^ i % 16] ++ digits, unfolded ▸ first.append types, ?_, ?_⟩
    · rw [List.length_append, length]
      exact Nat.add_comm 1 i
    · rw [value_append, length, denotes, mod_succ]
      simp [value]

/-- At the fourth digit from the end zeros are typed at the latest. -/
theorem loop_four (inputMode : BitVec 8) (hex : ℕ) (onzerostart : Bool) :
    registerHexLoop inputMode hex 4 onzerostart = registerHexLoop inputMode hex 4 false := by
  simp only [registerHexLoop, Nat.le_refl, ↓reduceIte]

/-- Zeros at the start are left out, down to the fourth digit from the end. -/
theorem loop_types_start (inputMode : BitVec 8) (hex more : ℕ) :
    ∃ digits, Types (registerHexLoop inputMode hex (4 + more) true) digits ∧ 4 ≤ digits.length ∧
      value digits = hex % 16 ^ (4 + more) := by
  induction more with
  | zero =>
    obtain ⟨digits, types, length, denotes⟩ := loop_types inputMode hex 4
    exact ⟨digits, by rwa [loop_four], length.ge, denotes⟩
  | succ more ih =>
    have high : ¬4 + more ≤ 3 := by omega
    by_cases zero : hex / 16 ^ (4 + more) % 16 = 0
    · obtain ⟨digits, types, length, denotes⟩ := ih
      refine ⟨digits, ?_, length, ?_⟩
      · rw [← Nat.add_assoc]
        simpa only [registerHexLoop, digit_eq, zero, high, ↓reduceIte, List.nil_append] using types
      · rw [denotes, ← Nat.add_assoc, mod_succ, zero]
        omega
    · obtain ⟨digits, types, length, denotes⟩ := loop_types inputMode hex (4 + more + 1)
      refine ⟨digits, ?_, by omega, denotes⟩
      rw [← Nat.add_assoc]
      simpa only [registerHexLoop, digit_eq, zero, high, ↓reduceIte] using types

/-- A number of at most four digits is typed with four. -/
theorem loop_short (inputMode : BitVec 8) {hex : ℕ} (short : hex < 16 ^ 4) (more : ℕ) :
    registerHexLoop inputMode hex (4 + more) true = registerHexLoop inputMode hex 4 false := by
  induction more with
  | zero => exact loop_four inputMode hex true
  | succ more ih =>
    have high : ¬4 + more ≤ 3 := by omega
    have zero : hex / 16 ^ (4 + more) % 16 = 0 := by
      rw [Nat.div_eq_of_lt (Nat.lt_of_lt_of_le short
        (Nat.pow_le_pow_right (by decide) (Nat.le_add_right 4 more)))]
    rw [← Nat.add_assoc, ← ih]
    simp only [registerHexLoop, digit_eq, zero, high, ↓reduceIte, List.nil_append]

theorem hex_types (inputMode : BitVec 8) {hex : ℕ} (fits : hex < 16 ^ 8) :
    ∃ digits, Types (registerHex32 inputMode hex) digits ∧ 4 ≤ digits.length ∧
      value digits = hex := by
  obtain ⟨digits, types, length, denotes⟩ := loop_types_start inputMode hex 4
  exact ⟨digits, types, length, denotes.trans (Nat.mod_eq_of_lt fits)⟩

theorem hex_types_four (inputMode : BitVec 8) {hex : ℕ} (short : hex < 16 ^ 4) :
    ∃ digits, Types (registerHex32 inputMode hex) digits ∧ digits.length = 4 ∧
      value digits = hex := by
  obtain ⟨digits, types, length, denotes⟩ := loop_types inputMode hex 4
  refine ⟨digits, ?_, length, denotes.trans (Nat.mod_eq_of_lt short)⟩
  rwa [registerHex32, show (8 : ℕ) = 4 + 4 from rfl, loop_short inputMode short]

/-! ### The characters -/

theorem surrogate_high {rest : ℕ} (fits : rest < 0x100000) :
    (rest &&& 0xFFC00) >>> 10 = rest / 0x400 := by
  have masked : (rest &&& 0xFFC00) >>> 10 = rest / 2 ^ 10 &&& 0x3FF := by
    rw [Nat.shiftRight_and_distrib, Nat.shiftRight_eq_div_pow]
    rfl
  rw [masked, show (0x3FF : ℕ) = 2 ^ 10 - 1 from rfl, Nat.and_two_pow_sub_one_eq_mod]
  exact Nat.mod_eq_of_lt (by omega)

theorem surrogate_low (rest : ℕ) : rest &&& 0x3FF = rest % 0x400 :=
  Nat.and_two_pow_sub_one_eq_mod rest 10

/-- `register_unicode` makes one input, of the digits of the character. -/
theorem registerUnicode_denotes (inputMode : BitVec 8) (char : Char)
    (windows : inputMode = ucWin → char.toNat ≤ 0xFFFF) :
    ∃ keys, Denotes inputMode char keys ∧
      registerUnicode inputMode char.toNat = [.inputStart] ++ keys ++ [.inputFinish] := by
  have range := char_range char
  have known : ¬(0x10FFFF < char.toNat ∨ 0xFFFF < char.toNat ∧ inputMode = ucWin) := by
    rintro (large | ⟨large, win⟩)
    · omega
    · exact absurd (windows win) (by omega)
  rw [registerUnicode, if_neg known]
  refine ⟨_, ?_, rfl⟩
  unfold Denotes
  by_cases pair : 0xFFFF < char.toNat ∧ inputMode = ucMac
  · rw [if_pos pair, if_pos pair]
    have fits : char.toNat - 0x10000 < 0x100000 := by omega
    simp only [surrogate_high fits, surrogate_low]
    obtain ⟨high, typesHigh, lengthHigh, valueHigh⟩ := hex_types_four inputMode
      (show (char.toNat - 0x10000) / 0x400 + 0xD800 < 16 ^ 4 by omega)
    obtain ⟨low, typesLow, lengthLow, valueLow⟩ := hex_types_four inputMode
      (show (char.toNat - 0x10000) % 0x400 + 0xDC00 < 16 ^ 4 by omega)
    exact ⟨high, low, typesHigh.append typesLow, lengthHigh, lengthLow, by omega, by omega,
      by omega, by omega, by omega⟩
  · rw [if_neg pair, if_neg pair]
    exact hex_types inputMode (by omega)

theorem hexLoop_visible (inputMode : BitVec 8) (hex i : ℕ) (onzerostart : Bool) :
    visible (registerHexLoop inputMode hex i onzerostart) =
      registerHexLoop inputMode hex i onzerostart := by
  have shown (digit : ℕ) : visible [sendNibbleWrapper inputMode digit] =
      [sendNibbleWrapper inputMode digit] := by
    unfold sendNibbleWrapper sendNibble
    split_ifs <;> rfl
  induction i generalizing onzerostart with
  | zero => rfl
  | succ i ih =>
    simp only [registerHexLoop]
    split_ifs
    all_goals
      first
        | rw [List.nil_append, ih]
        | rw [visible_append, shown, ih]
        | rw [← List.singleton_append, visible_append, shown, ih]

theorem registerUnicode_visible (inputMode : BitVec 8) (codePoint : ℕ) :
    visible (registerUnicode inputMode codePoint) = registerUnicode inputMode codePoint := by
  have shown (hex : ℕ) : visible (registerHex32 inputMode hex) = registerHex32 inputMode hex :=
    hexLoop_visible inputMode hex 8 true
  have start : visible [.inputStart] = [.inputStart] := rfl
  have finish : visible [.inputFinish] = [.inputFinish] := rfl
  unfold registerUnicode
  split_ifs
  · rfl
  · simp only [visible_append, shown, start, finish]
  · simp only [visible_append, shown, start, finish]

/-- A character at the place in the string: it is read, registered, and stepped over. -/
theorem round_char {inputMode : BitVec 8} {memory : ℕ → BitVec 8} {str : ℕ} {char : Char}
    {rest : List (BitVec 8)} (held : Holds memory str (encode char ++ rest)) :
    ∃ events, round inputMode memory str = ⟨events, .again (str + (encode char).length)⟩ ∧
      visible events = registerUnicode inputMode char.toNat := by
  have reads : Reads (fun i => memory (str + i)) (encode char) := by
    intro i inside
    exact (held.read (by rw [List.length_append]; omega)).trans (List.getElem_append_left inside)
  have nonempty : 0 < (encode char).length := by
    rw [encode, List.length_map, String.length_utf8EncodeChar]
    exact Char.utf8Size_pos char
  have live : memory str ≠ 0 := by
    have first := reads 0 nonempty
    intro ended
    have zero : (0 : BitVec 8) ∈ encode char ++ rest := by
      rw [← ended, show memory str = (encode char)[0] from first]
      exact List.mem_append_left _ (List.getElem_mem nonempty)
    exact held.nonzero zero
  have decoded := decode_encode reads
  have hidden : visible (.read str :: (List.range (encode char).length).map
      fun i => .read (str + i)) = [] := by
    rw [visible, List.filter_eq_nil_iff]
    intro event member
    rcases List.mem_cons.mp member with rfl | member
    · exact Bool.false_ne_true
    · obtain ⟨i, -, rfl⟩ := List.mem_map.mp member
      exact Bool.false_ne_true
  refine ⟨(round inputMode memory str).events, ?_, ?_⟩
  · simp only [round, if_neg live, decoded]
  · simp only [round, if_neg live, decoded, if_pos (Int.natCast_nonneg char.toNat), Int.toNat_natCast]
    rw [visible_append, hidden, List.nil_append, ← List.singleton_append, visible_append,
      registerUnicode_visible]
    rfl

/-- `send_unicode_string` on the encoding of a text makes one input for each character, in
order, and types that character's number in it. -/
theorem unicode_round_trip (inputMode : BitVec 8) (chars : List Char)
    (windows : inputMode = ucWin → ∀ char ∈ chars, char.toNat ≤ 0xFFFF)
    (memory : ℕ → BitVec 8) (str : ℕ) (held : Holds memory str (chars.flatMap encode)) :
    ∃ rounds events typed, sendUnicodeString inputMode memory str rounds = some events ∧
      List.Forall₂ (Denotes inputMode) chars typed ∧
      visible events = typed.flatMap fun keys => [.inputStart] ++ keys ++ [.inputFinish] := by
  induction chars generalizing str with
  | nil =>
    have ended : memory str = 0 := held
    refine ⟨1, [.read str], [], ?_, .nil, rfl⟩
    simp only [sendUnicodeString, loop, round, ended, ↓reduceIte, Option.map_some]
  | cons char rest ih =>
    rw [List.flatMap_cons] at held
    obtain ⟨events, does, shows⟩ := @round_char inputMode _ _ _ _ held
    have heldRest : Holds memory (str + (encode char).length) (rest.flatMap encode) := by
      simpa using held.drop (show (encode char).length ≤ _ by simp)
    obtain ⟨rounds, later, typed, ends, denotes, visibleLater⟩ := ih
      (fun win other member => windows win other (List.mem_cons_of_mem _ member)) _ heldRest
    obtain ⟨keys, denotesChar, registers⟩ := registerUnicode_denotes inputMode char
      fun win => windows win char List.mem_cons_self
    obtain ⟨⟨sent, result⟩, looped, rfl⟩ := Option.map_eq_some_iff.mp ends
    refine ⟨rounds + 1, events ++ sent, keys :: typed, ?_, .cons denotesChar denotes, ?_⟩
    · simp only [sendUnicodeString, loop, does, looped, Option.map_some]
    · rw [visible_append, shows, registers, visibleLater, List.flatMap_cons]

/-- A letter, and a character that takes two surrogates. -/
theorem letter_and_smiley_typed :
    ∃ rounds events typed, sendUnicodeString ucMac
        (textMemory (['é', '😀'].flatMap encode) fun _ => 0) 0 rounds = some events ∧
      List.Forall₂ (Denotes ucMac) ['é', '😀'] typed ∧
      visible events = typed.flatMap fun keys => [.inputStart] ++ keys ++ [.inputFinish] :=
  unicode_round_trip ucMac ['é', '😀'] (fun win => absurd win (by decide)) _ _
    (by simp [encode, String.utf8EncodeChar, textMemory])

end QmkSonix.Unicode
