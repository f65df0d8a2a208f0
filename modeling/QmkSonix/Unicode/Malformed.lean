import QmkSonix.Lib.CString
import QmkSonix.Unicode.Decode

/-! Which strings `send_unicode_string` sends without reading behind their end, and
without registering what is no character of the string. -/

namespace QmkSonix.Unicode

open QmkSonix.Lib

/-- The string is read up to its zero byte, and a code point is registered for the
encoding of its character, which stands in the string. -/
def Sound (memory : ℕ → BitVec 8) (terminator : ℕ) : Event → Prop
  | .read address => address ≤ terminator
  | .registerUnicode codePoint first next =>
    ∃ char : Char, char.toNat = codePoint ∧ next = first + (encode char).length ∧
      next ≤ terminator ∧ Reads (fun i => memory (first + i)) (encode char)
  | _ => True

/-- The bytes of a piece decode to no code point. -/
def Skipped (piece : List (BitVec 8)) : Prop :=
  (decodeUtf8 fun i => piece.getD i 0).codePoint = -1

instance : DecidablePred Skipped := fun _ => inferInstanceAs (Decidable (_ = _))

/-- Every piece that `decode_utf8` takes is there in full, and is the encoding of a character
if it decodes to a code point. -/
inductive WellFormed : List (BitVec 8) → Prop where
  | done : WellFormed []
  | piece {lead : BitVec 8} {rest : List (BitVec 8)}
    (fits : leadLength lead ≤ (lead :: rest).length)
    (known : Skipped ((lead :: rest).take (leadLength lead)) ∨
      ∃ char, encode char = (lead :: rest).take (leadLength lead))
    (later : WellFormed ((lead :: rest).drop (leadLength lead))) : WellFormed (lead :: rest)

variable {inputMode : BitVec 8} {memory : ℕ → BitVec 8} {str terminator : ℕ}
  {text : List (BitVec 8)}

theorem nibble_sound (digit : ℕ) : Sound memory terminator (sendNibbleWrapper inputMode digit) := by
  unfold sendNibbleWrapper sendNibble
  split_ifs <;> trivial

theorem hexLoop_sound (hex i : ℕ) (onzerostart : Bool) :
    ∀ event ∈ registerHexLoop inputMode hex i onzerostart, Sound memory terminator event := by
  induction i generalizing onzerostart with
  | zero => simp [registerHexLoop]
  | succ i ih =>
    intro event member
    simp only [registerHexLoop] at member
    split_ifs at member
    all_goals
      simp only [List.nil_append, List.singleton_append, List.mem_cons] at member
      first
        | exact ih _ event member
        | exact member.elim (fun typed => typed ▸ nibble_sound _) (ih _ event)

/-- What `register_unicode` does with a code point is no matter. -/
theorem registerUnicode_sound (codePoint : ℕ) :
    ∀ event ∈ registerUnicode inputMode codePoint, Sound memory terminator event := by
  have typed (hex : ℕ) : ∀ event ∈ registerHex32 inputMode hex, Sound memory terminator event :=
    hexLoop_sound hex 8 true
  unfold registerUnicode
  split
  · simp
  · simp only [List.forall_mem_append, List.forall_mem_cons]
    refine ⟨⟨⟨trivial, by simp⟩, ?_⟩, trivial, by simp⟩
    split
    · exact List.forall_mem_append.mpr ⟨typed _, typed _⟩
    · exact typed _

/-- Behind the zero byte nothing is read safely. -/
theorem not_safe_behind (behind : terminator < str) :
    ¬Safe (Sound memory terminator) (fun _ => True) (round inputMode memory) str := by
  refine not_safe_of_mem (?_ : Event.read str ∈ _) ?_
  · simp only [round]
    split_ifs <;> simp
  · exact Nat.not_le.mpr behind

theorem round_exit (live : memory str ≠ 0) :
    (round inputMode memory str).exit = .again (str + leadLength (memory str)) := by
  simp only [round, if_neg live, decodeUtf8_length, Nat.add_zero]

/-- The piece of a text that stands in the memory. -/
theorem reads_take (held : Holds memory str text) (count : ℕ) :
    Reads (fun i => memory (str + i)) (text.take count) := by
  intro i inside
  rw [List.length_take] at inside
  rw [List.getElem_take]
  exact held.read (by omega)

/-- A piece of full length is what `decode_utf8` sees. -/
theorem decode_piece {lead : BitVec 8} {rest : List (BitVec 8)}
    (held : Holds memory str (lead :: rest)) (fits : leadLength lead ≤ (lead :: rest).length) :
    decodeUtf8 (fun i => memory (str + i)) =
      decodeUtf8 fun i => ((lead :: rest).take (leadLength lead)).getD i 0 := by
  have lead_eq : memory (str + 0) = lead := held.1
  apply decodeUtf8_congr
  intro i below
  rw [lead_eq] at below
  have inside : i < ((lead :: rest).take (leadLength lead)).length := by
    rw [List.length_take]
    omega
  rw [List.getD_eq_getElem _ _ inside]
  exact reads_take held _ i inside

/-- A code point is registered for a piece exactly when that is the encoding of its character. -/
theorem registered_iff {lead : BitVec 8} {rest : List (BitVec 8)}
    (held : Holds memory str (lead :: rest)) (fits : leadLength lead ≤ (lead :: rest).length)
    (ends : terminator = str + (lead :: rest).length) :
    Sound memory terminator (.registerUnicode
        (decodeUtf8 fun i => memory (str + i)).codePoint.toNat str (str + leadLength lead)) ↔
      ∃ char, encode char = (lead :: rest).take (leadLength lead) := by
  have lead_eq : memory (str + 0) = lead := held.1
  have pieceReads := reads_take held (leadLength lead)
  have pieceLength : ((lead :: rest).take (leadLength lead)).length = leadLength lead := by
    rw [List.length_take]
    omega
  constructor
  · rintro ⟨char, -, next, -, reads⟩
    have sameLength : (encode char).length = leadLength lead := by omega
    refine ⟨char, List.ext_getElem (by rw [sameLength, pieceLength]) fun i inside piece => ?_⟩
    rw [← reads i inside, ← pieceReads i piece]
  · rintro ⟨char, encoded⟩
    rw [← encoded] at pieceReads pieceLength
    refine ⟨char, ?_, by rw [pieceLength], by omega, pieceReads⟩
    rw [decode_encode pieceReads]
    rfl

/-- By induction on the length of the rest of the string: sending from a place in the string
is safe exactly when the rest is well formed. -/
theorem safe_iff (held : Holds memory str text) (ends : terminator = str + text.length) :
    Safe (Sound memory terminator) (fun _ => True) (round inputMode memory) str ↔
      WellFormed text := by
  induction length : text.length using Nat.strongRecOn generalizing str text with
  | ind length ih =>
    cases text with
    | nil =>
      have ended : memory str = 0 := held
      have left : round inputMode memory str = ⟨[.read str], .leave ()⟩ := by
        simp only [round, ended, ↓reduceIte]
      rw [safe_leave (congrArg Round.exit left), left]
      simp only [List.length_nil] at ends
      simp [Sound, ends, WellFormed.done]
    | cons lead rest =>
      have lead_eq : memory str = lead := held.1
      have live : memory str ≠ 0 := lead_eq ▸ held.2.1
      have step := @round_exit inputMode _ _ live
      rw [lead_eq] at step
      by_cases fits : leadLength lead ≤ (lead :: rest).length
      · have positive := leadLength_pos lead
        have later := ih ((lead :: rest).drop (leadLength lead)).length
          (by rw [List.length_drop]; omega) (held.drop fits) (by rw [List.length_drop]; omega) rfl
        have decoded := decode_piece held fits
        have taken : (decodeUtf8 fun i => memory (str + i)).length = leadLength lead := by
          rw [decodeUtf8_length, Nat.add_zero, lead_eq]
        have reads : ∀ event ∈ Event.read str :: (List.range (leadLength lead)).map
            (fun i => Event.read (str + i)), Sound memory terminator event := by
          intro event member
          rcases List.mem_cons.mp member with rfl | member
          · show str ≤ terminator
            omega
          · obtain ⟨i, below, rfl⟩ := List.mem_map.mp member
            have below := List.mem_range.mp below
            show str + i ≤ terminator
            omega
        have events : (∀ event ∈ (round inputMode memory str).events,
            Sound memory terminator event) ↔
            (Skipped ((lead :: rest).take (leadLength lead)) ∨
              ∃ char, encode char = (lead :: rest).take (leadLength lead)) := by
          rw [← registered_iff held fits ends, Skipped, ← decoded]
          simp only [round, if_neg live, taken]
          rw [List.forall_mem_append, and_iff_right reads]
          rcases decodeUtf8_codePoint fun i => memory (str + i) with none | some
          · simp [none]
          · rw [if_pos some, List.forall_mem_cons,
              and_iff_left (registerUnicode_sound _), or_iff_right (by omega)]
        rw [safe_again step, events, later]
        constructor
        · rintro ⟨known, tail⟩
          exact .piece fits known tail
        · intro wellFormed
          cases wellFormed with
          | piece _ known tail => exact ⟨known, tail⟩
      · refine iff_of_false ?_ ?_
        · rw [safe_again step, not_and]
          exact fun _ => not_safe_behind (by omega)
        · intro wellFormed
          cases wellFormed with
          | piece full _ _ => exact fits full

/-- `send_unicode_string` ends, reads inside of the string, and registers only characters
that are encoded there, exactly when every piece it decodes is complete and encodes a
character or nothing. -/
theorem unicode_string_safe_iff (inputMode : BitVec 8) (memory : ℕ → BitVec 8) (str : ℕ)
    (text : List (BitVec 8)) (held : Holds memory str text) :
    (∃ rounds events, sendUnicodeString inputMode memory str rounds = some events ∧
      ∀ event ∈ events, Sound memory (str + text.length) event) ↔ WellFormed text := by
  rw [← @safe_iff inputMode _ _ _ _ held rfl, safe_iff_events]
  rfl

/-- A letter, a stray byte and a letter of two bytes. -/
theorem stray_byte_sound :
    ∃ rounds events, sendUnicodeString ucLnx (textMemory [0x41, 0x80, 0xC3, 0xA9] fun _ => 0) 0
        rounds = some events ∧
      ∀ event ∈ events, Sound (textMemory [0x41, 0x80, 0xC3, 0xA9] fun _ => 0) (0 + 4) event := by
  refine (unicode_string_safe_iff _ _ _ [0x41, 0x80, 0xC3, 0xA9] (by simp [textMemory])).mpr ?_
  refine .piece (by decide) (.inr ⟨'A', rfl⟩) ?_
  refine .piece (by decide) (.inl (by decide)) ?_
  exact .piece (by decide) (.inr ⟨'é', rfl⟩) .done

/-- The first byte of two, with the zero byte in the place of the second. -/
theorem cut_letter_unsound :
    Holds (textMemory [0xC3] fun _ => 0) 0 [0xC3] ∧
      ¬∃ rounds events, sendUnicodeString ucLnx (textMemory [0xC3] fun _ => 0) 0 rounds =
          some events ∧
        ∀ event ∈ events, Sound (textMemory [0xC3] fun _ => 0) (0 + 1) event := by
  have held : Holds (textMemory [0xC3] fun _ => 0) 0 [0xC3] := by simp [textMemory]
  refine ⟨held, fun safe => ?_⟩
  cases (safe_iff held rfl).mp (safe_iff_events.mpr safe) with
  | piece fits _ _ => exact absurd fits (by decide)

end QmkSonix.Unicode
