import QmkSonix.Lib.CString
import QmkSonix.SendString.Model

/-! Which strings `send_string_with_delay` sends without reading behind their end or
behind the end of a table. -/

namespace QmkSonix.SendString

open QmkSonix.Lib

/-- The string is read up to its zero byte, and the tables are read inside. -/
def Inside (terminator : ℕ) : Event → Prop
  | .read address => address ≤ terminator
  | .lookUp lut index => index < lut.size
  | _ => True

/-- What the rest of a string has to begin with. -/
inductive Expects where
  /-- Nothing in particular. -/
  | plain
  /-- The code behind a prefix. -/
  | code
  /-- The keycode of a tap, a press or a release. -/
  | keycode
  /-- The digits of a delay, and the byte that ends them. -/
  | digits

/-- No escape sequence is cut off, and every byte that is sent for itself is ASCII. -/
def complete : Expects → List (BitVec 8) → Bool
  | .plain, [] => true
  | .plain, byte :: rest =>
    if byte = ssQmkPrefix then complete .code rest else byte.toNat < 128 && complete .plain rest
  | .code, [] => false
  | .code, byte :: rest =>
    if byte = ssTapCode ∨ byte = ssDownCode ∨ byte = ssUpCode then complete .keycode rest
    else if byte = ssDelayCode then complete .digits rest
    else complete .plain rest
  | .keycode, [] => false
  | .keycode, _ :: rest => complete .plain rest
  | .digits, [] => false
  | .digits, byte :: rest =>
    if isdigit byte then complete .digits rest else complete .plain rest

variable {build : Build} {interval : BitVec 8} {memory : ℕ → BitVec 8} {str ms terminator : ℕ}
  {text : List (BitVec 8)}

/-- `send_char` looks up inside of the tables exactly for an ASCII code. -/
theorem sendChar_inside (asciiCode : BitVec 8) :
    (∀ event ∈ sendChar build asciiCode, Inside terminator event) ↔ asciiCode.toNat < 128 := by
  unfold sendChar
  split
  · rename_i bell
    simp [Inside, bell.2]
  · constructor
    · intro inside
      exact inside (.lookUp .keycode asciiCode.toNat) (by simp)
    · intro ascii event member
      have small : asciiCode.toNat / 8 < 16 := by omega
      simp only [List.mem_append, List.mem_cons, List.not_mem_nil, or_false,
        List.mem_ite_nil_right] at member
      rcases member with (((((looks | ⟨-, rfl⟩) | ⟨-, rfl⟩) | rfl) | ⟨-, rfl⟩) | ⟨-, rfl⟩) | ⟨-, rfl⟩
      · rcases looks with rfl | rfl | rfl | rfl
        · exact ascii
        · exact small
        · exact small
        · exact small
      all_goals trivial

/-- Behind the zero byte nothing is read safely. -/
theorem not_safe_behind (behind : terminator < str) :
    ¬Safe (Inside terminator) (fun _ => True) (round build interval memory) (.next str) := by
  refine not_safe_of_mem (?_ : Event.read str ∈ _) ?_
  · simp only [round]
    split_ifs <;> simp
  · exact Nat.not_le.mpr behind

theorem round_ended (ended : memory str = 0) :
    round build interval memory (.next str) = ⟨[.read str], .leave ()⟩ := by
  simp only [round, ended, ↓reduceIte]

/-- A tap, a press and a release read a keycode. -/
theorem round_keycode (live : memory str = ssQmkPrefix)
    (taps : memory (str + 1) = ssTapCode ∨ memory (str + 1) = ssDownCode ∨
      memory (str + 1) = ssUpCode) :
    ∃ effect, Inside terminator effect ∧
      round build interval memory (.next str) =
        ⟨[.read str, .read (str + 1), .read (str + 2), effect, .wait interval.toNat],
          .again (.next (str + 3))⟩ := by
  rcases taps with tap | down | up
  · exact ⟨.tapCode (memory (str + 2)), trivial, by simp [round, live, tap, ssQmkPrefix]⟩
  · exact ⟨.registerCode (memory (str + 2)), trivial, by
      simp [round, live, down, ssQmkPrefix, ssTapCode, ssDownCode]⟩
  · exact ⟨.unregisterCode (memory (str + 2)), trivial, by
      simp [round, live, up, ssQmkPrefix, ssTapCode, ssDownCode, ssUpCode]⟩

theorem round_delay (live : memory str = ssQmkPrefix) (delay : memory (str + 1) = ssDelayCode) :
    round build interval memory (.next str) =
      ⟨[.read str, .read (str + 1)], .again (.digits (str + 2) 0)⟩ := by
  simp [round, live, delay, ssQmkPrefix, ssTapCode, ssDownCode, ssUpCode, ssDelayCode]

/-- A prefix with any other code behind is skipped with the code. -/
theorem round_skipped (live : memory str = ssQmkPrefix)
    (taps : ¬(memory (str + 1) = ssTapCode ∨ memory (str + 1) = ssDownCode ∨
      memory (str + 1) = ssUpCode)) (delay : memory (str + 1) ≠ ssDelayCode) :
    round build interval memory (.next str) =
      ⟨[.read str, .read (str + 1), .wait interval.toNat], .again (.next (str + 2))⟩ := by
  have nonzero : ssQmkPrefix ≠ 0 := by decide
  simp only [not_or] at taps
  simp only [round, live, if_neg nonzero, taps.1, taps.2.1, taps.2.2, delay, ↓reduceIte]

theorem round_char (live : memory str ≠ 0) (plain : memory str ≠ ssQmkPrefix) :
    round build interval memory (.next str) =
      ⟨.read str :: sendChar build (memory str) ++ [.wait interval.toNat],
        .again (.next (str + 1))⟩ := by
  simp only [round, if_neg live, if_neg plain]

theorem round_digit (digit : isdigit (memory str) = true) :
    round build interval memory (.digits str ms) = ⟨[.read str], .again (.digits (str + 1)
      ((ms * 10 + ((memory str).toNat - 0x30)) % 2 ^ build.intBits))⟩ := by
  simp only [round, digit, ↓reduceIte]

theorem round_delayed (ends : isdigit (memory str) = false) :
    round build interval memory (.digits str ms) =
      ⟨[.read str, .wait ms, .wait interval.toNat], .again (.next (str + 1))⟩ := by
  simp only [round, ends, Bool.false_eq_true, ↓reduceIte]

/-- Sending from a place in the string is safe exactly when the rest of it is complete. -/
structure Judged (build : Build) (interval : BitVec 8) (memory : ℕ → BitVec 8)
    (terminator str : ℕ) (text : List (BitVec 8)) : Prop where
  next : Safe (Inside terminator) (fun _ => True) (round build interval memory) (.next str) ↔
    complete .plain text = true
  digits : ∀ ms, Safe (Inside terminator) (fun _ => True) (round build interval memory)
    (.digits str ms) ↔ complete .digits text = true

/-- A prefix with a rest of the string behind. -/
theorem prefix_judged {rest : List (BitVec 8)} (live : memory str = ssQmkPrefix)
    (held : Holds memory (str + 1) rest) (ends : terminator = str + 1 + rest.length)
    (later : ∀ skipped ≤ rest.length,
      Judged build interval memory terminator (str + 1 + skipped) (rest.drop skipped)) :
    Safe (Inside terminator) (fun _ => True) (round build interval memory) (.next str) ↔
      complete .code rest = true := by
  have here : Inside terminator (.read str) := by
    show str ≤ terminator
    omega
  have next : Inside terminator (.read (str + 1)) := by
    show str + 1 ≤ terminator
    omega
  cases rest with
  | nil =>
    have ended : memory (str + 1) = 0 := held
    have skips := @round_skipped build interval _ _ live
      (by rw [ended]; decide) (by rw [ended]; decide)
    rw [safe_again (congrArg Round.exit skips)]
    simp only [complete, Bool.false_eq_true, iff_false, not_and]
    exact fun _ => not_safe_behind (by simp [ends])
  | cons code more =>
    obtain ⟨read, -, heldMore⟩ := held
    simp only [complete, ← read]
    by_cases taps : memory (str + 1) = ssTapCode ∨ memory (str + 1) = ssDownCode ∨
        memory (str + 1) = ssUpCode
    · obtain ⟨effect, harmless, does⟩ := @round_keycode build interval _ _ terminator live taps
      rw [if_pos taps, safe_again (congrArg Round.exit does), does]
      cases more with
      | nil =>
        simp only [complete, Bool.false_eq_true, iff_false, not_and]
        exact fun _ => not_safe_behind (by simp [ends])
      | cons keycode tail =>
        have judged : Judged build interval memory terminator (str + 3) tail := later 2 (by simp)
        rw [complete, ← judged.next]
        refine and_iff_right ?_
        have last : Inside terminator (.read (str + 2)) := by
          show str + 2 ≤ terminator
          simp only [List.length_cons] at ends
          omega
        simp only [List.forall_mem_cons]
        exact ⟨here, next, last, harmless, trivial, by simp⟩
    · rw [if_neg taps]
      have judged : Judged build interval memory terminator (str + 2) more := later 1 (by simp)
      by_cases delay : memory (str + 1) = ssDelayCode
      · have does := @round_delay build interval _ _ live delay
        rw [if_pos delay, ← judged.digits 0, safe_again (congrArg Round.exit does), does]
        refine and_iff_right ?_
        simp only [List.forall_mem_cons]
        exact ⟨here, next, by simp⟩
      · have does := @round_skipped build interval _ _ live taps delay
        rw [if_neg delay, ← judged.next, safe_again (congrArg Round.exit does), does]
        refine and_iff_right ?_
        simp only [List.forall_mem_cons]
        exact ⟨here, next, trivial, by simp⟩

/-- By induction on the length of the rest of the string. -/
theorem judged (held : Holds memory str text) (ends : terminator = str + text.length) :
    Judged build interval memory terminator str text := by
  induction length : text.length using Nat.strongRecOn generalizing str text with
  | ind length ih =>
    have here : str ≤ terminator := by omega
    cases text with
    | nil =>
      have ended : memory str = 0 := held
      have left := @round_ended build interval _ _ ended
      refine ⟨?_, fun ms => ?_⟩
      · rw [safe_leave (congrArg Round.exit left), left]
        simp [complete, Inside, here]
      · have delayed := @round_delayed build interval _ _ ms
          (show isdigit (memory str) = false by rw [ended]; decide)
        rw [safe_again (congrArg Round.exit delayed)]
        simp only [complete, Bool.false_eq_true, iff_false, not_and]
        exact fun _ => not_safe_behind (by simp [ends])
    | cons byte rest =>
      obtain ⟨read, live, heldRest⟩ := held
      simp only [List.length_cons] at length ends
      have judged : Judged build interval memory terminator (str + 1) rest :=
        ih rest.length (by omega) heldRest (by omega) rfl
      refine ⟨?_, fun ms => ?_⟩
      · simp only [complete, ← read]
        by_cases escape : memory str = ssQmkPrefix
        · rw [if_pos escape]
          refine prefix_judged escape heldRest (by omega) fun skipped inside => ?_
          refine ih (rest.drop skipped).length ?_ (heldRest.drop inside) ?_ rfl
          · rw [List.length_drop]
            omega
          · rw [List.length_drop]
            omega
        · have does := @round_char build interval _ _ (read ▸ live) escape
          rw [if_neg escape, safe_again (congrArg Round.exit does), does, Bool.and_eq_true,
            decide_eq_true_iff, ← judged.next, List.forall_mem_append, List.forall_mem_cons,
            sendChar_inside]
          simp only [Inside, here, List.mem_singleton, forall_eq, true_and, and_true]
      · simp only [complete, ← read]
        cases digit : isdigit (memory str) with
        | true =>
          have does := @round_digit build interval _ _ ms digit
          rw [if_pos rfl, safe_again (congrArg Round.exit does), does, judged.digits]
          simp [here, Inside]
        | false =>
          have does := @round_delayed build interval _ _ ms digit
          rw [if_neg Bool.false_ne_true, ← judged.next, safe_again (congrArg Round.exit does),
            does]
          simp [here, Inside]

/-- `send_string_with_delay` ends, and reads the string and the tables inside only, exactly
when no escape sequence is cut off and every byte that is sent for itself is ASCII. -/
theorem send_string_safe_iff (build : Build) (interval : BitVec 8) (memory : ℕ → BitVec 8)
    (str : ℕ) (text : List (BitVec 8)) (held : Holds memory str text) :
    (∃ rounds events, sendStringWithDelay build interval memory str rounds = some events ∧
      ∀ event ∈ events, Inside (str + text.length) event) ↔ complete .plain text = true := by
  rw [← (@judged build interval _ _ _ _ held rfl).next, safe_iff_events]
  rfl

/-- Tap `KC_A`, and wait for 20 milliseconds. -/
def tapAndWait : List (BitVec 8) := [1, 1, 0x04, 1, 4, 0x32, 0x30, 0x7C]

theorem tap_and_wait_inside :
    ∃ rounds events, sendStringWithDelay ⟨defaultContents, false, 32⟩ 0
        (textMemory tapAndWait fun _ => 0xFF) 0 rounds = some events ∧
      ∀ event ∈ events, Inside (0 + tapAndWait.length) event :=
  (send_string_safe_iff _ _ _ _ _ (by simp [tapAndWait, textMemory])).mpr rfl

/-- A string that ends with the prefix: the byte behind its zero byte is read. -/
theorem cut_prefix_outside :
    Holds (textMemory [0x61, 1] fun _ => 0) 0 [0x61, 1] ∧
      ¬∃ rounds events, sendStringWithDelay ⟨defaultContents, false, 32⟩ 0
          (textMemory [0x61, 1] fun _ => 0) 0 rounds = some events ∧
        ∀ event ∈ events, Inside (0 + 2) event := by
  have held : Holds (textMemory [0x61, 1] fun _ => 0) 0 [0x61, 1] := by simp [textMemory]
  refine ⟨held, fun safe => ?_⟩
  exact Bool.false_ne_true ((judged held rfl).next.mp (safe_iff_events.mpr safe))

end QmkSonix.SendString
