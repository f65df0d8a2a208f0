import QmkSonix.DynamicKeymap.Model
import QmkSonix.SendString.Safe
import Mathlib.Data.List.Range

/-! When the playback of a macro stays among the bytes of the macros. -/

namespace QmkSonix.DynamicKeymap

open QmkSonix.Lib

variable {geometry : Geometry} {eeprom : Eeprom}

/-- `send_string` comes to an end on a piece of a macro, whatever lies behind it. -/
def Sends (data : List (BitVec 8)) : Prop :=
  ∀ (build : SendString.Build) (behind : ℕ → BitVec 8), ∃ rounds events,
    SendString.sendStringWithDelay build 0 (fun i => data.getD i (behind i)) 0 rounds = some events

/-- A byte of the macros is read, or a piece that ends is sent. -/
def Inside (geometry : Geometry) : Event → Prop
  | .read address => geometry.macroEepromAddr ≤ address ∧
      address < geometry.macroEepromAddr + geometry.macroEepromSize
  | .sendString data => Sends data

/-- The bytes of the macros. -/
def macroByte (geometry : Geometry) (eeprom : Eeprom) (k : ℕ) : BitVec 8 :=
  eeprom (geometry.macroEepromAddr + k)

/-- The null characters among the macros, from a byte on. -/
def nulls (geometry : Geometry) (eeprom : Eeprom) (k : ℕ) : ℕ :=
  (List.range' k (geometry.macroEepromSize - k)).countP
    fun j => macroByte geometry eeprom j = 0

theorem sends_of_safe {data : List (BitVec 8)}
    (safe : ∀ (build : SendString.Build) (behind : ℕ → BitVec 8),
      Safe (fun _ => True) (fun _ => True)
        (SendString.round build 0 fun i => data.getD i (behind i)) (.next 0)) : Sends data := by
  intro build behind
  obtain ⟨rounds, events, ends, -⟩ := safe_iff_events.mp (safe build behind)
  exact ⟨rounds, events, ends⟩

/-- A piece of one character ends. -/
theorem sends_char {code third : BitVec 8} (live : code ≠ 0)
    (plain : code ≠ SendString.ssQmkPrefix) : Sends [code, 0, third, 0] := by
  refine sends_of_safe fun build behind => ?_
  rw [safe_again (congrArg Round.exit (SendString.round_char live plain)),
    safe_leave (congrArg Round.exit (SendString.round_ended rfl))]
  simp

/-- A piece of a prefix, a code and a key ends. -/
theorem sends_key {code key : BitVec 8} (magic : code = SendString.ssTapCode ∨
    code = SendString.ssDownCode ∨ code = SendString.ssUpCode) :
    Sends [SendString.ssQmkPrefix, code, key, 0] := by
  refine sends_of_safe fun build behind => ?_
  obtain ⟨effect, -, sent⟩ := @SendString.round_keycode build 0
    (fun i => [SendString.ssQmkPrefix, code, key, 0].getD i (behind i)) 0 0 rfl magic
  rw [safe_again (congrArg Round.exit sent),
    safe_leave (congrArg Round.exit (SendString.round_ended rfl))]
  simp

/-! ### Where the pointer is -/

/-- The pointer `k` bytes behind the start of the macros, one past the last at most. -/
def place (geometry : Geometry) (k : ℕ) : ℕ := geometry.word (geometry.macroEepromAddr + k)

theorem place_inside {k : ℕ} (inside : k < geometry.macroEepromSize) :
    place geometry k = geometry.macroEepromAddr + k := by
  have ends := geometry.macros_end
  have fits := geometry.max_fits
  exact geometry.word_of_lt (by omega)

theorem place_next (k : ℕ) : geometry.word (place geometry k + 1) = place geometry (k + 1) := by
  rw [place, Geometry.word, Geometry.word, Nat.mod_add_mod, Nat.add_assoc]
  rfl

theorem macros_positive : 0 < geometry.macroEepromAddr := by
  have fits := geometry.eeconfig_fits
  simp only [Geometry.macroEepromAddr]
  omega

/-- The address behind the macros, or the start of the memory when that is the last. -/
theorem end_outside : endAddr geometry = geometry.macroEepromAddr + geometry.macroEepromSize ∨
    endAddr geometry = 0 := by
  have ends := geometry.macros_end
  have fits := geometry.max_fits
  rcases Nat.lt_or_ge (geometry.macroEepromAddr + geometry.macroEepromSize) 65536 with small | full
  · exact .inl (geometry.word_of_lt small)
  · have last : geometry.macroEepromAddr + geometry.macroEepromSize = 65536 := by omega
    rw [endAddr, Geometry.word, last]
    rcases geometry.words with short | long
    · right
      simp [short]
    · left
      simp [long]

theorem place_ne_end {k : ℕ} (inside : k < geometry.macroEepromSize) :
    place geometry k ≠ endAddr geometry := by
  rw [place_inside inside]
  have positive := @macros_positive geometry
  rcases @end_outside geometry with behind | start
  · omega
  · omega

theorem read_inside {k : ℕ} (inside : k < geometry.macroEepromSize) :
    Inside geometry (.read (place geometry k)) := by
  rw [place_inside inside]
  exact ⟨Nat.le_add_right _ _, Nat.add_lt_add_left inside _⟩

theorem not_read_end : ¬Inside geometry (.read (endAddr geometry)) := by
  have positive := @macros_positive geometry
  rintro ⟨from_start, to_end⟩
  rcases @end_outside geometry with behind | start
  · omega
  · omega

theorem read_place {k : ℕ} (inside : k < geometry.macroEepromSize) :
    eepromReadByte eeprom (place geometry k) = macroByte geometry eeprom k := by
  rw [place_inside inside]
  rfl

/-! ### The loops -/

theorem nulls_end : nulls geometry eeprom geometry.macroEepromSize = 0 := by
  simp [nulls]

theorem nulls_step {k : ℕ} (inside : k < geometry.macroEepromSize) :
    nulls geometry eeprom k =
      nulls geometry eeprom (k + 1) + if macroByte geometry eeprom k = 0 then 1 else 0 := by
  have left : geometry.macroEepromSize - k = geometry.macroEepromSize - (k + 1) + 1 := by omega
  rw [nulls, left, List.range'_succ, List.countP_cons]
  simp [nulls]

/-- The last byte of the macros is zero. -/
def Closed (geometry : Geometry) (eeprom : Eeprom) : Prop :=
  macroByte geometry eeprom (geometry.macroEepromSize - 1) = 0

theorem nulls_pos (closed : Closed geometry eeprom) {k : ℕ}
    (inside : k < geometry.macroEepromSize) : 0 < nulls geometry eeprom k := by
  rw [nulls, List.countP_pos_iff]
  refine ⟨geometry.macroEepromSize - 1, List.mem_range'_1.mpr (by omega), ?_⟩
  exact decide_eq_true closed

/-- From a byte of the macros on, sending stays inside: it stops at the last byte, which no
key can be behind, if it does not stop before. -/
theorem send_safe (closed : Closed geometry eeprom) {k : ℕ}
    (inside : k < geometry.macroEepromSize) (third : BitVec 8) :
    Safe (Inside geometry) (fun _ => True) (round geometry eeprom)
      (.send (place geometry k) third) := by
  induction length : geometry.macroEepromSize - k using Nat.strongRecOn generalizing k third with
  | ind length ih =>
    have more {j : ℕ} (before : j < geometry.macroEepromSize)
        (live : macroByte geometry eeprom j ≠ 0) : j + 1 < geometry.macroEepromSize := by
      by_contra last
      have isLast : j = geometry.macroEepromSize - 1 := by omega
      exact live (isLast ▸ closed)
    by_cases stops : macroByte geometry eeprom k = 0
    · have left : round geometry eeprom (.send (place geometry k) third) =
          ⟨[.read (place geometry k)], .leave ()⟩ := by
        simp only [round, read_place inside, stops, ↓reduceIte]
      rw [safe_leave (congrArg Round.exit left), left]
      simp [read_inside inside]
    · have next := more inside stops
      by_cases magic : macroByte geometry eeprom k = SendString.ssTapCode ∨
          macroByte geometry eeprom k = SendString.ssDownCode ∨
          macroByte geometry eeprom k = SendString.ssUpCode
      · by_cases noKey : macroByte geometry eeprom (k + 1) = 0
        · have left : round geometry eeprom (.send (place geometry k) third) =
              ⟨[.read (place geometry k), .read (place geometry (k + 1))], .leave ()⟩ := by
            simp only [round, read_place inside, if_neg stops, if_pos magic, place_next,
              read_place next, noKey, ↓reduceIte]
          rw [safe_leave (congrArg Round.exit left), left]
          simp [read_inside inside, read_inside next]
        · have again : round geometry eeprom (.send (place geometry k) third) =
              ⟨[.read (place geometry k), .read (place geometry (k + 1)),
                .sendString [SendString.ssQmkPrefix, macroByte geometry eeprom k,
                  macroByte geometry eeprom (k + 1), 0]],
                .again (.send (place geometry (k + 1 + 1)) (macroByte geometry eeprom (k + 1)))⟩ := by
            simp only [round, read_place inside, if_neg stops, if_pos magic, place_next,
              read_place next, if_neg noKey]
          rw [safe_again (congrArg Round.exit again), again]
          refine ⟨?_, ih _ (by omega) (more next noKey) _ rfl⟩
          simp only [List.forall_mem_cons]
          exact ⟨read_inside inside, read_inside next, sends_key magic, by simp⟩
      · have again : round geometry eeprom (.send (place geometry k) third) =
            ⟨[.read (place geometry k), .sendString [macroByte geometry eeprom k, 0, third, 0]],
              .again (.send (place geometry (k + 1)) third)⟩ := by
          simp only [round, read_place inside, if_neg stops, if_neg magic, place_next]
        rw [safe_again (congrArg Round.exit again), again]
        refine ⟨?_, ih _ (by omega) next _ rfl⟩
        simp only [List.forall_mem_cons]
        exact ⟨read_inside inside, sends_char stops fun isPrefix => magic (.inl isPrefix), by simp⟩

/-- Skipping goes wrong exactly when the null characters run out with the macros. -/
theorem skip_safe_iff (closed : Closed geometry eeprom) {k : ℕ}
    (inside : k ≤ geometry.macroEepromSize) (id : ℕ) :
    Safe (Inside geometry) (fun _ => True) (round geometry eeprom)
      (.skip (place geometry k) id) ↔ nulls geometry eeprom k ≠ id := by
  induction length : geometry.macroEepromSize - k generalizing k id with
  | zero =>
    have ended : k = geometry.macroEepromSize := by omega
    subst ended
    rw [nulls_end]
    rcases Nat.eq_zero_or_pos id with rfl | skips
    · have again : round geometry eeprom (.skip (endAddr geometry) 0) =
          ⟨[], .again (.send (endAddr geometry) 0)⟩ := rfl
      simp only [ne_eq, not_true_eq_false, iff_false]
      rw [show place geometry geometry.macroEepromSize = endAddr geometry from rfl,
        safe_again (congrArg Round.exit again)]
      refine fun safe => not_safe_of_mem ?_ not_read_end safe.2
      simp only [round]
      split_ifs <;> simp
    · have left : round geometry eeprom (.skip (endAddr geometry) id) = ⟨[], .leave ()⟩ := by
        simp only [round, if_neg skips.ne', ↓reduceIte]
      rw [show place geometry geometry.macroEepromSize = endAddr geometry from rfl,
        safe_leave (congrArg Round.exit left), left]
      simp [skips.ne]
  | succ length ih =>
    have before : k < geometry.macroEepromSize := by omega
    rcases Nat.eq_zero_or_pos id with rfl | skips
    · have again : round geometry eeprom (.skip (place geometry k) 0) =
          ⟨[], .again (.send (place geometry k) 0)⟩ := rfl
      rw [safe_again (congrArg Round.exit again), again]
      simp [send_safe closed before, (nulls_pos closed before).ne']
    · have again : round geometry eeprom (.skip (place geometry k) id) =
          ⟨[.read (place geometry k)], .again (.skip (place geometry (k + 1))
            (if macroByte geometry eeprom k = 0 then id - 1 else id))⟩ := by
        simp only [round, if_neg skips.ne', if_neg (place_ne_end before), place_next,
          read_place before]
      rw [safe_again (congrArg Round.exit again), again, ih (by omega) _ (by omega),
        nulls_step before]
      simp only [List.mem_singleton, forall_eq, read_inside before, true_and]
      split_ifs
      · omega
      · omega

theorem last_place : geometry.word (geometry.macroEepromAddr + geometry.macroEepromSize - 1) =
    place geometry (geometry.macroEepromSize - 1) := by
  have sized : 0 < geometry.macroEepromSize := Nat.succ_pos _
  rw [place, Nat.add_sub_assoc sized]

/-- With closed macros it is the two loops that have to stay inside. -/
theorem closed_send_iff {id : BitVec 8} (exists_id : ¬geometry.macroCount ≤ id.toNat)
    (closed : Closed geometry eeprom) :
    (∃ rounds events, dynamicKeymapMacroSend geometry eeprom id rounds = some events ∧
      ∀ event ∈ events, Inside geometry event) ↔ nulls geometry eeprom 0 ≠ id.toNat := by
  have sized : 0 < geometry.macroEepromSize := Nat.succ_pos _
  have lastRead : eepromReadByte eeprom (place geometry (geometry.macroEepromSize - 1)) = 0 :=
    (read_place (by omega)).trans closed
  have lastInside := @read_inside geometry (geometry.macroEepromSize - 1)
    (by omega)
  have start : geometry.macroEepromAddr = place geometry 0 := (place_inside sized).symm
  rw [← skip_safe_iff closed (Nat.zero_le _) id.toNat, ← start]
  simp only [dynamicKeymapMacroSend, exists_id, last_place, lastRead, ne_eq, not_true_eq_false,
    ↓reduceIte]
  constructor
  · rintro ⟨rounds, events, ends, inside⟩
    obtain ⟨⟨played, result⟩, looped, rfl⟩ := Option.map_eq_some_iff.mp ends
    exact ⟨rounds, played, result, looped, (List.forall_mem_cons.mp inside).2, trivial⟩
  · rintro ⟨rounds, played, result, looped, inside, -⟩
    exact ⟨rounds, _, by rw [looped]; rfl, List.forall_mem_cons.mpr ⟨lastInside, inside⟩⟩

/-- `dynamic_keymap_macro_send` ends and stays among the bytes of the macros exactly
when there is no such macro, the macros are not closed, or there are not just as many null
characters among them as it has to skip. -/
theorem macro_send_inside_iff (geometry : Geometry) (eeprom : Eeprom) (id : BitVec 8) :
    (∃ rounds events, dynamicKeymapMacroSend geometry eeprom id rounds = some events ∧
      ∀ event ∈ events, Inside geometry event) ↔
    geometry.macroCount ≤ id.toNat ∨
      macroByte geometry eeprom (geometry.macroEepromSize - 1) ≠ 0 ∨
      nulls geometry eeprom 0 ≠ id.toNat := by
  have sized : 0 < geometry.macroEepromSize := Nat.succ_pos _
  by_cases beyond : geometry.macroCount ≤ id.toNat
  · refine iff_of_true ⟨0, [], ?_, by simp⟩ (.inl beyond)
    simp only [dynamicKeymapMacroSend, beyond, ↓reduceIte]
  · by_cases closed : macroByte geometry eeprom (geometry.macroEepromSize - 1) = 0
    · rw [or_iff_right beyond, or_iff_right (not_not.mpr closed)]
      exact closed_send_iff beyond closed
    · refine iff_of_true ⟨0, [.read (place geometry (geometry.macroEepromSize - 1))], ?_, ?_⟩
        (.inr (.inl closed))
      · have lastRead := @read_place geometry eeprom
          (geometry.macroEepromSize - 1) (by omega)
        simp only [dynamicKeymapMacroSend, beyond, last_place, lastRead, ne_eq, closed,
          not_false_eq_true, ↓reduceIte]
      · simpa using @read_inside geometry (geometry.macroEepromSize - 1)
          (by omega)

theorem sixteen_bit_words : (16 : ℕ) = 16 ∨ (16 : ℕ) = 32 := .inl rfl

/-- Macros in the memory of an ATmega32U4, behind one layer of one key. -/
def oneKey : Geometry where
  layerCount := 1
  matrixRows := 1
  matrixCols := 1
  macroCount := 16
  eepromAddr := 35
  eepromMaxAddr := 1023
  wordBits := 16
  words := sixteen_bit_words
  eeconfig_fits := by decide
  max_fits := by decide
  macros_fit := by decide

/-- The first macro takes all of the memory, and the second is sent. -/
theorem long_macro_outside :
    ¬∃ rounds events,
      dynamicKeymapMacroSend oneKey (fun address => if address = 1023 then 0 else 4) 1 rounds =
        some events ∧ ∀ event ∈ events, Inside oneKey event := by
  rw [closed_send_iff (by decide) (by unfold Closed; decide)]
  decide +kernel

end QmkSonix.DynamicKeymap
