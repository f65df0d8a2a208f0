import QmkSonix.Lib.Run
import QmkSonix.Terminal.Model

/-! Which runs of keys leave every string of the terminal in its array. -/

namespace QmkSonix.Terminal

open QmkSonix.Lib QmkSonix.Lib.Strings

section Arrays

variable (config : Config)

/-- The rows of the history and the arguments end within their sizes. -/
structure Ended (state : State) : Prop where
  rows : ∀ row < config.cmdBuffSize, Terminated 80 (state.cmdBuffer row)
  arguments : ∀ i < 6, Terminated 20 (state.arguments i)

/-- The last byte of the buffer is zero, and the other strings end. -/
structure Sound (state : State) : Prop extends Ended config state where
  last : state.buffer 79 = 0

/-- A function does not fail and leaves sound arrays behind. -/
def Keeps (result : Option State) : Prop := ∃ after, result = some after ∧ Sound config after

variable {config} {state : State}

theorem Keeps.of_some (sound : Sound config state) : Keeps config (some state) := ⟨state, rfl, sound⟩

theorem Sound.buffer (sound : Sound config state) : Terminated 80 state.buffer :=
  terminated_of_zero (Nat.lt_succ_self 79) sound.last

theorem Sound.read (sound : Sound config state) :
    read 80 state.buffer = some (upTo 80 state.buffer) := read_of_terminated sound.buffer

theorem terminated_empty {size : ℕ} (positive : 0 < size) (array : ℕ → BitVec 8) :
    Terminated size (Function.update array 0 0) :=
  terminated_of_zero positive (Function.update_self ..)

theorem emptied_last (buffer : ℕ → BitVec 8) : Function.update buffer 0 0 79 = buffer 79 :=
  Function.update_of_ne (by decide) ..

theorem sound_enableTerminal (sound : Sound config state) : Sound config (enableTerminal state) where
  rows := fun _ _ => terminated_zero (by decide)
  arguments := fun _ _ => terminated_empty (by decide) _
  last := (emptied_last state.buffer).trans sound.last

/-- A row that ends takes the place of one. -/
theorem terminated_update {count size : ℕ} {rows : ℕ → ℕ → BitVec 8} {row : ℕ → BitVec 8}
    (ends : ∀ i < count, Terminated size (rows i)) (new : Terminated size row) (at' : ℕ) :
    ∀ i < count, Terminated size (Function.update rows at' row i) := by
  intro i inside
  by_cases same : i = at'
  · subst same
    rw [Function.update_self]
    exact new
  · rw [Function.update_of_ne same]
    exact ends i inside

theorem terminated_shiftRows {count : ℕ} {rows : ℕ → ℕ → BitVec 8} (first : ℕ)
    (ends : ∀ i < count, Terminated 80 (rows i)) (inside : first < count) :
    ∀ i < count, Terminated 80 (shiftRows first rows i) := by
  induction first generalizing rows with
  | zero => exact ends
  | succ first ih =>
    exact ih (terminated_update ends (terminated_strncpy (ends first (by omega))) _) (by omega)

theorem keeps_copyBuffer (sound : Sound config state) {rows : ℕ → ℕ → BitVec 8}
    (ends : ∀ i < config.cmdBuffSize, Terminated 80 (rows i)) :
    ∃ after, copyBuffer state rows = some after ∧ Sound config after ∧
      after.buffer = state.buffer ∧ after.arguments = state.arguments := by
  have room : (upTo 80 state.buffer).length < 80 := sound.buffer
  have copied : copyBuffer state rows = some { state with
      cmdBuffer := Function.update rows 0 (textMemory (upTo 80 state.buffer) (rows 0)) } := by
    rw [copyBuffer, sound.read]
    simp only [strcpy, if_pos room, Option.bind_eq_bind, Option.bind_some, Option.pure_def]
  exact ⟨_, copied, ⟨⟨terminated_update ends (terminated_textMemory room) 0, sound.arguments⟩,
    sound.last⟩, rfl, rfl⟩

theorem keeps_pushToCmdBuffer (sound : Sound config state) :
    ∃ after, pushToCmdBuffer config state = some after ∧ Sound config after ∧
      after.buffer = state.buffer ∧ after.arguments = state.arguments := by
  rw [pushToCmdBuffer]
  split
  · split
    · have started : Sound config { state with firstTime := false } :=
        ⟨⟨sound.rows, sound.arguments⟩, sound.last⟩
      exact keeps_copyBuffer started sound.rows
    · have inside := config.positive
      exact keeps_copyBuffer sound (terminated_shiftRows _ sound.rows (by omega))
  · exact ⟨state, rfl, sound, rfl, rfl⟩

end Arrays

section Commands

variable {config : Config} {state : State}

/-- The words of a command and each of them fit the arguments. -/
def WordsFit (text : List (BitVec 8)) : Prop :=
  (words 0x20 text).length ≤ 6 ∧ ∀ word ∈ words 0x20 text, word.length < 20

instance (text : List (BitVec 8)) : Decidable (WordsFit text) :=
  inferInstanceAs (Decidable (_ ∧ _))

theorem storeWords_some {texts : List (List (BitVec 8))} {i : ℕ} {arguments : ℕ → ℕ → BitVec 8}
    (ends : ∀ i < 6, Terminated 20 (arguments i)) (few : i + texts.length ≤ 6)
    (short : ∀ word ∈ texts, word.length < 20) :
    ∃ after, storeWords texts i arguments = some after ∧ ∀ i < 6, Terminated 20 (after i) := by
  induction texts generalizing i arguments with
  | nil => exact ⟨arguments, rfl, ends⟩
  | cons word rest ih =>
    have room := short word List.mem_cons_self
    have inside : i < 6 := by
      rw [List.length_cons] at few
      omega
    rw [List.length_cons] at few
    simp only [storeWords, if_pos inside, strcpy, if_pos room, Option.bind_eq_bind,
      Option.bind_some]
    exact ih (terminated_update ends (terminated_textMemory room) i) (by omega)
      fun other member => short other (List.mem_cons_of_mem word member)

/-- Words that are all stored are few and short. -/
theorem storeWords_fits {texts : List (List (BitVec 8))} {i : ℕ}
    {arguments after : ℕ → ℕ → BitVec 8} (start : i ≤ 6)
    (stored : storeWords texts i arguments = some after) :
    i + texts.length ≤ 6 ∧ ∀ word ∈ texts, word.length < 20 := by
  induction texts generalizing i arguments with
  | nil => exact ⟨start, fun word member => absurd member List.not_mem_nil⟩
  | cons word rest ih =>
    rw [storeWords] at stored
    split at stored
    · rename_i inside
      obtain ⟨argument, copied, later⟩ := Option.bind_eq_some_iff.mp stored
      obtain ⟨few, short⟩ := ih inside later
      refine ⟨by rw [List.length_cons]; omega, fun other member => ?_⟩
      rcases List.mem_cons.mp member with rfl | behind
      · exact (strcpy_eq_some copied).1
      · exact short other behind
    · cases stored

theorem readFilled_some (ended : Ended config state) {indices : List ℕ}
    (inside : ∀ i ∈ indices, i < 6) : readFilled state indices = some () := by
  induction indices with
  | nil => rfl
  | cons i rest ih =>
    have read := read_of_terminated (ended.arguments i (inside i List.mem_cons_self))
    rw [readFilled, read]
    simp only [Option.bind_eq_bind, Option.bind_some,
      ih fun other member => inside other (List.mem_cons_of_mem i member), ite_self]

/-- Every command finds its strings ended. -/
theorem keeps_perform (sound : Sound config state) (command : Command) :
    Keeps config (perform config state command) := by
  have arguments (indices : List ℕ) (inside : ∀ i ∈ indices, i < 6) :=
    readFilled_some sound.toEnded inside
  cases command with
  | about =>
    refine ⟨state, ?_, sound⟩
    rw [perform, arguments [1] (by decide), ite_self]
    rfl
  | help => exact .of_some sound
  | keycode =>
    refine ⟨state, ?_, sound⟩
    rw [perform, arguments [1, 2, 3] (by decide)]
    rfl
  | keymap =>
    refine ⟨state, ?_, sound⟩
    rw [perform, arguments [1] (by decide)]
    rfl
  | flushBuffer =>
    exact .of_some ⟨⟨fun _ _ => terminated_zero (by decide), sound.arguments⟩, sound.last⟩
  | printBuffer =>
    rw [perform, if_pos sound.rows]
    exact .of_some sound
  | exit => exact .of_some ⟨⟨sound.rows, sound.arguments⟩, sound.last⟩

theorem strtok_zero {delimiter : BitVec 8} {array : ℕ → BitVec 8} {length index : ℕ}
    (zero : array index = 0) : strtok delimiter array length index = 0 := by
  rw [strtok]
  split
  · rfl
  · exact zero

theorem keeps_runCommand (sound : Sound config state) (fits : WordsFit (upTo 80 state.buffer)) :
    Keeps config (runCommand config state) := by
  have few : 0 + (words 0x20 (upTo 80 state.buffer)).length ≤ 6 := by
    rw [Nat.zero_add]
    exact fits.1
  obtain ⟨arguments, stored, ends⟩ := storeWords_some sound.arguments few fits.2
  have last : strtok 0x20 state.buffer (upTo 80 state.buffer).length 79 = 0 :=
    strtok_zero sound.last
  have parsed : Sound config { state with
      buffer := strtok 0x20 state.buffer (upTo 80 state.buffer).length
      arguments := arguments } := ⟨⟨sound.rows, ends⟩, last⟩
  rw [runCommand, sound.read]
  simp only [Option.bind_eq_bind, Option.bind_some, stored, parsed.read]
  split
  · exact keeps_perform parsed _
  · exact .of_some parsed

/-- A command whose words do not fit is written behind the arguments. -/
theorem fits_of_runCommand (sound : Sound config state) {after : State}
    (done : runCommand config state = some after) : WordsFit (upTo 80 state.buffer) := by
  rw [runCommand, sound.read] at done
  simp only [Option.bind_eq_bind, Option.bind_some] at done
  obtain ⟨arguments, stored, -⟩ := Option.bind_eq_some_iff.mp done
  have fits := storeWords_fits (Nat.zero_le 6) stored
  rw [Nat.zero_add] at fits
  exact fits

theorem keeps_processTerminalCommand (sound : Sound config state)
    (fits : WordsFit (upTo 80 state.buffer)) :
    Keeps config (processTerminalCommand config state) := by
  obtain ⟨after, done, kept⟩ := keeps_runCommand sound fits
  rw [processTerminalCommand, done]
  simp only [Option.bind_eq_bind, Option.bind_some]
  split
  · refine .of_some ⟨⟨kept.rows, fun _ _ => terminated_empty (by decide) _⟩, ?_⟩
    exact (emptied_last after.buffer).trans kept.last
  · exact .of_some kept

end Commands

section Keys

variable {config : Config} {state : State}

theorem checkPos_range (config : Config) (state : State) :
    0 ≤ checkPos config state ∧ checkPos config state < config.cmdBuffSize := by
  have positive := config.positive
  rw [checkPos]
  split
  · omega
  · split <;> omega

theorem keeps_eraseLast (sound : Sound config state) : Keeps config (eraseLast state) := by
  rw [eraseLast, sound.read]
  simp only [Option.bind_eq_bind, Option.bind_some]
  split
  · rename_i filled
    refine .of_some ⟨⟨sound.rows, sound.arguments⟩, ?_⟩
    have room : (upTo 80 state.buffer).length < 80 := sound.buffer
    exact (Function.update_of_ne (by omega) ..).trans sound.last
  · exact .of_some sound

/-- Whatever row is recalled, the last byte of the buffer is zero behind it. -/
theorem keeps_recallRow (sound : Sound config state) {count : ℕ} (move : ℤ)
    (whole : count = 79 ∨ count = 80) : Keeps config (recallRow config state count move) := by
  have range := checkPos_range config state
  have row := sound.rows (checkPos config state).toNat (by omega)
  have last : strncpy count (state.cmdBuffer (checkPos config state).toNat) state.buffer 79 = 0 := by
    rcases whole with rfl | rfl
    · exact (strncpy_behind le_rfl).trans sound.last
    · exact strncpy_last row
  have copied : Sound config { state with
      buffer := strncpy count (state.cmdBuffer (checkPos config state).toNat) state.buffer
      currentCmdBufferPos := checkPos config state + move } :=
    ⟨⟨sound.rows, sound.arguments⟩, last⟩
  refine ⟨_, ?_, copied⟩
  rw [recallRow, sound.read, rowAt, if_pos range]
  simp only [Option.bind_eq_bind, Option.bind_some, copied.read]
  rfl

theorem keeps_keyUp (sound : Sound config state) : Keeps config (keyUp config state) := by
  rw [keyUp]
  split
  · exact keeps_recallRow sound 1 (.inr rfl)
  · exact .of_some ⟨⟨sound.rows, sound.arguments⟩, sound.last⟩

theorem keeps_keyDown (sound : Sound config state) : Keeps config (keyDown config state) := by
  rw [keyDown]
  split
  · exact keeps_recallRow sound (-1) (.inl rfl)
  · exact .of_some ⟨⟨sound.rows, sound.arguments⟩, sound.last⟩

/-- The key has an entry where one is looked up, and its character fits the text. -/
def Typable (text : List (BitVec 8)) (keycode : BitVec 16) (mods : BitVec 8) : Prop :=
  keycode.toNat ≤ 58 →
    (charToAdd keycode mods).any (fun char => char = 0 || text.length + 1 < 80) = true

instance (text : List (BitVec 8)) (keycode : BitVec 16) (mods : BitVec 8) :
    Decidable (Typable text keycode mods) := inferInstanceAs (Decidable (_ → _))

theorem strncat_some {text : List (BitVec 8)} (same : upTo 80 state.buffer = text)
    (sound : Sound config state) (char : BitVec 8) :
    strncat 80 char state.buffer = if text.length + 1 < 80 then
      some (Function.update (Function.update state.buffer text.length char) (text.length + 1) 0)
      else none := by
  rw [strncat, sound.read, same]
  rfl

theorem keeps_addChar (sound : Sound config state) {keycode : BitVec 16} {mods : BitVec 8}
    (typable : Typable (upTo 80 state.buffer) keycode mods) :
    Keeps config (addChar state keycode mods) := by
  rw [addChar]
  split
  · rename_i small
    have fits := typable small
    cases found : charToAdd keycode mods with
    | none =>
      rw [found] at fits
      cases fits
    | some char =>
      simp only [Option.bind_eq_bind, Option.bind_some]
      split
      · rename_i typed
        have either : char = 0 ∨ (upTo 80 state.buffer).length + 1 < 80 := by
          simpa [found] using fits
        have room := either.resolve_left typed
        rw [strncat_some rfl sound, if_pos room]
        refine .of_some ⟨⟨sound.rows, sound.arguments⟩, ?_⟩
        by_cases last : (upTo 80 state.buffer).length + 1 = 79
        · simp only [last, Function.update_self]
        · simp only [Function.update_of_ne (Ne.symm last)]
          rw [Function.update_of_ne (by omega)]
          exact sound.last
      · exact .of_some sound
  · exact .of_some sound

/-- A character that is looked up behind the table or written behind the buffer is not typable. -/
theorem typable_of_addChar (sound : Sound config state) {keycode : BitVec 16} {mods : BitVec 8}
    {after : State} (done : addChar state keycode mods = some after) :
    Typable (upTo 80 state.buffer) keycode mods := by
  intro small
  rw [addChar, if_pos small] at done
  obtain ⟨char, found, later⟩ := Option.bind_eq_some_iff.mp done
  rw [found, Option.any_some, Bool.or_eq_true, decide_eq_true_eq, decide_eq_true_eq]
  by_cases typed : char = 0
  · exact .inl typed
  · rw [if_pos typed] at later
    obtain ⟨buffer, joined, -⟩ := Option.bind_eq_some_iff.mp later
    rw [strncat_some rfl sound] at joined
    split at joined
    · rename_i room
      exact .inr room
    · cases joined

end Keys

section Basic

variable {config : Config} {state : State}

/-- The keys that `process_terminal` treats on their own -/
def isCommandKey (keycode : BitVec 16) : Bool :=
  keycode = kcEnter || keycode = kcKpEnter || keycode = kcEscape || keycode = kcBackspace ||
    keycode = kcLeft || keycode = kcRight || keycode = kcUp || keycode = kcDown

/-- Enter finds words that fit, and a key that types a character that fits. -/
def BasicFits (text : List (BitVec 8)) (keycode : BitVec 16) (mods : BitVec 8) : Prop :=
  (keycode = kcEnter ∨ keycode = kcKpEnter → WordsFit text) ∧
    (isCommandKey keycode = false → Typable text keycode mods)

instance (text : List (BitVec 8)) (keycode : BitVec 16) (mods : BitVec 8) :
    Decidable (BasicFits text keycode mods) := inferInstanceAs (Decidable ((_ → _) ∧ (_ → _)))

theorem keeps_basicKey (sound : Sound config state) {keycode : BitVec 16} {mods : BitVec 8}
    (fits : BasicFits (upTo 80 state.buffer) keycode mods) :
    Keeps config (basicKey config state keycode mods) := by
  obtain ⟨wordsFit, typable⟩ := fits
  rw [basicKey]
  split_ifs with enter escape backspace aside up down
  · obtain ⟨pushed, done, kept, buffer, -⟩ := keeps_pushToCmdBuffer sound
    rw [done]
    have start : Sound config { pushed with currentCmdBufferPos := 0 } :=
      ⟨⟨kept.rows, kept.arguments⟩, kept.last⟩
    refine keeps_processTerminalCommand start ?_
    simp only [buffer]
    exact wordsFit enter
  · exact .of_some (sound_enableTerminal sound)
  · exact keeps_eraseLast sound
  · exact .of_some sound
  · exact keeps_keyUp sound
  · exact keeps_keyDown sound
  · refine keeps_addChar sound (typable ?_)
    rw [not_or] at enter aside
    simp [isCommandKey, enter.1, enter.2, escape, backspace, aside.1, aside.2, up, down]

theorem fits_of_enter (sound : Sound config state) {after : State}
    (done : (do
      let pushed ← pushToCmdBuffer config state
      processTerminalCommand config { pushed with currentCmdBufferPos := 0 }) = some after) :
    WordsFit (upTo 80 state.buffer) := by
  obtain ⟨pushed, copied, kept, buffer, -⟩ := keeps_pushToCmdBuffer sound
  rw [copied, Option.bind_eq_bind, Option.bind_some] at done
  obtain ⟨ran, command, -⟩ := Option.bind_eq_some_iff.mp done
  have start : Sound config { pushed with currentCmdBufferPos := 0 } :=
    ⟨⟨kept.rows, kept.arguments⟩, kept.last⟩
  have fits := fits_of_runCommand start command
  simp only [buffer] at fits
  exact fits

theorem fits_of_basicKey (sound : Sound config state) {keycode : BitVec 16} {mods : BitVec 8}
    {after : State} (done : basicKey config state keycode mods = some after) :
    BasicFits (upTo 80 state.buffer) keycode mods := by
  rw [basicKey] at done
  by_cases enter : keycode = kcEnter ∨ keycode = kcKpEnter
  · rw [if_pos enter] at done
    refine ⟨fun _ => fits_of_enter sound done, fun plain => ?_⟩
    rcases enter with rfl | rfl
    · exact absurd plain (by decide)
    · exact absurd plain (by decide)
  · refine ⟨fun enters => absurd enters enter, fun plain => ?_⟩
    simp only [isCommandKey, Bool.or_eq_false_iff, decide_eq_false_iff_not] at plain
    obtain ⟨⟨⟨⟨⟨-, escape⟩, backspace⟩, left⟩, right⟩, up⟩ := plain.1
    rw [if_neg enter, if_neg escape, if_neg backspace, if_neg (not_or.mpr ⟨left, right⟩),
      if_neg up, if_neg plain.2] at done
    exact typable_of_addChar sound done

end Basic

section Runs

variable {config : Config}

structure Event where
  keycode : BitVec 16
  pressed : Bool
  /-- What `get_mods` returns -/
  mods : BitVec 8
  deriving DecidableEq, Repr

def step (config : Config) (result : Option State) (event : Event) : Option State := do
  processTerminal config (← result) event.keycode event.pressed event.mods

/-- Every access was inside of its array, and every string ends within its size. -/
def Safe (config : Config) : Option State → Prop
  | none => False
  | some state => Terminated 80 state.buffer ∧ Ended config state

/-- While the terminal is on, the words and characters that a key asks for fit. -/
def Careful : Option State → Event → Prop
  | none, _ => True
  | some state, ⟨keycode, pressed, mods⟩ => state.terminalEnabled = true → pressed = true →
      BasicFits (upTo 80 state.buffer) (tapped keycode) mods

instance : (result : Option State) → (event : Event) → Decidable (Careful result event)
  | none, _ => isTrue trivial
  | some state, ⟨keycode, pressed, mods⟩ =>
    inferInstanceAs (Decidable (state.terminalEnabled = true → pressed = true →
      BasicFits (upTo 80 state.buffer) (tapped keycode) mods))

/-- A keycode from 256 on asks for nothing. -/
theorem basicFits_of_le {keycode : BitVec 16} (large : 256 ≤ keycode.toNat)
    (text : List (BitVec 8)) (mods : BitVec 8) : BasicFits text keycode mods := by
  refine ⟨fun enter => ?_, fun _ small => absurd (small.trans_lt (by decide)) (Nat.not_lt.mpr large)⟩
  rcases enter with rfl | rfl
  · exact absurd large (by decide)
  · exact absurd large (by decide)

theorem keeps_processTerminal {state : State} (sound : Sound config state) {event : Event}
    (careful : Careful (some state) event) : Keeps config
      (processTerminal config state event.keycode event.pressed event.mods) := by
  rw [processTerminal]
  split_ifs with on active off basic
  · exact .of_some (sound_enableTerminal sound)
  · exact .of_some ⟨⟨sound.rows, sound.arguments⟩, sound.last⟩
  · exact keeps_basicKey sound (careful active.1 active.2)
  · exact .of_some sound
  · exact .of_some sound

theorem careful_of_processTerminal {state after : State} (sound : Sound config state)
    {event : Event} (done : processTerminal config state event.keycode event.pressed event.mods =
      some after) : Careful (some state) event := by
  intro enabled pressed
  by_cases basic : (tapped event.keycode).toNat < 256
  · have on : ¬(event.keycode = termOn ∧ event.pressed = true) := by
      rintro ⟨same, -⟩
      rw [same] at basic
      exact absurd basic (by decide)
    have off : event.keycode ≠ termOff := by
      intro same
      rw [same] at basic
      exact absurd basic (by decide)
    rw [processTerminal, if_neg on, if_pos ⟨enabled, pressed⟩, if_neg off, if_pos basic] at done
    exact fits_of_basicKey sound done
  · exact basicFits_of_le (Nat.le_of_not_lt basic) _ _

theorem sound_init (config : Config) : Sound config {} where
  rows := fun _ _ => terminated_zero (by decide)
  arguments := fun _ _ => terminated_zero (by decide)
  last := rfl

/-- In every run of keys each access and each string stays in its array exactly if, while the
terminal is on, the words of every command fit the arguments, and every key that types has an entry
in the tables and room in the buffer. -/
theorem safe_iff_typed (config : Config) (events : List Event) :
    (∀ cut, Safe config (run (step config) (some {}) (events.take cut))) ↔
      Along (step config) Careful (some {}) events := by
  refine property_iff_along (fun (result : Option State) (kept : Keeps config result) => ?_)
    (fun result event kept careful => ?_) (fun result event kept safe => ?_)
    (.of_some (sound_init config)) events
  · obtain ⟨state, rfl, sound⟩ := kept
    exact ⟨sound.buffer, sound.toEnded⟩
  · obtain ⟨state, rfl, sound⟩ := kept
    exact keeps_processTerminal sound careful
  · obtain ⟨state, rfl, sound⟩ := kept
    have stepped : step config (some state) event =
      processTerminal config state event.keycode event.pressed event.mods := rfl
    rw [stepped] at safe
    cases done : processTerminal config state event.keycode event.pressed event.mods with
    | none =>
      rw [done] at safe
      exact safe.elim
    | some after => exact careful_of_processTerminal sound done

theorem not_safe_of_isNone {result : Option State} (failed : result.isNone = true) :
    ¬ Safe config result := by
  cases result with
  | none => exact id
  | some state => cases failed

/-- The terminal with its default size -/
def fiveRows : Config := ⟨5, Nat.succ_pos 4, Nat.le_of_ble_eq_true rfl, true⟩

/-- `TERM_ON` and then the keys, each pressed without a modifier -/
def typed (keycodes : List (BitVec 16)) : Option State :=
  run (step fiveRows) (some {}) ((termOn :: keycodes).map fun keycode => ⟨keycode, true, 0⟩)

/-- `F1` is looked up behind the tables, the eightieth character leaves no zero in the buffer, and
a word of twenty characters and a seventh word are written behind the arguments. -/
theorem function_key_and_long_lines_break :
    ¬ Safe fiveRows (typed [0x3A]) ∧
      ¬ Safe fiveRows (typed (List.replicate 80 0x04)) ∧
      ¬ Safe fiveRows (typed (List.replicate 20 0x04 ++ [kcEnter])) ∧
      ¬ Safe fiveRows (typed ((List.replicate 7 [0x04, 0x2C]).flatten ++ [kcEnter])) := by
  refine ⟨not_safe_of_isNone ?_, not_safe_of_isNone ?_, not_safe_of_isNone ?_,
    not_safe_of_isNone ?_⟩
  · decide +kernel
  · decide +kernel
  · decide +kernel
  · decide +kernel

end Runs

end QmkSonix.Terminal
