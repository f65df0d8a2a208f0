import QmkSonix.Lib.Run
import QmkSonix.Ucis.Lookup

/-! Which runs of keys register the symbols that are typed. -/

namespace QmkSonix.Ucis

open QmkSonix.Lib

section Keys

inductive Key where
  | sign (sign : Sign)
  | backspace
  | space
  | enter
  | escape
  deriving DecidableEq, Repr

def Key.keycode : Key → BitVec 16
  | .sign character => character.keycode
  | .backspace => kcBackspace
  | .space => kcSpace
  | .enter => kcEnter
  | .escape => kcEscape

/-- A text once a key has reached the host -/
def Key.typed : Key → List Sign → List Sign
  | .sign character, text => text ++ [character]
  | .backspace, text => text.dropLast
  | _, text => text

/-- A key is pressed or released. -/
structure Press where
  key : Key
  pressed : Bool
  deriving DecidableEq, Repr

/-- The state, and the text that the host shows behind the marker -/
structure Watched where
  state : State
  text : List Sign := []

def watchStep (config : Config) (watched : Watched) (press : Press) : Watched :=
  match processUcis config watched.state press.key.keycode press.pressed with
  | .error _ => watched
  | .ok outcome =>
    { state := outcome.state
      text := if watched.state.inProgress && press.pressed && outcome.passed then
          press.key.typed watched.text
        else watched.text }

end Keys

section Conditions

variable (config : Config)

/-- The code points of the first symbol that is the text -/
def due (text : List Sign) : List (BitVec 32) :=
  ((config.table.find? fun entry => entry.symbol = text).map (registerUcis config)).getD []

/-- A key that ends the input takes back all that the host shows, and one that looks for a symbol
registers that of the text. -/
def Meets (text : List Sign) (outcome : Outcome) : Key → Prop
  | .escape => outcome.backspaces = text.length + 1
  | .space | .enter =>
    outcome.backspaces = text.length + 1 ∧ outcome.registered = due config text
  | _ => True

instance (text : List Sign) (outcome : Outcome) : (key : Key) →
    Decidable (Meets config text outcome key)
  | .escape => inferInstanceAs (Decidable (outcome.backspaces = text.length + 1))
  | .space | .enter => inferInstanceAs (Decidable
      (outcome.backspaces = text.length + 1 ∧ outcome.registered = due config text))
  | .sign _ | .backspace => isTrue trivial

/-- What a press that is taken is to lead to -/
def Accepted (watched : Watched) (press : Press) : Except Fault Outcome → Prop
  | .error _ => False
  | .ok outcome => watched.state.inProgress = true → press.pressed = true →
      Meets config watched.text outcome press.key

instance (watched : Watched) (press : Press) : (result : Except Fault Outcome) →
    Decidable (Accepted config watched press result)
  | .error _ => isFalse id
  | .ok outcome => inferInstanceAs (Decidable (watched.state.inProgress = true →
      press.pressed = true → Meets config watched.text outcome press.key))

/-- A press does what the input is for. -/
def Correct (watched : Watched) (press : Press) : Prop :=
  Accepted config watched press
    (processUcis config watched.state press.key.keycode press.pressed)

instance (watched : Watched) (press : Press) : Decidable (Correct config watched press) :=
  inferInstanceAs (Decidable (Accepted config watched press _))

/-- The text and the key behind it can be stored and counted. -/
def Room (text : List Sign) : Prop := text.length < config.maxSymbolLength ∧ text.length < 255

/-- The text is among the first 256 symbols and holds no digit, or the table is shorter, and a text
with a digit has no code points. -/
def Findable (text : List Sign) : Prop :=
  (∃ entry ∈ config.table.take 256, entry.symbol = text ∧ Lettered text) ∨
    config.table.length < 256 ∧ (Lettered text ∨ due config text = [])

/-- A special key is pressed while there is room for it, and one that looks for a symbol where the
symbol can be found. -/
def Careful (watched : Watched) (press : Press) : Prop :=
  watched.state.inProgress = true → press.pressed = true →
    match press.key with
    | .sign _ => True
    | .backspace =>
      config.maxSymbolLength ≤ 255 → watched.text.length < config.maxSymbolLength
    | .escape => Room config watched.text
    | .space | .enter => Room config watched.text ∧ Findable config watched.text

end Conditions

section Steps

variable {config : Config} {state : State}

/-- The state with a keycode stored and counted -/
def push (state : State) (keycode : BitVec 16) : State :=
  { state with
    codes := Function.update state.codes state.count.toNat keycode
    count := state.count + 1 }

theorem store_push (keycode : BitVec 16) (room : state.count.toNat < config.maxSymbolLength) :
    (store config state state.count.toNat keycode).map
      (fun stored => { stored with count := stored.count + 1 }) = .ok (push state keycode) := by
  rw [store, if_pos room]
  rfl

theorem special_sign (sign : Sign) : special sign.keycode = false := by
  revert sign
  decide

theorem processUcis_idle (keycode : BitVec 16) (pressed : Bool)
    (idle : state.inProgress = false ∨ pressed = false) :
    processUcis config state keycode pressed = .ok { state := state, passed := true } := by
  rcases idle with closed | released
  · simp [processUcis, closed, pure, Except.pure]
  · simp [processUcis, released, pure, Except.pure]

theorem processUcis_sign (active : state.inProgress = true) (sign : Sign) :
    processUcis config state sign.keycode true =
      if config.maxSymbolLength ≤ state.count.toNat then .ok { state := state, passed := false }
      else .ok { state := push state sign.keycode, passed := true } := by
  have plain := special_sign sign
  have other : sign.keycode ≠ kcBackspace := by
    intro same
    rw [same] at plain
    exact absurd plain (by decide)
  by_cases full : config.maxSymbolLength ≤ state.count.toNat
  · simp [processUcis, active, plain, full, pure, Except.pure]
  · have room := Nat.lt_of_not_le full
    simp [processUcis, active, plain, full, other, store, room, push, bind, Except.bind, pure,
      Except.pure]

theorem processUcis_special (active : state.inProgress = true) {keycode : BitVec 16}
    (known : special keycode = true) :
    processUcis config state keycode true =
      if state.count.toNat < config.maxSymbolLength then
        if keycode = kcBackspace then
          if 2 ≤ state.count + 1 then
            .ok { state := { push state keycode with count := state.count + 1 - 2 }
                  passed := true }
          else
            .ok { state := { push state keycode with count := state.count + 1 - 1 }
                  passed := false }
        else finish config (push state keycode) keycode
      else .error (.outside state.count.toNat) := by
  by_cases room : state.count.toNat < config.maxSymbolLength
  · simp only [processUcis, active, known, store, if_pos room, bind, Except.bind, pure, Except.pure,
      Bool.not_true, Bool.or_false, Bool.and_false, Bool.false_eq_true, if_false, if_true, push]
  · simp [processUcis, active, known, store, room, bind, Except.bind]

end Steps

section Runs

variable {config : Config} {watched : Watched}

/-- `codes` holds the text, which is counted; or the text has become too long to be counted. -/
inductive Sound (config : Config) (watched : Watched) : Prop where
  | idle (closed : watched.state.inProgress = false)
  | follows (inside : watched.text.length ≤ config.maxSymbolLength)
      (count : watched.state.count.toNat = watched.text.length)
      (codes : ∀ index (bound : index < watched.text.length),
        watched.state.codes index = watched.text[index].keycode)
  | past (wide : 256 ≤ config.maxSymbolLength)
      (count : watched.state.count.toNat + 256 ≤ watched.text.length)

theorem toNat_add_one (count : BitVec 8) : (count + 1).toNat = (count.toNat + 1) % 256 := by
  rw [BitVec.toNat_add]
  rfl

/-- Whatever is found, the input is over and what was counted is taken back. -/
theorem finish_ok {state : State} {keycode : BitVec 16} {outcome : Outcome}
    (done : finish config state keycode = .ok outcome) :
    outcome.state.inProgress = false ∧ outcome.backspaces = state.count.toNat := by
  rw [finish] at done
  split at done
  · cases done
    exact ⟨rfl, rfl⟩
  · simp only [bind, Except.bind, pure, Except.pure] at done
    split at done
    · cases done
    · split at done
      · cases done
        exact ⟨rfl, rfl⟩
      · split at done
        · cases done
        · cases done
          exact ⟨rfl, rfl⟩

theorem sound_sign (sound : Sound config watched) (active : watched.state.inProgress = true)
    (sign : Sign) : Sound config (watchStep config watched ⟨.sign sign, true⟩) := by
  have step : processUcis config watched.state (Key.sign sign).keycode true = _ :=
    processUcis_sign active sign
  by_cases full : config.maxSymbolLength ≤ watched.state.count.toNat
  · rw [if_pos full] at step
    simpa [watchStep, step] using sound
  · rw [if_neg full] at step
    simp only [watchStep, step, active, Bool.and_self, if_true, Key.typed]
    have next := toNat_add_one watched.state.count
    have byte := watched.state.count.isLt
    cases sound with
    | idle closed => exact absurd (active.symm.trans closed) (by decide)
    | follows inside count codes =>
      by_cases last : watched.text.length = 255
      · refine .past (by omega) ?_
        rw [List.length_append, push, next, count]
        simp [last]
      · refine .follows ?_ ?_ fun index bound => ?_
        · rw [List.length_append, List.length_singleton]
          omega
        · rw [List.length_append, List.length_singleton, push, next, count]
          omega
        · simp only [push, count]
          by_cases before : index < watched.text.length
          · rw [Function.update_of_ne before.ne, codes index before, List.getElem_append_left before]
          · rw [List.length_append, List.length_singleton] at bound
            have same : index = watched.text.length := by omega
            subst same
            rw [Function.update_self, List.getElem_concat_length]
            rfl
    | past wide count =>
      refine .past wide ?_
      rw [List.length_append, List.length_singleton, push, next]
      omega

theorem sound_backspace (sound : Sound config watched) (active : watched.state.inProgress = true) :
    Sound config (watchStep config watched ⟨.backspace, true⟩) := by
  have step : processUcis config watched.state Key.backspace.keycode true = _ :=
    processUcis_special active rfl
  by_cases room : watched.state.count.toNat < config.maxSymbolLength
  · have back : Key.backspace.keycode = kcBackspace := rfl
    rw [if_pos room, if_pos back] at step
    have next := toNat_add_one watched.state.count
    have byte := watched.state.count.isLt
    by_cases more : 2 ≤ watched.state.count + 1
    · rw [if_pos more] at step
      have fewer : (watched.state.count + 1 - 2).toNat = watched.state.count.toNat - 1 ∧
          0 < watched.state.count.toNat := by
        rw [BitVec.le_def, next] at more
        have two : (2 : BitVec 8).toNat = 2 := rfl
        rw [BitVec.toNat_sub, next, two]
        omega
      simp only [watchStep, step, active, Bool.and_self, if_true, Key.typed]
      cases sound with
      | idle closed => exact absurd (active.symm.trans closed) (by decide)
      | follows inside count codes =>
        refine .follows ?_ ?_ fun index bound => ?_
        · rw [List.length_dropLast]
          omega
        · rw [List.length_dropLast]
          simp only [fewer.1, count]
        · rw [List.length_dropLast] at bound
          have before : index < watched.text.length := by omega
          simp only [push, count, Function.update_of_ne before.ne, codes index before,
            List.getElem_dropLast]
      | past wide count =>
        refine .past wide ?_
        rw [List.length_dropLast]
        simp only [fewer.1]
        omega
    · rw [if_neg more] at step
      have same : watched.state.count + 1 - 1 = watched.state.count := BitVec.add_sub_cancel _ _
      simp only [watchStep, step, same, active, Bool.and_false, Bool.false_eq_true, if_false]
      cases sound with
      | idle closed => exact absurd (active.symm.trans closed) (by decide)
      | follows inside count codes =>
        refine .follows inside count fun index bound => ?_
        simp only [push, count, Function.update_of_ne bound.ne]
        exact codes index bound
      | past wide count => exact .past wide count
  · rw [if_neg room] at step
    simpa [watchStep, step] using sound

theorem sound_end (sound : Sound config watched) (active : watched.state.inProgress = true)
    {key : Key} (known : special key.keycode = true) (other : key.keycode ≠ kcBackspace) :
    Sound config (watchStep config watched ⟨key, true⟩) := by
  have step : processUcis config watched.state key.keycode true = _ :=
    processUcis_special active known
  rw [if_neg other] at step
  by_cases room : watched.state.count.toNat < config.maxSymbolLength
  · rw [if_pos room] at step
    cases done : finish config (push watched.state key.keycode) key.keycode with
    | error fault =>
      rw [done] at step
      simpa [watchStep, step] using sound
    | ok outcome =>
      rw [done] at step
      simp only [watchStep, step]
      exact .idle ((finish_ok done).1)
  · rw [if_neg room] at step
    simpa [watchStep, step] using sound

theorem sound_step (sound : Sound config watched) (press : Press) :
    Sound config (watchStep config watched press) := by
  obtain ⟨key, pressed⟩ := press
  by_cases active : watched.state.inProgress = true ∧ pressed = true
  · obtain ⟨active, rfl⟩ := active
    cases key with
    | sign sign => exact sound_sign sound active sign
    | backspace => exact sound_backspace sound active
    | space => exact sound_end sound active rfl (by decide)
    | enter => exact sound_end sound active rfl (by decide)
    | escape => exact sound_end sound active rfl (by decide)
  · have idle : watched.state.inProgress = false ∨ pressed = false := by
      simpa only [not_and_or, Bool.not_eq_true] using active
    have step : processUcis config watched.state key.keycode pressed = _ :=
      processUcis_idle (Key.keycode key) pressed idle
    have kept : (watched.state.inProgress && pressed) = false := by
      rcases idle with closed | released
      · rw [closed, Bool.false_and]
      · rw [released, Bool.and_false]
    simpa [watchStep, step, kept] using sound

end Runs

section Endings

variable {config : Config} {watched : Watched}

/-- The first symbol that is the text is the first match of a text without digits. -/
theorem find?_eq_firstMatch {text : List Sign} (lettered : Lettered text) (table : List Symbol) :
    table.find? (fun entry => entry.symbol = text) = firstMatch text table := by
  simp [firstMatch, lettered]

theorem due_of_match {text : List Sign} {entry : Symbol}
    (found : firstMatch text (config.table.take 256) = some entry) :
    due config text = registerUcis config entry := by
  have matched := List.find?_some found
  simp only [decide_eq_true_eq] at matched
  have first : firstMatch text config.table = some entry := by
    rw [← List.take_append_drop 256 config.table, firstMatch, List.find?_append]
    rw [firstMatch] at found
    rw [found, Option.some_or]
  rw [due, find?_eq_firstMatch matched.2, first]
  rfl

/-- Without a match a text of letters has no code points, where the table ends. -/
theorem due_of_lettered {text : List Sign} (few : config.table.length < 256)
    (found : firstMatch text (config.table.take 256) = none) (lettered : Lettered text) :
    due config text = [] := by
  rw [List.take_of_length_le few.le] at found
  rw [due, find?_eq_firstMatch lettered, found]
  rfl

theorem findable_iff (text : List Sign) :
    Findable config text ↔ (firstMatch text (config.table.take 256)).isSome = true ∨
      config.table.length < 256 ∧ (Lettered text ∨ due config text = []) := by
  simp [Findable, firstMatch, List.find?_isSome]

/-- A space or an enter behind a text registers its code points exactly when it can be found. -/
theorem Ended.finish_iff {text : List Sign} {state : State} (ended : Ended config text state)
    {keycode : BitVec 16} (other : keycode ≠ kcEscape) :
    (∃ outcome, finish config state keycode = .ok outcome ∧
      outcome.backspaces = text.length + 1 ∧ outcome.registered = due config text) ↔
      Findable config text := by
  have count := ended.count
  rw [findable_iff, finish, if_neg other]
  cases first : firstMatch text (config.table.take 256) with
  | some entry =>
    obtain ⟨position, found⟩ := ended.found first
    rw [found]
    simp [bind, Except.bind, pure, Except.pure, count, due_of_match first]
  | none =>
    have absent := ended.absent first
    by_cases few : config.table.length < 256
    · rw [if_pos few] at absent
      have nothing : ([] = due config text) ↔ (Lettered text ∨ due config text = []) :=
        ⟨fun empty => .inr empty.symm, fun either =>
          (either.elim (due_of_lettered few first) id).symm⟩
      rw [absent]
      simp [ended.fallback, bind, Except.bind, pure, Except.pure, count, few, nothing]
    · rw [if_neg few] at absent
      rw [absent]
      simp [bind, Except.bind, few]

/-- A key that ends the input does what it is for where what it sends is right. -/
theorem correct_end (active : watched.state.inProgress = true) {key : Key}
    (known : special key.keycode = true) (other : key.keycode ≠ kcBackspace) :
    Correct config watched ⟨key, true⟩ ↔ watched.state.count.toNat < config.maxSymbolLength ∧
      ∃ outcome, finish config (push watched.state key.keycode) key.keycode = .ok outcome ∧
        Meets config watched.text outcome key := by
  have step : processUcis config watched.state key.keycode true = _ :=
    processUcis_special active known
  rw [if_neg other] at step
  by_cases room : watched.state.count.toNat < config.maxSymbolLength
  · rw [if_pos room] at step
    cases done : finish config (push watched.state key.keycode) key.keycode with
    | error fault =>
      rw [done] at step
      simp [Correct, Accepted, step]
    | ok outcome =>
      rw [done] at step
      simp [Correct, Accepted, step, active, room]
  · rw [if_neg room] at step
    simp [Correct, Accepted, step, room]

/-- A text for which there is room is counted. -/
theorem Sound.count_of_room (sound : Sound config watched)
    (active : watched.state.inProgress = true) (enough : watched.text.length < 255) :
    watched.state.count.toNat = watched.text.length := by
  cases sound with
  | idle closed => exact absurd (active.symm.trans closed) (by decide)
  | follows inside count codes => exact count
  | past wide count => omega

theorem Sound.ended (sound : Sound config watched) (active : watched.state.inProgress = true)
    (room : Room config watched.text) {keycode : BitVec 16}
    (key : keycode = kcSpace ∨ keycode = kcEnter) :
    Ended config watched.text (push watched.state keycode) := by
  have inside := room.1
  have few := room.2
  cases sound with
  | idle closed => exact absurd (active.symm.trans closed) (by decide)
  | follows inside count codes =>
    refine ⟨room.1, ?_, fun index bound => ?_, ?_⟩
    · simp only [push, toNat_add_one, count]
      omega
    · simp only [push, count, Function.update_of_ne bound.ne]
      exact codes index bound
    · simp only [push, count, Function.update_self]
      exact key
  | past wide count => omega

/-- All of the text is taken back only where there is room for it. -/
theorem Sound.room (sound : Sound config watched) (active : watched.state.inProgress = true)
    (stored : watched.state.count.toNat < config.maxSymbolLength)
    (counted : (watched.state.count.toNat + 1) % 256 = watched.text.length + 1) :
    Room config watched.text := by
  have byte := watched.state.count.isLt
  cases sound with
  | idle closed => exact absurd (active.symm.trans closed) (by decide)
  | follows inside count codes => exact ⟨by omega, by omega⟩
  | past wide count => omega

theorem correct_escape (sound : Sound config watched) (active : watched.state.inProgress = true) :
    Correct config watched ⟨.escape, true⟩ ↔ Room config watched.text := by
  have escape : Key.escape.keycode = kcEscape := rfl
  rw [correct_end active rfl (by decide), finish, if_pos escape]
  constructor
  · rintro ⟨stored, outcome, done, counted⟩
    cases done
    simp only [Meets, push, toNat_add_one] at counted
    exact sound.room active stored counted
  · intro room
    have few := room.2
    have count := sound.count_of_room active few
    refine ⟨count ▸ room.1, _, rfl, ?_⟩
    simp only [Meets, push, toNat_add_one, count]
    omega

theorem correct_lookup (sound : Sound config watched) (active : watched.state.inProgress = true)
    {key : Key} (looks : key = .space ∨ key = .enter) :
    Correct config watched ⟨key, true⟩ ↔ Room config watched.text ∧ Findable config watched.text := by
  have keycode : key.keycode = kcSpace ∨ key.keycode = kcEnter := by
    rcases looks with rfl | rfl
    · exact .inl rfl
    · exact .inr rfl
  have known : special key.keycode = true ∧ key.keycode ≠ kcBackspace ∧ key.keycode ≠ kcEscape := by
    rcases looks with rfl | rfl <;> decide
  have meets (outcome : Outcome) : Meets config watched.text outcome key ↔
      outcome.backspaces = watched.text.length + 1 ∧
        outcome.registered = due config watched.text := by
    rcases looks with rfl | rfl <;> exact Iff.rfl
  rw [correct_end active known.1 known.2.1]
  simp only [meets]
  constructor
  · rintro ⟨stored, outcome, done, counted, registered⟩
    have taken := counted
    rw [(finish_ok done).2, push, toNat_add_one] at taken
    have room := sound.room active stored taken
    exact ⟨room, ((sound.ended active room keycode).finish_iff known.2.2).mp
      ⟨outcome, done, counted, registered⟩⟩
  · rintro ⟨room, findable⟩
    have count := sound.count_of_room active room.2
    exact ⟨count ▸ room.1, ((sound.ended active room keycode).finish_iff known.2.2).mpr findable⟩

/-- A backspace only has to be stored. -/
theorem correct_backspace (sound : Sound config watched)
    (active : watched.state.inProgress = true) :
    Correct config watched ⟨.backspace, true⟩ ↔
      (config.maxSymbolLength ≤ 255 → watched.text.length < config.maxSymbolLength) := by
  have step : processUcis config watched.state Key.backspace.keycode true = _ :=
    processUcis_special active rfl
  have stored : watched.state.count.toNat < config.maxSymbolLength ↔
      (config.maxSymbolLength ≤ 255 → watched.text.length < config.maxSymbolLength) := by
    have byte := watched.state.count.isLt
    cases sound with
    | idle closed => exact absurd (active.symm.trans closed) (by decide)
    | follows inside count codes => omega
    | past wide count => omega
  rw [← stored]
  by_cases room : watched.state.count.toNat < config.maxSymbolLength
  · have back : Key.backspace.keycode = kcBackspace := rfl
    rw [if_pos room, if_pos back] at step
    split at step
    · simp [Correct, Accepted, step, Meets, room]
    · simp [Correct, Accepted, step, Meets, room]
  · rw [if_neg room] at step
    simp [Correct, Accepted, step, room]

theorem correct_sign (active : watched.state.inProgress = true) (sign : Sign) :
    Correct config watched ⟨.sign sign, true⟩ := by
  have step : processUcis config watched.state (Key.sign sign).keycode true = _ :=
    processUcis_sign active sign
  split at step
  · simp [Correct, Accepted, step, Meets]
  · simp [Correct, Accepted, step, Meets]

theorem correct_iff (sound : Sound config watched) (press : Press) :
    Correct config watched press ↔ Careful config watched press := by
  obtain ⟨key, pressed⟩ := press
  by_cases active : watched.state.inProgress = true ∧ pressed = true
  · obtain ⟨active, rfl⟩ := active
    simp only [Careful, active, true_imp_iff]
    cases key with
    | sign sign => exact iff_of_true (correct_sign active sign) trivial
    | backspace => exact correct_backspace sound active
    | space => exact correct_lookup sound active (.inl rfl)
    | enter => exact correct_lookup sound active (.inr rfl)
    | escape => exact correct_escape sound active
  · have idle : watched.state.inProgress = false ∨ pressed = false := by
      simpa only [not_and_or, Bool.not_eq_true] using active
    have step : processUcis config watched.state key.keycode pressed = _ :=
      processUcis_idle (Key.keycode key) pressed idle
    have correct : Correct config watched ⟨key, pressed⟩ := by
      simp only [Correct, Accepted, step]
      exact fun first second => absurd ⟨first, second⟩ active
    exact iff_of_true correct fun first second => absurd ⟨first, second⟩ active

/-- In every run the presses are correct exactly when each special key has room and the symbols
that are looked for can be found. -/
theorem correct_iff_careful (config : Config) (before : State) (presses : List Press) :
    Along (watchStep config) (Correct config) { state := qkUcisStart before } presses ↔
      Along (watchStep config) (Careful config) { state := qkUcisStart before } presses := by
  refine along_congr (fun (watched : Watched) press (sound : Sound config watched) _ =>
    sound_step sound press) (fun watched press sound => correct_iff sound press) ?_ presses
  exact .follows (Nat.zero_le _) rfl fun index bound => absurd bound (Nat.not_lt_zero index)

/-- A symbol that holds a digit is not found, and a text that is as long as `codes` leaves no
element for the key that ends the input. -/
theorem digit_and_full_text_break :
    ¬ Along (watchStep { table := [⟨[.digit 1], [0x2460]⟩] })
        (Correct { table := [⟨[.digit 1], [0x2460]⟩] }) { state := qkUcisStart {} }
        [⟨.sign (.digit 1), true⟩, ⟨.space, true⟩] ∧
      ¬ Along (watchStep { table := [] }) (Correct { table := [] }) { state := qkUcisStart {} }
        (List.replicate 32 ⟨.sign (.letter 0), true⟩ ++ [⟨.space, true⟩]) := by
  decide +kernel

end Endings

end QmkSonix.Ucis
