import QmkSonix.Music.Recorder

/-! When the recorder stays inside of its sequence. -/

namespace QmkSonix.Music

open QmkSonix.Lib

/-- A key is handled, or `music_task` is called with two readings of the timer. -/
inductive Event where
  | key (key : Key) (pressed : Bool) (row col : BitVec 8)
  | task (elapsedAt now : BitVec 16)
  deriving DecidableEq, Repr

def perform (cfg : Config) (state : State) : Event → State × List Effect
  | .key key pressed row col => processMusic cfg state key pressed row col
  | .task elapsedAt now => musicTask state elapsedAt now

def step (cfg : Config) (state : State) (event : Event) : State := (perform cfg state event).1

/-- An access is inside of the sequence and not behind what is recorded, and no reduction is
modulo zero. -/
def Fine (count : BitVec 8) : Effect → Prop
  | .access index => 0 ≤ index ∧ index < 16 ∧ index ≤ count.toNat
  | .modulo divisor => divisor ≠ 0
  | _ => True

instance (count : BitVec 8) (effect : Effect) : Decidable (Fine count effect) :=
  match effect with
  | .access _ => inferInstanceAs (Decidable (_ ∧ _))
  | .modulo _ => inferInstanceAs (Decidable (_ ≠ _))
  | .noteOn _ | .noteOff _ | .allNotesOff => inferInstanceAs (Decidable True)

/-- Everything that a step does is fine. -/
def Safe (cfg : Config) (state : State) (event : Event) : Prop :=
  ∀ effect ∈ (perform cfg state event).2, Fine state.count effect

instance (cfg : Config) (state : State) (event : Event) : Decidable (Safe cfg state event) :=
  inferInstanceAs (Decidable (∀ effect ∈ (perform cfg state event).2, Fine state.count effect))

/-- A key is recorded while a mode is on. -/
def State.records (state : State) (key : Key) : Prop :=
  state.recording = true ∧ state.active = true ∧ switchModes state key = none ∧
    controlRecorder state key = none

/-- There is room for a key that is recorded, and an empty recording is not played. -/
def Careful (state : State) : Event → Prop
  | .key key pressed _ _ => pressed = true → state.records key → state.count < 16
  | .task elapsedAt _ => state.due elapsedAt = true → state.count ≠ 0

/-- The recording fits, it is not played while it is recorded, and the position is inside of it. -/
structure Sound (state : State) : Prop where
  fits : state.count.toNat ≤ 16
  apart : state.recording = true → state.playing = false
  inside : state.playing = true → state.position = 0 ∨ state.position.toNat < state.count.toNat

variable {cfg : Config} {state : State}

theorem fine_sounds {effect : Effect} (fine : Fine state.count effect) :
    ∀ sounded ∈ state.sounds effect, Fine state.count sounded := by
  unfold State.sounds
  split
  · exact List.forall_mem_singleton.mpr fine
  · exact fun sounded none => absurd none List.not_mem_nil

/-- What the keys for the modes and for the recorder do -/
structure Controls (state : State) (done : State × List Effect) : Prop where
  sound : Sound done.1
  fine : ∀ effect ∈ done.2, Fine state.count effect

theorem controls_switchModes (sound : Sound state) {key : Key} {done : State × List Effect}
    (switches : switchModes state key = some done) : Controls state done := by
  obtain ⟨fits, apart, inside⟩ := sound
  cases key with
  | musicToggle | midiToggle =>
    simp only [switchModes] at switches
    split at switches
    · cases switches
      exact ⟨⟨fits, apart, inside⟩, by first | exact fine_sounds trivial | simp [Fine]⟩
    · cases switches
      exact ⟨⟨fits, apart, inside⟩, by simp⟩
  | musicOn | midiOn | midiOff =>
    cases switches
    exact ⟨⟨fits, apart, inside⟩, by simp [Fine]⟩
  | musicOff | musicMode =>
    cases switches
    exact ⟨⟨fits, apart, inside⟩, fine_sounds trivial⟩
  | _ => cases switches

theorem controls_controlRecorder (sound : Sound state) {key : Key} {done : State × List Effect}
    (controls : controlRecorder state key = some done) : Controls state done := by
  obtain ⟨fits, apart, inside⟩ := sound
  cases key with
  | leftCtrl =>
    cases controls
    exact ⟨⟨Nat.zero_le _, fun _ => rfl, nofun⟩, fine_sounds trivial⟩
  | leftAlt =>
    cases controls
    exact ⟨⟨fits, nofun, nofun⟩, fine_sounds trivial⟩
  | leftGui =>
    simp only [controlRecorder] at controls
    split at controls
    · cases controls
      exact ⟨⟨fits, nofun, fun _ => .inl rfl⟩, fine_sounds trivial⟩
    · cases controls
  | up | down =>
    cases controls
    exact ⟨⟨fits, apart, inside⟩, by simp⟩
  | _ => cases controls

theorem safe_playKey_iff (pressed : Bool) (row col : BitVec 8) :
    (∀ effect ∈ (playKey cfg state pressed row col).2, Fine state.count effect) ↔
      (pressed = true → state.recording = true → state.count < 16) := by
  have on : Fine state.count (.noteOn (noteOf cfg state row col)) := trivial
  have off : Fine state.count (.noteOff (noteOf cfg state row col)) := trivial
  cases pressed with
  | false => exact iff_of_true (fine_sounds off) nofun
  | true =>
    by_cases recording : state.recording = true
    · have effects : (playKey cfg state true row col).2 =
          state.sounds (.noteOn (noteOf cfg state row col)) ++ [.access state.count.toNat] := by
        simp [playKey, recording]
      rw [effects, List.forall_mem_append, and_iff_right (fine_sounds on),
        List.forall_mem_singleton]
      simp only [Fine, recording, forall_const, BitVec.lt_def]
      change _ ↔ state.count.toNat < 16
      omega
    · have effects : (playKey cfg state true row col).2 =
          state.sounds (.noteOn (noteOf cfg state row col)) := by
        simp [playKey, recording]
      rw [effects]
      exact iff_of_true (fine_sounds on) fun _ here => absurd here recording

theorem sound_playKey (sound : Sound state) {pressed : Bool}
    (room : pressed = true → state.recording = true → state.count < 16) (row col : BitVec 8) :
    Sound (playKey cfg state pressed row col).1 := by
  unfold playKey
  dsimp only
  split
  · rename_i press
    split
    · rename_i recording
      have below := room press recording
      have next : (state.count + 1).toNat = state.count.toNat + 1 := by
        rw [BitVec.toNat_add]
        rw [BitVec.lt_def] at below
        change state.count.toNat < 16 at below
        exact Nat.mod_eq_of_lt (by change state.count.toNat + 1 < 256; omega)
      have stopped := sound.apart recording
      refine ⟨?_, fun _ => stopped, fun playing => ?_⟩
      · change (state.count + 1).toNat ≤ 16
        rw [BitVec.lt_def] at below
        change state.count.toNat < 16 at below
        omega
      · change state.playing = true at playing
        rw [stopped] at playing
        cases playing
    · exact sound
  · exact sound

/-- What is handled of a key -/
theorem processMusic_cases (cfg : Config) (state : State) (key : Key) (pressed : Bool)
    (row col : BitVec 8) :
    (∃ done, processMusic cfg state key pressed row col = done ∧
        (switchModes state key = some done ∨ controlRecorder state key = some done) ∧
        (pressed = true → ¬ state.records key)) ∨
      (processMusic cfg state key pressed row col = (state, []) ∧ ¬ state.records key) ∨
      (processMusic cfg state key pressed row col = playKey cfg state pressed row col ∧
        (pressed = true → (state.records key ↔ state.recording = true))) := by
  by_cases active : state.active = true
  · cases pressed with
    | false => exact .inr (.inr ⟨by simp [processMusic, active], nofun⟩)
    | true =>
      cases switches : switchModes state key with
      | some done =>
        refine .inl ⟨done, by simp [processMusic, switches], .inl rfl, fun _ records => ?_⟩
        rw [records.2.2.1] at switches
        cases switches
      | none =>
        cases controls : controlRecorder state key with
        | some done =>
          refine .inl ⟨done, by simp [processMusic, switches, active, controls], .inr rfl,
            fun _ records => ?_⟩
          rw [records.2.2.2] at controls
          cases controls
        | none =>
          refine .inr (.inr ⟨by simp [processMusic, switches, active, controls], fun _ => ?_⟩)
          simp [State.records, active, switches, controls]
  · have silent : ¬ state.records key := fun records => active records.2.1
    cases pressed with
    | false => exact .inr (.inl ⟨by simp [processMusic, active], silent⟩)
    | true =>
      cases switches : switchModes state key with
      | some done => exact .inl ⟨done, by simp [processMusic, switches], .inl rfl, fun _ => silent⟩
      | none => exact .inr (.inl ⟨by simp [processMusic, switches, active], silent⟩)

theorem key_spec (sound : Sound state) (key : Key) (pressed : Bool) (row col : BitVec 8) :
    (Safe cfg state (.key key pressed row col) ↔ Careful state (.key key pressed row col)) ∧
      (Careful state (.key key pressed row col) →
        Sound (step cfg state (.key key pressed row col))) := by
  unfold Safe step perform
  dsimp only
  rcases processMusic_cases cfg state key pressed row col with
    ⟨done, same, found, free⟩ | ⟨same, free⟩ | ⟨same, records⟩
  · have controls : Controls state done := by
      rcases found with switches | controls
      · exact controls_switchModes sound switches
      · exact controls_controlRecorder sound controls
    rw [same]
    exact ⟨iff_of_true controls.fine fun press here => absurd here (free press),
      fun _ => controls.sound⟩
  · rw [same]
    exact ⟨iff_of_true (by simp) fun _ here => absurd here free, fun _ => sound⟩
  · rw [same]
    have room : Careful state (.key key pressed row col) ↔
        (pressed = true → state.recording = true → state.count < 16) :=
      forall_congr' fun press => by rw [records press]
    rw [room]
    exact ⟨safe_playKey_iff pressed row col, fun here => sound_playKey sound here row col⟩

/-- Where something is recorded, the two indices of a turn are below the count. -/
theorem indices_lt (sound : Sound state) (playing : state.playing = true)
    (some : state.count.toNat ≠ 0) :
    state.position.toNat < state.count.toNat ∧ 0 ≤ state.previous ∧
      state.previous < state.count.toNat := by
  have inside : state.position.toNat < state.count.toNat := by
    rcases sound.inside playing with start | inside
    · rw [start]
      exact Nat.pos_of_ne_zero some
    · exact inside
  refine ⟨inside, ?_⟩
  unfold State.previous
  dsimp only
  split <;> omega

theorem task_spec (sound : Sound state) (elapsedAt now : BitVec 16) :
    (Safe cfg state (.task elapsedAt now) ↔ Careful state (.task elapsedAt now)) ∧
      (Careful state (.task elapsedAt now) → Sound (step cfg state (.task elapsedAt now))) := by
  unfold Safe step perform
  dsimp only
  by_cases due : state.due elapsedAt = true
  · have playing : state.playing = true := by
      unfold State.due at due
      exact (Bool.and_eq_true _ _ ▸ due).1
    have zero : state.count = 0 ↔ state.count.toNat = 0 :=
      ⟨fun none => by rw [none]; rfl, fun none => BitVec.eq_of_toNat_eq none⟩
    have careful : Careful state (.task elapsedAt now) ↔ state.count.toNat ≠ 0 := by
      simp only [Careful, due, forall_const, ne_eq, zero]
    have fits := sound.fits
    rw [careful]
    unfold musicTask
    rw [if_pos due]
    constructor
    · simp only [List.forall_mem_append, List.forall_mem_cons]
      constructor
      · rintro ⟨-, divides, -⟩
        exact divides
      · intro some
        obtain ⟨inside, low, high⟩ := indices_lt sound playing some
        refine ⟨⟨⟨⟨⟨low, by omega, by omega⟩, ⟨by omega, by omega, by omega⟩, by simp⟩, ?_⟩, ?_⟩,
          some, by simp⟩
        · exact fine_sounds trivial
        · exact fine_sounds trivial
    · intro some
      have wraps := Nat.mod_lt (state.position.toNat + 1) (Nat.pos_of_ne_zero some)
      refine ⟨fits, sound.apart, fun _ => .inr ?_⟩
      change (BitVec.ofNat 8 ((state.position.toNat + 1) % state.count.toNat)).toNat < _
      rw [BitVec.toNat_ofNat]
      exact Nat.lt_of_le_of_lt (Nat.mod_le _ _) wraps
  · unfold musicTask
    rw [if_neg due]
    exact ⟨iff_of_true (by simp) fun here => absurd here due, fun _ => sound⟩

theorem sound_initial : Sound {} := ⟨Nat.zero_le _, fun _ => rfl, nofun⟩

/-- In every run of keys and tasks, every access is inside of the sequence and no reduction is
modulo zero exactly if at most 16 notes are recorded and no empty recording is played. -/
theorem safe_iff_careful (cfg : Config) (events : List Event) :
    Along (step cfg) (Safe cfg) {} events ↔ Along (step cfg) Careful {} events := by
  have spec (state : State) (event : Event) (sound : Sound state) :
      (Safe cfg state event ↔ Careful state event) ∧
        (Careful state event → Sound (step cfg state event)) := by
    cases event with
    | key key pressed row col => exact key_spec sound key pressed row col
    | task elapsedAt now => exact task_spec sound elapsedAt now
  exact along_congr
    (fun state event sound safe => (spec state event sound).2 ((spec state event sound).1.mp safe))
    (fun state event sound => (spec state event sound).1) sound_initial events

/-- A recording of nothing is played from index -1 and reduced modulo zero, and the seventeenth
note is written behind the sequence. -/
theorem empty_and_long_recording_break :
    ¬ Along (step ⟨4⟩) (Safe ⟨4⟩) {}
        [.key .musicOn true 0 0, .key .leftCtrl true 0 0, .key .leftAlt true 0 0,
          .key .leftGui true 0 0, .task 5 5] ∧
      ¬ Along (step ⟨4⟩) (Safe ⟨4⟩) {}
        ([.key .musicOn true 0 0, .key .leftCtrl true 0 0] ++
          List.replicate 17 (.key (.other 4) true 0 0)) := by
  constructor <;> decide

end QmkSonix.Music
