import QmkSonix.Audio.Melody

/-! The notes of a melody laid end to end, and when the updates keep to them. -/

namespace QmkSonix.Audio

open QmkSonix.Lib

variable {cfg : Config}

section Schedule

/-- When a note starts in a song that is laid end to end from a time on -/
def noteStart (cfg : Config) (song : Song) (start : ℕ) : ℕ → ℕ
  | 0 => start
  | note + 1 => noteStart cfg song start note + (cfg.durationToMs (song.notes note).2).toNat

/-- A melody and the time of the last call -/
structure Timed where
  state : State
  now : ℕ

/-- A call some time behind the last one, with a single value of the timer -/
structure Call where
  gap : ℕ
  effects : Bool := false

def Call.reads (call : Call) (now : ℕ) : Reads :=
  let time := BitVec.ofNat 16 now
  ⟨time, time, time, time, fun _ => time, call.effects⟩

def callStep (cfg : Config) (timed : Timed) (call : Call) : Timed where
  state := (audioUpdateState cfg timed.state (call.reads (timed.now + call.gap))).1
  now := timed.now + call.gap

/-- What `timer_elapsed` counts since the last change of the note -/
def Timed.elapsed (timed : Timed) : ℕ :=
  (BitVec.ofNat 16 timed.now - timed.state.melody.lastTimestamp).toNat

/-- The time until an update changes the note -/
def Timed.timeLeft (timed : Timed) : ℕ :=
  timed.state.melody.currentNoteDuration.toNat - timed.elapsed

/-- Before the end of the song, the current note is the one whose interval the time is in, and
it is played for the rest of the interval. -/
def InTempo (cfg : Config) (song : Song) (start : ℕ) (timed : Timed) : Prop :=
  timed.now < noteStart cfg song start song.count.toNat →
    noteStart cfg song start timed.state.melody.currentNote.toNat ≤ timed.now ∧
      timed.now < noteStart cfg song start (timed.state.melody.currentNote.toNat + 1) ∧
      timed.timeLeft =
        noteStart cfg song start (timed.state.melody.currentNote.toNat + 1) - timed.now

/-- Before the end of the song, a call comes while the timer still tells how long ago the note
has changed, and not at the very start of a note behind the next one. -/
def Prompt (cfg : Config) (song : Song) (start : ℕ) (timed : Timed) (call : Call) : Prop :=
  timed.now + call.gap < noteStart cfg song start song.count.toNat →
    timed.elapsed + call.gap < 65536 ∧
      ∀ note, timed.state.melody.currentNote.toNat + 2 ≤ note → note < song.count.toNat →
        timed.now + call.gap ≠ noteStart cfg song start note

theorem noteStart_mono (cfg : Config) (song : Song) (start : ℕ) :
    Monotone (noteStart cfg song start) :=
  monotone_nat_of_le_succ fun _ => Nat.le_add_right _ _

theorem noteStart_succ_lt (cfg : Config) (song : Song) (start note : ℕ) :
    noteStart cfg song start (note + 1) < noteStart cfg song start note + 65536 :=
  Nat.add_lt_add_left (cfg.durationToMs (song.notes note).2).isLt _

end Schedule

section Skipping

/-- What the loop over missed notes comes to: the first note that does not end before a time -/
structure Skipped (cfg : Config) (song : Song) (start first time : ℕ)
    (skipped : BitVec 16 × BitVec 16 × BitVec 16) : Prop where
  duration : skipped.2.2 = cfg.durationToMs (song.notes skipped.1.toNat).2
  inside : skipped.1.toNat < song.count.toNat
  ahead : first ≤ skipped.1.toNat
  lateness : noteStart cfg song start skipped.1.toNat + skipped.2.1.toNat = time
  reached : time ≤ noteStart cfg song start (skipped.1.toNat + 1)
  missed : ∀ note, first < note → note ≤ skipped.1.toNat → noteStart cfg song start note < time

theorem skipped_skipNotes (song : Song) (start : ℕ) {left time : ℕ} {current delta : BitVec 16}
    (last : current.toNat + left + 1 = song.count.toNat)
    (late : noteStart cfg song start current.toNat + delta.toNat = time)
    (before : time < noteStart cfg song start song.count.toNat) :
    Skipped cfg song start current.toNat time (skipNotes cfg song left current delta) := by
  induction left generalizing current delta with
  | zero =>
    have inside : current.toNat < song.count.toNat := by omega
    have behind : song.count.toNat = current.toNat + 1 := by omega
    rw [behind] at before
    exact ⟨rfl, inside, le_rfl, late, before.le, fun note less more => absurd less (by
      change note ≤ current.toNat at more
      omega)⟩
  | succ left ih =>
    have count := song.count.isLt
    have next : (current + 1).toNat = current.toNat + 1 := by
      rw [BitVec.toNat_add]
      exact Nat.mod_eq_of_lt (by change current.toNat + 1 < 65536; omega)
    rw [skipNotes]
    split
    · rename_i exhausted
      rw [BitVec.lt_def] at exhausted
      have remaining : (delta - cfg.durationToMs (song.notes current.toNat).2).toNat =
          delta.toNat - (cfg.durationToMs (song.notes current.toNat).2).toNat :=
        BitVec.toNat_sub_of_le exhausted.le
      have started : noteStart cfg song start (current + 1).toNat =
          noteStart cfg song start current.toNat +
            (cfg.durationToMs (song.notes current.toNat).2).toNat := by
        rw [next]
        rfl
      have later : noteStart cfg song start (current + 1).toNat +
          (delta - cfg.durationToMs (song.notes current.toNat).2).toNat = time := by omega
      have skipped := ih (by omega) later
      refine ⟨skipped.duration, skipped.inside, ?_, skipped.lateness, skipped.reached, ?_⟩
      · have ahead := skipped.ahead
        omega
      · intro note behind upTo
        by_cases next : note = (current + 1).toNat
        · rw [next, started]
          omega
        · exact skipped.missed note (by omega) upTo
    · rename_i room
      rw [BitVec.lt_def] at room
      refine ⟨rfl, by change current.toNat < _; omega, le_rfl, late, ?_, ?_⟩
      · change time ≤ noteStart cfg song start current.toNat +
          (cfg.durationToMs (song.notes current.toNat).2).toNat
        omega
      · intro note behind upTo
        change note ≤ current.toNat at upTo
        omega

end Skipping

section Steps

/-- What holds of a melody whose notes have changed in time so far -/
structure InStep (cfg : Config) (song : Song) (start : ℕ) (timed : Timed) : Prop where
  coherent : Coherent cfg timed.state
  enabled : timed.state.enable = true
  playing : timed.state.melody.playing = true
  same : timed.state.melody.song = song
  sounds : timed.state.melody.noteResting = false
  inside : timed.state.melody.currentNote.toNat < song.count.toNat
  begun : noteStart cfg song start timed.state.melody.currentNote.toNat + timed.elapsed ≤ timed.now
  clock : timed.now + timed.state.melody.currentNoteDuration.toNat =
    noteStart cfg song start (timed.state.melody.currentNote.toNat + 1) + timed.elapsed

/-- What the timer counts some time later, in its 16 bits -/
theorem elapsed_later (timed : Timed) (gap : ℕ) :
    (BitVec.ofNat 16 (timed.now + gap) - timed.state.melody.lastTimestamp).toNat =
      (timed.elapsed + gap) % 65536 := by
  unfold Timed.elapsed
  rw [BitVec.toNat_sub, BitVec.toNat_sub, BitVec.toNat_ofNat, BitVec.toNat_ofNat]
  omega

/-- A melody behind an update that has changed its note at a time, where the notes are counted
as if it were another one -/
structure Changed (cfg : Config) (song : Song) (start first time now : ℕ) (melody : Melody) :
    Prop where
  playing : melody.playing = true
  same : melody.song = song
  sounds : melody.noteResting = false
  lastTimestamp : melody.lastTimestamp = BitVec.ofNat 16 now
  inside : melody.currentNote.toNat < song.count.toNat
  ahead : first ≤ melody.currentNote.toNat
  begun : noteStart cfg song start melody.currentNote.toNat ≤ time
  reached : time ≤ noteStart cfg song start (melody.currentNote.toNat + 1)
  missed : ∀ note, first < note → note ≤ melody.currentNote.toNat →
    noteStart cfg song start note < time
  duration : melody.currentNoteDuration.toNat =
    if time < noteStart cfg song start (melody.currentNote.toNat + 1) then
      noteStart cfg song start (melody.currentNote.toNat + 1) - time
    else 1

/-- An update that finds the note over changes it. -/
theorem changed_nextNote {song : Song} (distinct : ∀ note, note + 1 < song.count.toNat →
      (song.notes note).1 ≠ (song.notes (note + 1)).1)
    {start time now : ℕ} {melody : Melody} (playing : melody.playing = true)
    (same : melody.song = song) (sounds : melody.noteResting = false) {reads : Reads}
    (current : reads.currentTime = BitVec.ofNat 16 now)
    (more : melody.currentNote.toNat + 1 < song.count.toNat)
    (late : noteStart cfg song start (melody.currentNote.toNat + 1) +
      (reads.delta - melody.lastTimestamp - melody.currentNoteDuration).toNat = time)
    (before : time < noteStart cfg song start song.count.toNat) :
    Changed cfg song start (melody.currentNote.toNat + 1) time now (nextNote cfg melody reads).1 ∧
      (nextNote cfg melody reads).2 ≠ .ends := by
  have inside : melody.Inside := by
    unfold Melody.Inside
    rw [same]
    omega
  have next := next_toNat inside
  have goesOn : ¬ melody.song.count ≤ melody.currentNote + 1 := by
    rw [BitVec.le_def, next, same]
    omega
  have other : (melody.song.notes melody.currentNote.toNat).1 ≠
      (melody.song.notes (melody.currentNote + 1).toNat).1 := by
    rw [same, next]
    exact distinct _ more
  rw [← next] at late
  have last : (melody.currentNote + 1).toNat +
      (song.count.toNat - 1 - (melody.currentNote + 1).toNat) + 1 = song.count.toNat := by omega
  have skipped := skipped_skipNotes song start last late before
  unfold nextNote
  rw [if_neg fun ended => goesOn ended.1]
  simp only [if_neg goesOn]
  rw [if_neg fun equal => other equal.2, same]
  generalize skipNotes cfg song (song.count.toNat - 1 - (melody.currentNote + 1).toNat)
    (melody.currentNote + 1) (reads.delta - melody.lastTimestamp - melody.currentNoteDuration) =
    result at skipped ⊢
  obtain ⟨note, delta, duration⟩ := result
  obtain ⟨lasts, inside, ahead, lateness, reached, missed⟩ := skipped
  dsimp only at lasts inside ahead lateness reached missed ⊢
  rw [next] at ahead missed
  have ends : noteStart cfg song start (note.toNat + 1) =
      noteStart cfg song start note.toNat + duration.toNat := by
    rw [lasts]
    rfl
  have begun : noteStart cfg song start note.toNat ≤ time := by omega
  refine ⟨⟨playing, rfl, rfl, current, inside, ahead, begun, reached, missed, ?_⟩, by simp⟩
  change (if delta < duration then duration - delta else 1).toNat =
    if time < noteStart cfg song start (note.toNat + 1) then
      noteStart cfg song start (note.toNat + 1) - time else 1
  rw [ends]
  split
  · rename_i part
    rw [BitVec.lt_def] at part
    rw [if_pos (by omega), BitVec.toNat_sub_of_le part.le]
    omega
  · rename_i exhausted
    rw [BitVec.lt_def] at exhausted
    rw [if_neg (by omega)]
    rfl

/-- What a call makes of a melody that is in step: the note stays, or it changes as if the call
came at the time that the timer counts. -/
theorem call_cases {song : Song} (distinct : ∀ note, note + 1 < song.count.toNat →
      (song.notes note).1 ≠ (song.notes (note + 1)).1)
    {start : ℕ} {timed : Timed} (inStep : InStep cfg song start timed) (call : Call)
    (before : timed.now + call.gap < noteStart cfg song start song.count.toNat) :
    let heard := (timed.elapsed + call.gap) % 65536
    let melody := timed.state.melody
    (heard < melody.currentNoteDuration.toNat ∧
        (callStep cfg timed call).state.melody = melody) ∨
      (melody.currentNoteDuration.toNat ≤ heard ∧
        Changed cfg song start (melody.currentNote.toNat + 1)
          (timed.now - timed.elapsed + heard) (timed.now + call.gap)
          (callStep cfg timed call).state.melody) := by
  intro heard melody
  have update := melody_update inStep.coherent inStep.enabled
    (call.reads (timed.now + call.gap))
  have hears : ((call.reads (timed.now + call.gap)).elapsed - melody.lastTimestamp).toNat = heard :=
    elapsed_later timed call.gap
  by_cases due : melody.currentNoteDuration.toNat ≤ heard
  · refine .inr ⟨due, ?_⟩
    have begun := inStep.begun
    have clock := inStep.clock
    have atMost : heard ≤ timed.elapsed + call.gap := Nat.mod_le _ _
    have more : melody.currentNote.toNat + 1 < song.count.toNat := by
      by_contra last
      have behind : song.count.toNat = melody.currentNote.toNat + 1 := by
        have inside := inStep.inside
        change melody.currentNote.toNat < _ at inside
        omega
      rw [behind] at before
      change timed.now + melody.currentNoteDuration.toNat =
        noteStart cfg song start (melody.currentNote.toNat + 1) + timed.elapsed at clock
      omega
    have advances : advanceMelody cfg melody (call.reads (timed.now + call.gap)) =
        nextNote cfg melody (call.reads (timed.now + call.gap)) := by
      have past : melody.currentNoteDuration ≤
          (call.reads (timed.now + call.gap)).elapsed - melody.lastTimestamp := by
        rw [BitVec.le_def, hears]
        exact due
      simp [advanceMelody, show melody.playing = true from inStep.playing, past]
    have lateness : ((call.reads (timed.now + call.gap)).delta - melody.lastTimestamp -
        melody.currentNoteDuration).toNat = heard - melody.currentNoteDuration.toNat := by
      have hears : ((call.reads (timed.now + call.gap)).delta - melody.lastTimestamp).toNat =
        heard := hears
      rw [BitVec.toNat_sub_of_le (by rw [BitVec.le_def, hears]; exact due), hears]
    have late : noteStart cfg song start (melody.currentNote.toNat + 1) +
        ((call.reads (timed.now + call.gap)).delta - melody.lastTimestamp -
          melody.currentNoteDuration).toNat = timed.now - timed.elapsed + heard := by
      rw [lateness]
      change timed.now + melody.currentNoteDuration.toNat =
        noteStart cfg song start (melody.currentNote.toNat + 1) + timed.elapsed at clock
      omega
    have sooner : timed.now - timed.elapsed + heard <
        noteStart cfg song start song.count.toNat := by omega
    have current : (call.reads (timed.now + call.gap)).currentTime =
        BitVec.ofNat 16 (timed.now + call.gap) := rfl
    have changed := changed_nextNote distinct inStep.playing inStep.same inStep.sounds current more
      late sooner
    rw [advances, if_neg changed.2] at update
    change Changed cfg song start _ _ _ (audioUpdateState cfg timed.state _).1.melody
    rw [update]
    exact changed.1
  · refine .inl ⟨by omega, ?_⟩
    have waits : advanceMelody cfg melody (call.reads (timed.now + call.gap)) =
        (melody, .stays) := by
      have early : ¬ melody.currentNoteDuration ≤
          (call.reads (timed.now + call.gap)).elapsed - melody.lastTimestamp := by
        rw [BitVec.le_def, hears]
        exact due
      simp [advanceMelody, early]
    rw [waits, if_neg (by simp)] at update
    exact update

/-- A call keeps the tempo exactly if it is prompt. -/
theorem inTempo_call_iff {song : Song} (distinct : ∀ note, note + 1 < song.count.toNat →
      (song.notes note).1 ≠ (song.notes (note + 1)).1)
    {start : ℕ} {timed : Timed} (inStep : InStep cfg song start timed) (call : Call)
    (before : timed.now + call.gap < noteStart cfg song start song.count.toNat) :
    InTempo cfg song start (callStep cfg timed call) ↔ Prompt cfg song start timed call := by
  have begun := inStep.begun
  have clock := inStep.clock
  have short := timed.state.melody.currentNoteDuration.isLt
  have increasing := noteStart_mono cfg song start
  have now : (callStep cfg timed call).now = timed.now + call.gap := rfl
  unfold InTempo Prompt
  rw [now, forall_prop_of_true before, forall_prop_of_true before]
  rcases call_cases distinct inStep call before with ⟨early, stays⟩ | ⟨due, changed⟩
  · have hears : (callStep cfg timed call).elapsed = (timed.elapsed + call.gap) % 65536 := by
      unfold Timed.elapsed
      rw [now, stays]
      exact elapsed_later timed call.gap
    unfold Timed.timeLeft
    rw [hears, stays]
    constructor
    · rintro ⟨-, ends, -⟩
      refine ⟨by omega, fun note later _ same => ?_⟩
      have := increasing (show timed.state.melody.currentNote.toNat + 1 ≤ note by omega)
      omega
    · rintro ⟨told, -⟩
      rw [Nat.mod_eq_of_lt told] at early ⊢
      omega
  · have hears : (callStep cfg timed call).elapsed = 0 := by
      unfold Timed.elapsed
      rw [now, changed.lastTimestamp, BitVec.sub_self]
      rfl
    have long := noteStart_succ_lt cfg song start
      (callStep cfg timed call).state.melody.currentNote.toNat
    have ahead := changed.ahead
    have started := changed.begun
    have reached := changed.reached
    unfold Timed.timeLeft
    rw [hears, changed.duration, Nat.sub_zero]
    constructor
    · rintro ⟨-, ends, -⟩
      have told : timed.elapsed + call.gap < 65536 := by omega
      rw [Nat.mod_eq_of_lt told] at changed
      refine ⟨told, fun note later _ same => ?_⟩
      by_cases passed : note ≤ (callStep cfg timed call).state.melody.currentNote.toNat
      · have missed := changed.missed note (by omega) passed
        omega
      · have := increasing (show (callStep cfg timed call).state.melody.currentNote.toNat + 1 ≤ note
          by omega)
        omega
    · rintro ⟨told, apart⟩
      rw [Nat.mod_eq_of_lt told] at started reached ⊢
      have inside := changed.inside
      have ends : timed.now + call.gap <
          noteStart cfg song start
            ((callStep cfg timed call).state.melody.currentNote.toNat + 1) := by
        by_cases last : (callStep cfg timed call).state.melody.currentNote.toNat + 1 =
            song.count.toNat
        · rw [last]
          exact before
        · have := apart ((callStep cfg timed call).state.melody.currentNote.toNat + 1) (by omega)
            (by omega)
          omega
      rw [if_pos (by omega)]
      omega

/-- A melody stays in step with a prompt call. -/
theorem inStep_call {song : Song} (distinct : ∀ note, note + 1 < song.count.toNat →
      (song.notes note).1 ≠ (song.notes (note + 1)).1)
    {start : ℕ} {timed : Timed} (inStep : InStep cfg song start timed) (call : Call)
    (before : timed.now + call.gap < noteStart cfg song start song.count.toNat)
    (prompt : Prompt cfg song start timed call) :
    InStep cfg song start (callStep cfg timed call) := by
  have tempo := (inTempo_call_iff distinct inStep call before).mpr prompt before
  have follows := follows_update inStep.coherent inStep.enabled (call.reads (timed.now + call.gap))
  have enabled := follows.enable.trans inStep.enabled
  have begun := inStep.begun
  have clock := inStep.clock
  have told := (prompt before).1
  have now : (callStep cfg timed call).now = timed.now + call.gap := rfl
  rcases call_cases distinct inStep call before with ⟨early, stays⟩ | ⟨due, changed⟩
  · have hears : (callStep cfg timed call).elapsed = timed.elapsed + call.gap := by
      unfold Timed.elapsed
      rw [now, stays, elapsed_later timed call.gap]
      exact Nat.mod_eq_of_lt told
    refine ⟨follows.coherent, enabled, ?_, ?_, ?_, ?_, ?_, ?_⟩
    · rw [stays]
      exact inStep.playing
    · rw [stays]
      exact inStep.same
    · rw [stays]
      exact inStep.sounds
    · rw [stays]
      exact inStep.inside
    · rw [stays, hears, now]
      omega
    · rw [stays, hears, now]
      omega
  · have hears : (callStep cfg timed call).elapsed = 0 := by
      unfold Timed.elapsed
      rw [now, changed.lastTimestamp, BitVec.sub_self]
      rfl
    obtain ⟨started, ends, left⟩ := tempo
    unfold Timed.timeLeft at left
    rw [hears] at left
    exact ⟨follows.coherent, enabled, changed.playing, changed.same, changed.sounds, changed.inside,
      by omega, by omega⟩

/-- A melody that was started in any state of the audio system -/
def beginMelody (cfg : Config) (history : List Event) (song : Song) (notesRepeat : Bool)
    (timeStarted : BitVec 16) (start : ℕ) : Timed where
  state := audioPlayMelody cfg (run (step cfg) (audioInit cfg true) history) song notesRepeat
    timeStarted (BitVec.ofNat 16 start)
  now := start

theorem inStep_start (cfg : Config) (history : List Event) (song : Song) (notesRepeat : Bool)
    (timeStarted : BitVec 16) (start : ℕ) :
    InStep cfg song start (beginMelody cfg history song notesRepeat timeStarted start) := by
  have sound : Coherent cfg (run (step cfg) (audioInit cfg true) history) ∧
      (run (step cfg) (audioInit cfg true) history).enable = true := by
    refine run_keeps (fun state => Coherent cfg state ∧ state.enable = true) ?_
      ⟨coherent_audioInit cfg true, rfl⟩ history
    rintro state event ⟨coherent, enabled⟩
    have follows := follows_step coherent enabled event
    exact ⟨follows.coherent, follows.enable.trans enabled⟩
  obtain ⟨coherent, enabled⟩ := sound
  have sounding := sounding_play coherent enabled song notesRepeat timeStarted
    (BitVec.ofNat 16 start)
  have melody := melody_playMelody cfg enabled song notesRepeat timeStarted (BitVec.ofNat 16 start)
  have hears : (beginMelody cfg history song notesRepeat timeStarted start).elapsed = 0 := by
    unfold Timed.elapsed beginMelody
    rw [melody, BitVec.sub_self]
    rfl
  have now : (beginMelody cfg history song notesRepeat timeStarted start).now = start := rfl
  have same : (beginMelody cfg history song notesRepeat timeStarted start).state.melody = _ := melody
  refine ⟨sounding.coherent, sounding.enabled, ?_, ?_, ?_, ?_, ?_, ?_⟩
  · rw [same]
  · rw [same]
  · rw [same]
  · rw [same]
    exact song.count_pos
  · rw [hears, now, same]
    exact le_rfl
  · rw [hears, now, same]
    rfl

end Steps

/-- In every schedule of a song whose consecutive notes have different pitches, the melody keeps
its tempo exactly if every call before its end is prompt. -/
theorem inTempo_iff_prompt (cfg : Config) (history : List Event) {song : Song}
    (distinct : ∀ note, note + 1 < song.count.toNat →
      (song.notes note).1 ≠ (song.notes (note + 1)).1)
    (notesRepeat : Bool) (timeStarted : BitVec 16) (start : ℕ) (calls : List Call) :
    Along (callStep cfg) (fun timed call => InTempo cfg song start (callStep cfg timed call))
        (beginMelody cfg history song notesRepeat timeStarted start) calls ↔
      Along (callStep cfg) (Prompt cfg song start)
        (beginMelody cfg history song notesRepeat timeStarted start) calls := by
  have initial := inStep_start cfg history song notesRepeat timeStarted start
  refine along_congr (fun timed call (inStep : timed.now <
      noteStart cfg song start song.count.toNat → InStep cfg song start timed) tempo before => ?_)
    (fun timed call inStep => ?_) (fun _ => initial) calls
  · have earlier : timed.now < noteStart cfg song start song.count.toNat :=
      Nat.lt_of_le_of_lt (Nat.le_add_right _ _) before
    exact inStep_call distinct (inStep earlier) call before
      ((inTempo_call_iff distinct (inStep earlier) call before).mp tempo)
  · by_cases before : timed.now + call.gap < noteStart cfg song start song.count.toNat
    · have earlier : timed.now < noteStart cfg song start song.count.toNat :=
        Nat.lt_of_le_of_lt (Nat.le_add_right _ _) before
      exact inTempo_call_iff distinct (inStep earlier) call before
    · exact iff_of_true (fun here => absurd here before) (fun here => absurd here before)

/-- A scale of notes of the same length -/
def scale (count duration : BitVec 16) (count_pos : 0 < count.toNat) : Song where
  notes := fun note => (220 * (note + 1), duration)
  count := count
  count_pos := count_pos

/-- Two notes of 10 ms with calls at 7 and 14 ms -/
theorem two_notes_in_tempo :
    Along (callStep soundCard)
      (fun timed call => InTempo soundCard (scale 2 10 Nat.two_pos) 0
        (callStep soundCard timed call))
      (beginMelody soundCard [] (scale 2 10 Nat.two_pos) false 0 0) [{ gap := 7 }, { gap := 7 }] := by
  have distinct : ∀ note, note + 1 < (scale 2 10 Nat.two_pos).count.toNat →
      ((scale 2 10 Nat.two_pos).notes note).1 ≠
        ((scale 2 10 Nat.two_pos).notes (note + 1)).1 := by
    intro note _ same
    simp [scale] at same
  refine (inTempo_iff_prompt soundCard [] distinct false 0 0 _).mpr ⟨fun _ => ⟨by decide, ?_⟩,
    fun _ => ⟨by decide, ?_⟩, trivial⟩
  · intro note later inside
    change 2 ≤ note at later
    change note < 2 at inside
    omega
  · intro note later inside
    change 2 ≤ note at later
    change note < 2 at inside
    omega

/-- A call at the very start of the third note stays at the second one for 1 ms, and a note of
40 s is not over for a call 70 s behind its start. -/
theorem note_boundary_and_wrap_break :
    ¬ Along (callStep soundCard)
        (fun timed call => InTempo soundCard (scale 3 10 (Nat.succ_pos 2)) 0
          (callStep soundCard timed call))
        (beginMelody soundCard [] (scale 3 10 (Nat.succ_pos 2)) false 0 0) [{ gap := 20 }] ∧
      ¬ Along (callStep soundCard)
        (fun timed call => InTempo soundCard (scale 2 40000 Nat.two_pos) 0
          (callStep soundCard timed call))
        (beginMelody soundCard [] (scale 2 40000 Nat.two_pos) false 0 0)
        [{ gap := 30000 }, { gap := 40000 }] := by
  constructor
  · rintro ⟨tempo, -⟩
    exact absurd (tempo (by decide)).2.1 (by decide +kernel)
  · rintro ⟨-, tempo, -⟩
    exact absurd (tempo (by decide)).2.1 (by decide)

end QmkSonix.Audio
