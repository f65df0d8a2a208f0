import QmkSonix.Sequencer.Model

/-! Every note that a track starts is released before the track starts another one, along
runs in which a track is released as it was started. -/

namespace QmkSonix.Sequencer

open QmkSonix.Lib

section Logs

/-- What a MIDI call does to the note of a track. -/
def heard (track : Nat) (note : Option Byte) (call : Midi) : Option Byte :=
  if call.track = track then
    if call.on then some call.note else if note = some call.note then none else note
  else note

/-- The note of a track that sounds behind some MIDI calls. -/
def sounding (calls : List Midi) (track : Nat) : Option Byte := calls.foldl (heard track) none

/-- No note is started on a track that sounds. -/
def Paired (calls : List Midi) : Prop :=
  ∀ before call after, calls = before ++ call :: after → call.on = true →
    sounding before call.track = none

@[simp] theorem sounding_nil (track : Nat) : sounding [] track = none := rfl

theorem sounding_append_one (calls : List Midi) (call : Midi) (track : Nat) :
    sounding (calls ++ [call]) track = heard track (sounding calls track) call := by
  simp [sounding]

theorem sounding_elsewhere {calls : List Midi} {call : Midi} {track : Nat}
    (apart : call.track ≠ track) : sounding (calls ++ [call]) track = sounding calls track := by
  rw [sounding_append_one, heard, if_neg apart]

theorem paired_nil : Paired [] := by
  intro before call after split
  simp at split

theorem Paired.append_one {calls : List Midi} {call : Midi} (paired : Paired calls)
    (free : call.on = true → sounding calls call.track = none) : Paired (calls ++ [call]) := by
  intro before other after split on
  rcases List.eq_nil_or_concat after with rfl | ⟨init, last, rfl⟩
  · obtain ⟨rfl, same⟩ := List.append_inj' split rfl
    obtain rfl := List.singleton_inj.mp same
    exact free on
  · rw [List.concat_eq_append, ← List.cons_append, ← List.append_assoc] at split
    obtain ⟨earlier, -⟩ := List.append_inj' split rfl
    exact paired before other init earlier on

end Logs

variable {cfg : Config}

namespace State

variable (s : State cfg)

/-- A track has been started in this step and is still to be released. -/
def toRelease (track : Nat) : Prop :=
  s.phase = .attack ∧ track < s.currentTrack ∨ s.phase = .release ∧ track ≤ s.currentTrack

/-- Notes are paired so far, what sounds is still to be released, and nothing sounds while
the sequencer is off. -/
structure Sound : Prop where
  paired : Paired s.midi
  pending : ∀ track note, sounding s.midi track = some note → s.toRelease track
  silent : s.enabled = false → ∀ track, sounding s.midi track = none

/-- Nothing sounds. -/
def quiet : Prop := ∀ call ∈ s.midi, sounding s.midi call.track = none

/-- Where the task releases a track that sounds, its step is still on for the track and
its note is the one that sounds. -/
def releasesStarted (clock : Reading → BitVec 16) : Prop :=
  s.enabled = true → s.phase = .release →
    cfg.phaseReleaseTimeout + s.currentTrack * cfg.trackThrottle ≤ elapsed s (clock .release) →
    sounding s.midi s.currentTrack = none ∨
      sounding s.midi s.currentTrack = some (currentNote s) ∧
        isSequencerStepOnForTrack s s.currentStep s.currentTrack = true

/-- The steps that leave no note behind. -/
def allowed : Event → Prop
  | .on _ | .off | .toggle _ => s.quiet
  | .task clock => s.releasesStarted clock
  | _ => True

instance : Decidable s.quiet := inferInstanceAs (Decidable (∀ _ ∈ _, _))

instance (clock : Reading → BitVec 16) : Decidable (s.releasesStarted clock) :=
  inferInstanceAs (Decidable (_ → _ → _ → _))

instance : ∀ event, Decidable (s.allowed event)
  | .on _ | .off | .toggle _ => inferInstanceAs (Decidable s.quiet)
  | .task clock => inferInstanceAs (Decidable (s.releasesStarted clock))
  | .setTrackNotes _ | .setTrackActivation _ _ | .toggleTrackActivation _
  | .toggleSingleActiveTrack _ | .setStep _ _ | .toggleStep _ | .setAllSteps _ | .setTempo _
  | .increaseTempo | .decreaseTempo | .setResolution _ | .increaseResolution
  | .decreaseResolution => inferInstanceAs (Decidable True)

end State

section Steps

variable {s : State cfg}

theorem sounding_of_absent {calls : List Midi} {track : Nat}
    (absent : ∀ call ∈ calls, call.track ≠ track) : sounding calls track = none := by
  induction calls using List.reverseRecOn with
  | nil => rfl
  | append_singleton earlier last ih =>
    rw [sounding_elsewhere (absent last (by simp))]
    exact ih fun call member => absent call (List.mem_append_left _ member)

theorem quiet_iff (s : State cfg) : s.quiet ↔ ∀ track, sounding s.midi track = none := by
  constructor
  · intro quiet track
    by_cases present : ∃ call ∈ s.midi, call.track = track
    · obtain ⟨call, member, rfl⟩ := present
      exact quiet call member
    · exact sounding_of_absent fun call member same => present ⟨call, member, same⟩
  · exact fun none call _ => none call.track

/-- Nothing sounds in a pause. -/
theorem State.Sound.pause (sound : s.Sound) (paused : s.phase = .pause) (track : Nat) :
    sounding s.midi track = none := by
  cases note : sounding s.midi track with
  | none => rfl
  | some value =>
    rcases sound.pending track value note with ⟨attacks, -⟩ | ⟨releases, -⟩
    · rw [paused] at attacks
      cases attacks
    · rw [paused] at releases
      cases releases

/-- A track that is about to be started is silent. -/
theorem State.Sound.current (sound : s.Sound) (attacks : s.phase = .attack) :
    sounding s.midi s.currentTrack = none := by
  cases note : sounding s.midi s.currentTrack with
  | none => rfl
  | some value =>
    rcases sound.pending _ value note with ⟨-, below⟩ | ⟨releases, -⟩
    · exact absurd below (lt_irrefl _)
    · rw [attacks] at releases
      cases releases

/-- Where nothing sounds, any state is fine. -/
theorem sound_of_silent (paired : Paired s.midi) (silent : ∀ track, sounding s.midi track = none) :
    s.Sound := by
  refine ⟨paired, fun track note sounds => ?_, fun _ => silent⟩
  rw [silent track] at sounds
  cases sounds

theorem attack_sound (sound : s.Sound) (enabled : s.enabled = true) (attacks : s.phase = .attack)
    (clock : Reading → BitVec 16) : (sequencerPhaseAttack s clock).Sound := by
  obtain ⟨t, isT⟩ : ∃ t, t = if s.currentTrack = 0 then { s with timer := clock .start } else s :=
    ⟨_, rfl⟩
  have same : t.midi = s.midi ∧ t.currentTrack = s.currentTrack ∧ t.phase = s.phase ∧
      t.enabled = s.enabled := by
    rw [isT]
    split <;> exact ⟨rfl, rfl, rfl, rfl⟩
  obtain ⟨midi, track, phase, on⟩ := same
  have timed : t.Sound := by
    refine ⟨midi ▸ sound.paired, fun other note sounds => ?_, fun off => ?_⟩
    · rw [midi] at sounds
      have pending := sound.pending other note sounds
      rw [State.toRelease, track, phase]
      exact pending
    · rw [on, enabled] at off
      cases off
  unfold sequencerPhaseAttack
  dsimp only
  rw [← isT]
  split
  · exact timed
  · -- The track's note is started, if its step is on.
    have free := timed.current (phase.trans attacks)
    have played : Paired (playCurrent t true).midi ∧ (playCurrent t true).currentTrack = t.currentTrack ∧
        (playCurrent t true).phase = .attack ∧ (playCurrent t true).enabled = true ∧
        ∀ other note, sounding (playCurrent t true).midi other = some note →
          other ≤ t.currentTrack := by
      have earlier (other : Nat) (note : Byte) (sounds : sounding t.midi other = some note) :
          other ≤ t.currentTrack := by
        rcases timed.pending other note sounds with ⟨-, below⟩ | ⟨-, below⟩
        · exact Nat.le_of_lt below
        · exact below
      unfold playCurrent
      split
      · refine ⟨timed.paired.append_one fun _ => free, rfl, phase.trans attacks, on.trans enabled,
          fun other note sounds => ?_⟩
        by_cases here : t.currentTrack = other
        · exact Nat.le_of_eq here.symm
        · have before : sounding t.midi other = some note :=
            (sounding_elsewhere here).symm.trans sounds
          exact earlier other note before
      · exact ⟨timed.paired, rfl, phase.trans attacks, on.trans enabled, earlier⟩
    obtain ⟨paired, still, attacking, running, below⟩ := played
    split
    · refine ⟨paired, fun other note sounds => Or.inl ⟨attacking, ?_⟩, fun off => ?_⟩
      · show other < (playCurrent t true).currentTrack + 1
        rw [still]
        exact Nat.lt_succ_of_le (below other note sounds)
      · exact absurd (running.symm.trans off) Bool.noConfusion
    · refine ⟨paired, fun other note sounds => Or.inr ⟨rfl, ?_⟩, fun off => ?_⟩
      · show other ≤ (playCurrent t true).currentTrack
        rw [still]
        exact below other note sounds
      · exact absurd (running.symm.trans off) Bool.noConfusion

/-- What the release of the current track does to the notes. -/
theorem sounding_released (s : State cfg) (track : Nat) :
    sounding (playCurrent s false).midi track =
      if track = s.currentTrack ∧ isSequencerStepOnForTrack s s.currentStep s.currentTrack = true ∧
          sounding s.midi track = some (currentNote s) then none
      else sounding s.midi track := by
  unfold playCurrent
  by_cases on : isSequencerStepOnForTrack s s.currentStep s.currentTrack = true
  · rw [if_pos on]
    by_cases here : track = s.currentTrack
    · subst here
      rw [sounding_append_one, heard, if_pos rfl, if_neg Bool.false_ne_true]
      simp only [on, true_and]
    · rw [sounding_elsewhere (Ne.symm here), if_neg fun both => here both.1]
  · rw [if_neg on, if_neg fun both => on both.2.1]

theorem released_paired (paired : Paired s.midi) : Paired (playCurrent s false).midi := by
  unfold playCurrent
  split
  · exact paired.append_one fun on => absurd on Bool.false_ne_true
  · exact paired

/-- The state behind a release that is due. -/
theorem release_due (clock : Reading → BitVec 16)
    (due : cfg.phaseReleaseTimeout + s.currentTrack * cfg.trackThrottle ≤
      elapsed s (clock .release)) :
    (sequencerPhaseRelease s clock).midi = (playCurrent s false).midi ∧
      (sequencerPhaseRelease s clock).enabled = s.enabled ∧
      ((sequencerPhaseRelease s clock).phase = .pause ∧ s.currentTrack = 0 ∨
        (sequencerPhaseRelease s clock).phase = s.phase ∧ 0 < s.currentTrack ∧
          (sequencerPhaseRelease s clock).currentTrack = s.currentTrack - 1) := by
  have kept : (playCurrent s false).enabled = s.enabled ∧
      (playCurrent s false).phase = s.phase ∧
      (playCurrent s false).currentTrack = s.currentTrack := by
    unfold playCurrent
    split <;> exact ⟨rfl, rfl, rfl⟩
  obtain ⟨enabled, phase, track⟩ := kept
  unfold sequencerPhaseRelease
  rw [if_neg (Nat.not_lt.mpr due)]
  dsimp only
  rw [track]
  split
  · rename_i more
    exact ⟨rfl, enabled, Or.inr ⟨phase, more, rfl⟩⟩
  · rename_i last
    exact ⟨rfl, enabled, Or.inl ⟨rfl, by omega⟩⟩

/-- A release keeps the notes in order exactly when it releases what was started. -/
theorem release_sound_iff (sound : s.Sound) (enabled : s.enabled = true)
    (releases : s.phase = .release) (clock : Reading → BitVec 16) :
    (sequencerPhaseRelease s clock).Sound ↔ s.releasesStarted clock := by
  by_cases due : cfg.phaseReleaseTimeout + s.currentTrack * cfg.trackThrottle ≤
      elapsed s (clock .release)
  · obtain ⟨midi, on, moved⟩ := release_due clock due
    -- The track that was visited is not visited again.
    have visited : ¬(sequencerPhaseRelease s clock).toRelease s.currentTrack := by
      rintro (⟨phase, below⟩ | ⟨phase, below⟩)
      · rcases moved with ⟨pauses, -⟩ | ⟨still, -, -⟩
        · rw [pauses] at phase
          cases phase
        · rw [still, releases] at phase
          cases phase
      · rcases moved with ⟨pauses, -⟩ | ⟨-, positive, track⟩
        · rw [pauses] at phase
          cases phase
        · rw [track] at below
          omega
    constructor
    · intro after _ _ _
      cases note : sounding s.midi s.currentTrack with
      | none => exact Or.inl rfl
      | some value =>
        right
        by_contra wrong
        have stays : sounding (sequencerPhaseRelease s clock).midi s.currentTrack = some value := by
          rw [midi, sounding_released, if_neg, note]
          rintro ⟨-, stepOn, same⟩
          exact wrong ⟨note.symm.trans same, stepOn⟩
        exact visited (after.pending _ _ stays)
    · intro started
      have silenced : sounding (playCurrent s false).midi s.currentTrack = none := by
        rw [sounding_released]
        rcases started enabled releases due with none | ⟨note, stepOn⟩
        · rw [none, ite_self]
        · rw [if_pos ⟨rfl, stepOn, note⟩]
      refine ⟨midi ▸ released_paired sound.paired, fun track note sounds => ?_, fun off => ?_⟩
      · rw [midi] at sounds
        have before : sounding s.midi track = some note := by
          rw [sounding_released] at sounds
          split at sounds
          · cases sounds
          · exact sounds
        have apart : track ≠ s.currentTrack := by
          rintro rfl
          rw [silenced] at sounds
          cases sounds
        have below : track ≤ s.currentTrack := by
          rcases sound.pending track note before with ⟨attacks, -⟩ | ⟨-, below⟩
          · rw [releases] at attacks
            cases attacks
          · exact below
        rcases moved with ⟨-, zero⟩ | ⟨still, -, lower⟩
        · omega
        · refine Or.inr ⟨still.trans releases, ?_⟩
          rw [lower]
          omega
      · rw [on, enabled] at off
        cases off
  · have waits : sequencerPhaseRelease s clock = s := if_pos (Nat.not_le.mp due)
    rw [waits]
    exact iff_of_true sound fun _ _ elapsed => absurd elapsed due

theorem task_sound_iff (sound : s.Sound) (clock : Reading → BitVec 16) :
    (sequencerTask s clock).Sound ↔ s.releasesStarted clock := by
  cases enabled : s.enabled with
  | false =>
    have idle : sequencerTask s clock = s := by simp [sequencerTask, enabled]
    rw [idle]
    exact iff_of_true sound fun on => absurd on (by simp [enabled])
  | true =>
    cases phase : s.phase with
    | attack =>
      have attacks : sequencerTask s clock = sequencerPhaseAttack s clock := by
        simp [sequencerTask, enabled, phase]
      rw [attacks]
      refine iff_of_true (attack_sound sound enabled phase clock) fun _ releases => ?_
      rw [phase] at releases
      cases releases
    | release =>
      have after : (sequencerPhaseRelease s clock).phase ≠ .attack := by
        by_cases due : cfg.phaseReleaseTimeout + s.currentTrack * cfg.trackThrottle ≤
            elapsed s (clock .release)
        · rcases (release_due clock due).2.2 with ⟨pauses, -⟩ | ⟨still, -, -⟩
          · simp [pauses]
          · simp [still, phase]
        · have waits : sequencerPhaseRelease s clock = s := if_pos (Nat.not_le.mp due)
          simp [waits, phase]
      have releases : sequencerTask s clock = sequencerPhaseRelease s clock := by
        simp [sequencerTask, enabled, phase, after]
      rw [releases]
      exact release_sound_iff sound enabled phase clock
    | pause =>
      refine iff_of_true ?_ fun _ releases => ?_
      · have silent := sound.pause phase
        by_cases waits : elapsed s (clock .pause) < getStepDuration s.tempo s.resolution
        · have still : sequencerTask s clock = s := by
            simp [sequencerTask, sequencerPhasePause, enabled, phase, waits]
          rw [still]
          exact sound
        · have next : sequencerTask s clock = sequencerPhaseAttack { s with
              currentStep := (s.currentStep + 1) % cfg.sequencerSteps, phase := .attack } clock := by
            simp [sequencerTask, sequencerPhasePause, enabled, phase, waits]
          have moved : ({ s with
              currentStep := (s.currentStep + 1) % cfg.sequencerSteps, phase := .attack } :
                State cfg).Sound := sound_of_silent sound.paired silent
          rw [next]
          exact attack_sound moved enabled rfl clock
      · rw [phase] at releases
        cases releases

/-- What a step that is no task leaves of the notes. -/
theorem on_sound_iff (sound : s.Sound) (now : BitVec 16) :
    (sequencerOn s now).Sound ↔ s.quiet := by
  rw [quiet_iff]
  constructor
  · intro after track
    cases note : sounding s.midi track with
    | none => rfl
    | some value =>
      rcases after.pending track value note with ⟨-, below⟩ | ⟨releases, -⟩
      · exact absurd below (Nat.not_lt_zero _)
      · cases releases
  · exact fun silent => sound_of_silent sound.paired silent

theorem off_sound_iff (sound : s.Sound) : (sequencerOff s).Sound ↔ s.quiet := by
  rw [quiet_iff]
  exact ⟨fun after => after.silent rfl, fun silent => sound_of_silent sound.paired silent⟩

/-- An edit changes neither the notes that sound nor where the task is. -/
theorem edit_sound {t : State cfg} (sound : s.Sound) (midi : t.midi = s.midi)
    (enabled : t.enabled = s.enabled) (phase : t.phase = s.phase)
    (track : t.currentTrack = s.currentTrack) : t.Sound := by
  refine ⟨midi ▸ sound.paired, fun other note sounds => ?_, fun off other => ?_⟩
  · rw [midi] at sounds
    rw [State.toRelease, phase, track]
    exact sound.pending other note sounds
  · rw [midi]
    exact sound.silent (enabled.symm.trans off) other

theorem exec_sound_iff (s : State cfg) (event : Event) (sound : s.Sound) :
    (exec s event).Sound ↔ s.allowed event := by
  have edited {t : State cfg} (midi : t.midi = s.midi) (enabled : t.enabled = s.enabled)
      (phase : t.phase = s.phase) (track : t.currentTrack = s.currentTrack) : t.Sound ↔ True :=
    iff_true_intro (edit_sound sound midi enabled phase track)
  have paced (tempo : Byte) : (sequencerSetTempo s tempo).Sound ↔ True := by
    unfold sequencerSetTempo
    split <;> exact edited rfl rfl rfl rfl
  have resolved (resolution : Int) : (sequencerSetResolution s resolution).Sound ↔ True := by
    unfold sequencerSetResolution
    split <;> exact edited rfl rfl rfl rfl
  have stepped (step : Nat) (value : Bool) : (sequencerSetStep s step value).Sound ↔ True := by
    unfold sequencerSetStep
    split <;> exact edited rfl rfl rfl rfl
  cases event with
  | on now => exact on_sound_iff sound now
  | off => exact off_sound_iff sound
  | toggle now =>
    unfold exec sequencerToggle
    dsimp only
    split
    · exact off_sound_iff sound
    · exact on_sound_iff sound now
  | setTrackNotes notes => exact edited rfl rfl rfl rfl
  | setTrackActivation track value => exact edited rfl rfl rfl rfl
  | toggleTrackActivation track => exact edited rfl rfl rfl rfl
  | toggleSingleActiveTrack track => exact edited rfl rfl rfl rfl
  | setStep step value => exact stepped step value
  | toggleStep step => exact stepped step _
  | setAllSteps value => exact edited rfl rfl rfl rfl
  | setTempo tempo => exact paced tempo
  | increaseTempo =>
    unfold exec sequencerIncreaseTempo
    dsimp only
    split
    · exact paced _
    · exact edited rfl rfl rfl rfl
  | decreaseTempo => exact paced _
  | setResolution resolution => exact resolved resolution
  | increaseResolution => exact resolved _
  | decreaseResolution => exact resolved _
  | task clock => exact task_sound_iff sound clock

end Steps

section Runs

/-- In every build, the notes of every track are paired, released in their step and silent
behind `sequencer_off` all along a run exactly when the run switches the sequencer only in
silence and every track that sounds is released with its step and note as they were
started. -/
theorem notes_paired_iff (cfg : Config) (events : List Event) :
    (∀ cut, (run exec ({} : State cfg) (events.take cut)).Sound) ↔
      Along exec State.allowed ({} : State cfg) events :=
  invariant_iff_along exec_sound_iff (sound_of_silent paired_nil fun _ => rfl) events

/-- One track of one step. -/
def oneTrack : Config where
  sequencerSteps := 1
  sequencerTracks := 1
  midiToneMin := 0

/-- The sequencer is switched off while its first note sounds. -/
theorem off_breaks :
    let events : List Event := [.setTrackActivation 0 true, .setStep 0 true, .on 0,
      .task fun _ => 0, .off, .task fun _ => 100]
    let s := run exec ({} : State oneTrack) events
    s.enabled = false ∧ s.midi = [{ track := 0, on := true, note := 0 }] ∧
      sounding s.midi 0 = some 0 := by
  decide +kernel

/-- A step that is switched off between the start and the release of its note. -/
example :
    let events : List Event := [.setTrackActivation 0 true, .setStep 0 true, .on 0,
      .task fun _ => 0, .setStep 0 false, .task fun _ => 100]
    let s := run exec ({} : State oneTrack) events
    s.phase = .pause ∧ sounding s.midi 0 = some 0 := by
  decide +kernel

end Runs

end QmkSonix.Sequencer
