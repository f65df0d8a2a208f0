import QmkSonix.Lib.Run
import QmkSonix.Midi.Model

/-! Which runs of keys end every note that they begin. -/

namespace QmkSonix.Midi

open QmkSonix.Lib

section Messages

/-- A note has begun that no later message ends. -/
def Pending (sent : List Message) (voice : Voice) : Prop :=
  ∃ earlier velocity later, sent = earlier ++ .noteOn voice velocity :: later ∧
    ∀ ended, .noteOff voice ended ∉ later

/-- Every note that has begun is ended by a later message. -/
def Paired (sent : List Message) : Prop :=
  ∀ earlier voice velocity later, sent = earlier ++ .noteOn voice velocity :: later →
    ∃ ended, .noteOff voice ended ∈ later

theorem paired_iff (sent : List Message) : Paired sent ↔ ∀ voice, ¬ Pending sent voice := by
  constructor
  · rintro paired voice ⟨earlier, velocity, later, split, unended⟩
    obtain ⟨ended, member⟩ := paired earlier voice velocity later split
    exact unended ended member
  · intro none earlier voice velocity later split
    by_contra unended
    exact none voice ⟨earlier, velocity, later, split, fun ended member => unended ⟨ended, member⟩⟩

theorem pending_nil (voice : Voice) : ¬ Pending [] voice := by
  rintro ⟨earlier, velocity, later, split, -⟩
  exact List.cons_ne_nil _ _ (List.append_eq_nil_iff.mp split.symm).2

/-- A message more begins a note, ends one, or leaves the pending ones. -/
theorem pending_append_one (sent : List Message) (message : Message) (voice : Voice) :
    Pending (sent ++ [message]) voice ↔
      (∃ velocity, message = .noteOn voice velocity) ∨
        Pending sent voice ∧ ∀ ended, message ≠ .noteOff voice ended := by
  constructor
  · rintro ⟨earlier, velocity, later, split, unended⟩
    rcases List.eq_nil_or_concat later with none | ⟨before, last, rfl⟩
    · subst none
      have parts := List.append_inj' split rfl
      exact .inl ⟨velocity, (List.cons.inj parts.2).1⟩
    · rw [List.concat_eq_append, ← List.cons_append, ← List.append_assoc] at split
      obtain ⟨front, same⟩ := List.append_inj' split rfl
      have last := (List.cons.inj same).1
      refine .inr ⟨⟨earlier, velocity, before, front, fun ended member => ?_⟩, fun ended ends => ?_⟩
      · exact unended ended (by simp [member])
      · exact unended ended (by simp [← last, ends])
  · rintro (⟨velocity, rfl⟩ | ⟨⟨earlier, velocity, later, rfl, unended⟩, other⟩)
    · exact ⟨sent, velocity, [], rfl, fun ended => List.not_mem_nil⟩
    · refine ⟨earlier, velocity, later ++ [message], by simp, fun ended member => ?_⟩
      rcases List.mem_append.mp member with before | last
      · exact unended ended before
      · exact other ended (List.mem_singleton.mp last).symm

end Messages

section Runs

/-- A key is pressed or released. -/
structure Press where
  key : Key
  pressed : Bool
  deriving DecidableEq, Repr

/-- The keyboard with what it has sent, how many keys of each tone are down, and the channel on
which the keys of a tone that are down have begun -/
structure Watched where
  state : State := midiInit
  sent : List Message := []
  held : Fin 72 → ℕ := fun _ => 0
  channel : Fin 72 → BitVec 4 := fun _ => 0

def hold (watched : Watched) : Press → Watched
  | ⟨.tone tone, true⟩ =>
    { watched with
      held := Function.update watched.held tone (watched.held tone + 1)
      channel := Function.update watched.channel tone watched.state.midiConfig.channel }
  | ⟨.tone tone, false⟩ =>
    { watched with held := Function.update watched.held tone (watched.held tone - 1) }
  | _ => watched

def watchStep (velocityRange : ℕ) (watched : Watched) (press : Press) : Watched :=
  let (state, sent) := processMidi velocityRange watched.state press.key press.pressed
  { hold watched press with state := state, sent := watched.sent ++ sent }

/-- The note and the channel that a release of a tone ends -/
def Watched.voice (watched : Watched) (tone : Fin 72) : Voice :=
  voiceOf (watched.channel tone) (watched.state.toneNote tone)

/-- A release of a tone follows its press, at most 255 keys of a tone are down, a key more of a
tone begins the note that is held on its channel, and the last release comes on that channel. -/
def Steady (watched : Watched) : Press → Prop
  | ⟨.tone tone, true⟩ =>
    watched.held tone < 255 ∧
      (0 < watched.held tone →
        voiceOf watched.state.midiConfig.channel (midiComputeNote watched.state.midiConfig tone) =
          watched.voice tone)
  | ⟨.tone tone, false⟩ =>
    0 < watched.held tone ∧
      (watched.held tone = 1 → watched.state.midiConfig.channel = watched.channel tone)
  | _ => True

/-- The presses are counted, a tone that is not held has no note, and what is pending is held. -/
structure Sound (watched : Watched) : Prop where
  few : ∀ tone, watched.held tone < 256
  presses : ∀ tone, (watched.state.tonePresses tone).toNat = watched.held tone
  invalid : ∀ tone, watched.held tone = 0 → watched.state.toneNote tone = invalidNote
  pending : ∀ voice, Pending watched.sent voice →
    ∃ tone, 0 < watched.held tone ∧ watched.voice tone = voice

theorem sound_init : Sound {} where
  few := fun _ => Nat.succ_pos 255
  presses := fun _ => rfl
  invalid := fun _ _ => rfl
  pending := fun voice pending => absurd pending (pending_nil voice)

theorem sound_press {watched : Watched} (sound : Sound watched) {tone : Fin 72}
    (steady : Steady watched ⟨.tone tone, true⟩) (velocityRange : ℕ) :
    Sound (watchStep velocityRange watched ⟨.tone tone, true⟩) := by
  obtain ⟨few, presses, invalid, pending⟩ := sound
  obtain ⟨room, same⟩ := steady
  have note := midiComputeNote watched.state.midiConfig tone
  have elsewhere (other : Fin 72) (apart : other ≠ tone) :
      (watchStep velocityRange watched ⟨.tone tone, true⟩).voice other = watched.voice other := by
    simp only [Watched.voice, watchStep, hold, processMidi, processTone, if_true]
    rw [Function.update_of_ne apart]
    split
    · rw [Function.update_of_ne apart]
    · rfl
  have here : (watchStep velocityRange watched ⟨.tone tone, true⟩).voice tone =
      voiceOf watched.state.midiConfig.channel (midiComputeNote watched.state.midiConfig tone) := by
    simp only [Watched.voice, watchStep, hold, processMidi, processTone, if_true,
      Function.update_self]
    split
    · rw [Function.update_self]
    · rename_i valid
      have held : 0 < watched.held tone :=
        Nat.pos_of_ne_zero fun none => valid (invalid tone none)
      have before := same held
      rw [Watched.voice, voiceOf, voiceOf, Voice.mk.injEq] at before
      rw [voiceOf, voiceOf, before.2]
  refine ⟨fun other => ?_, fun other => ?_, fun other free => ?_, fun voice held => ?_⟩
  · by_cases apart : other = tone
    · subst apart
      simp only [watchStep, hold, Function.update_self]
      omega
    · simp only [watchStep, hold, Function.update_of_ne apart]
      exact few other
  · by_cases apart : other = tone
    · subst apart
      have count := presses other
      simp only [watchStep, hold, processMidi, processTone, if_true, Function.update_self]
      rw [BitVec.toNat_add, count]
      exact Nat.mod_eq_of_lt (by change watched.held other + 1 < 256; omega)
    · simp only [watchStep, hold, processMidi, processTone, if_true, Function.update_of_ne apart]
      exact presses other
  · by_cases apart : other = tone
    · subst apart
      simp [watchStep, hold] at free
    · have before : watched.held other = 0 := by
        simpa [watchStep, hold, Function.update_of_ne apart] using free
      simp only [watchStep, processMidi, processTone, if_true]
      split
      · rw [Function.update_of_ne apart]
        exact invalid other before
      · exact invalid other before
  · have cases' := (pending_append_one watched.sent _ voice).mp held
    rcases cases' with ⟨velocity, begins⟩ | ⟨earlier, -⟩
    · refine ⟨tone, ?_, ?_⟩
      · simp [watchStep, hold]
      · rw [here]
        exact (Message.noteOn.inj begins).1
    · obtain ⟨other, before, sounds⟩ := pending voice earlier
      by_cases apart : other = tone
      · subst apart
        refine ⟨other, by simp [watchStep, hold], ?_⟩
        rw [here, same before, sounds]
      · refine ⟨other, ?_, (elsewhere other apart).trans sounds⟩
        simpa [watchStep, hold, Function.update_of_ne apart] using before

theorem sound_release {watched : Watched} (sound : Sound watched) {tone : Fin 72}
    (steady : Steady watched ⟨.tone tone, false⟩) (velocityRange : ℕ) :
    Sound (watchStep velocityRange watched ⟨.tone tone, false⟩) := by
  obtain ⟨few, presses, invalid, pending⟩ := sound
  obtain ⟨held, last⟩ := steady
  have count := presses tone
  have below := few tone
  have left : (watched.state.tonePresses tone - 1).toNat = watched.held tone - 1 := by
    rw [BitVec.toNat_sub_of_le (BitVec.le_def.mpr (by change 1 ≤ _; omega)), count]
    rfl
  have fewer (other : Fin 72) :
      (watchStep velocityRange watched ⟨.tone tone, false⟩).held other =
        if other = tone then watched.held tone - 1 else watched.held other := by
    simp only [watchStep, hold, Function.update_apply]
  have counted (other : Fin 72) :
      ((watchStep velocityRange watched ⟨.tone tone, false⟩).state.tonePresses other).toNat =
        (watchStep velocityRange watched ⟨.tone tone, false⟩).held other := by
    have tones : (watchStep velocityRange watched ⟨.tone tone, false⟩).state.tonePresses =
        Function.update watched.state.tonePresses tone (watched.state.tonePresses tone - 1) := by
      simp only [watchStep, processMidi, processTone, Bool.false_eq_true, if_false]
      split <;> rfl
    rw [tones, fewer, Function.update_apply]
    split
    · exact left
    · exact presses other
  have few' (other : Fin 72) :
      (watchStep velocityRange watched ⟨.tone tone, false⟩).held other < 256 := by
    have before := few other
    rw [fewer]
    split <;> omega
  by_cases final : watched.held tone = 1
  · have ends : watched.state.tonePresses tone - 1 = 0 :=
      BitVec.eq_of_toNat_eq (by rw [left, final]; rfl)
    have notes : (watchStep velocityRange watched ⟨.tone tone, false⟩).state.toneNote =
        Function.update watched.state.toneNote tone invalidNote := by
      simp only [watchStep, processMidi, processTone, Bool.false_eq_true, if_false, if_pos ends]
    have sent : (watchStep velocityRange watched ⟨.tone tone, false⟩).sent =
        watched.sent ++ [.noteOff (watched.voice tone) watched.state.midiConfig.velocity] := by
      simp only [watchStep, processMidi, processTone, Bool.false_eq_true, if_false, if_pos ends,
        Watched.voice, last final]
    refine ⟨few', counted, fun other free => ?_, fun voice sounds => ?_⟩
    · rw [notes, Function.update_apply]
      split
      · rfl
      · rename_i apart
        rw [fewer, if_neg apart] at free
        exact invalid other free
    · rw [sent, pending_append_one] at sounds
      rcases sounds with ⟨velocity, begins⟩ | ⟨before, unended⟩
      · cases begins
      · obtain ⟨other, heldToo, same⟩ := pending voice before
        have apart : other ≠ tone := by
          rintro rfl
          exact unended _ (by rw [same])
        refine ⟨other, by rw [fewer, if_neg apart]; exact heldToo, ?_⟩
        rw [Watched.voice, notes, Function.update_of_ne apart]
        exact same
  · have goesOn : watched.state.tonePresses tone - 1 ≠ 0 := fun none => by
      rw [none] at left
      change 0 = _ at left
      omega
    have notes : (watchStep velocityRange watched ⟨.tone tone, false⟩).state.toneNote =
        watched.state.toneNote := by
      simp only [watchStep, processMidi, processTone, Bool.false_eq_true, if_false, if_neg goesOn]
    have sent : (watchStep velocityRange watched ⟨.tone tone, false⟩).sent = watched.sent := by
      simp only [watchStep, processMidi, processTone, Bool.false_eq_true, if_false, if_neg goesOn,
        List.append_nil]
    refine ⟨few', counted, fun other free => ?_, fun voice sounds => ?_⟩
    · rw [notes]
      rw [fewer] at free
      split at free
      · omega
      · exact invalid other free
    · rw [sent] at sounds
      obtain ⟨other, heldToo, same⟩ := pending voice sounds
      refine ⟨other, ?_, ?_⟩
      · rw [fewer]
        split
        · omega
        · exact heldToo
      · rw [Watched.voice, notes]
        exact same

/-- The keys that are no tones neither begin nor end a note. -/
theorem sound_other {watched : Watched} (sound : Sound watched) {key : Key}
    (other : ∀ tone, key ≠ .tone tone) (pressed : Bool) (velocityRange : ℕ) :
    Sound (watchStep velocityRange watched ⟨key, pressed⟩) := by
  have held : hold watched ⟨key, pressed⟩ = watched := by
    cases key with
    | tone tone => exact absurd rfl (other tone)
    | _ => rfl
  have notes : (processMidi velocityRange watched.state key pressed).1.toneNote =
        watched.state.toneNote ∧
      (processMidi velocityRange watched.state key pressed).1.tonePresses =
        watched.state.tonePresses := by
    cases key with
    | tone tone => exact absurd rfl (other tone)
    | _ => exact ⟨rfl, rfl⟩
  have silent (voice : Voice) (velocity : BitVec 7) :
      .noteOn voice velocity ∉ (processMidi velocityRange watched.state key pressed).2 := by
    cases key with
    | tone tone => exact absurd rfl (other tone)
    | _ => cases pressed <;> simp [processMidi, controls]
  have pends (messages : List Message) (voice : Voice)
      (none : ∀ velocity, .noteOn voice velocity ∉ messages) :
      Pending (watched.sent ++ messages) voice → Pending watched.sent voice := by
    induction messages using List.reverseRecOn with
    | nil => simp
    | append_singleton before message ih =>
      intro sounds
      rw [← List.append_assoc, pending_append_one] at sounds
      rcases sounds with ⟨velocity, begins⟩ | ⟨earlier, -⟩
      · exact absurd (by simp [begins]) (none velocity)
      · exact ih (fun velocity member => none velocity (List.mem_append_left _ member)) earlier
  refine ⟨?_, ?_, ?_, fun voice sounds => ?_⟩
  · simpa only [watchStep, held] using sound.few
  · simpa only [watchStep, held, notes.2] using sound.presses
  · simpa only [watchStep, held, notes.1] using sound.invalid
  · obtain ⟨tone, down, same⟩ := sound.pending voice (pends _ voice (silent voice) sounds)
    refine ⟨tone, by simpa only [watchStep, held] using down, ?_⟩
    simpa only [Watched.voice, watchStep, held, notes.1] using same

theorem sound_step {watched : Watched} (sound : Sound watched) {press : Press}
    (steady : Steady watched press) (velocityRange : ℕ) :
    Sound (watchStep velocityRange watched press) := by
  obtain ⟨key, pressed⟩ := press
  by_cases tone : ∃ tone, key = .tone tone
  · obtain ⟨tone, rfl⟩ := tone
    cases pressed with
    | true => exact sound_press sound steady velocityRange
    | false => exact sound_release sound steady velocityRange
  · exact sound_other sound (fun other same => tone ⟨other, same⟩) pressed velocityRange

end Runs

/-- In every run of steady presses and releases, once no tone is held every note that has begun
has been ended on its channel. -/
theorem paired_of_steady (velocityRange : ℕ) {presses : List Press}
    (steady : Along (watchStep velocityRange) Steady {} presses)
    (released : ∀ tone, (run (watchStep velocityRange) {} presses).held tone = 0) :
    Paired (run (watchStep velocityRange) {} presses).sent := by
  have sound : Sound (run (watchStep velocityRange) {} presses) :=
    run_invariant (fun watched press (sound : Sound watched) steady =>
      sound_step sound steady velocityRange) sound_init steady
  rw [paired_iff]
  intro voice pending
  obtain ⟨tone, held, -⟩ := sound.pending voice pending
  have free := released tone
  omega

/-- Two keys of a tone, pressed and released under the same settings -/
theorem two_keys_paired :
    Paired (run (watchStep 10) {}
      [⟨.tone 0, true⟩, ⟨.tone 0, true⟩, ⟨.velocityDown, true⟩, ⟨.tone 0, false⟩,
        ⟨.tone 0, false⟩]).sent := by
  refine paired_of_steady 10 ⟨⟨by decide, fun held => ?_⟩, ⟨by decide, fun _ => by decide⟩, trivial,
    ⟨by decide, fun last => ?_⟩, ⟨by decide, fun _ => by decide⟩, trivial⟩ (by decide)
  · exact absurd held (by decide)
  · exact absurd last (by decide)

/-- A note whose channel has changed in between is ended on the other channel, and of two notes
of a tone only the first one is ended. -/
theorem channel_and_octave_break :
    ¬ Paired (run (watchStep 10) {}
        [⟨.tone 0, true⟩, ⟨.channelUp, true⟩, ⟨.channelUp, false⟩, ⟨.tone 0, false⟩]).sent ∧
      ¬ Paired (run (watchStep 10) {}
        [⟨.tone 0, true⟩, ⟨.octaveUp, true⟩, ⟨.octaveUp, false⟩, ⟨.tone 0, true⟩,
          ⟨.tone 0, false⟩, ⟨.tone 0, false⟩]).sent := by
  constructor
  · intro paired
    obtain ⟨ended, member⟩ := paired [] ⟨0, 48⟩ 127 [.noteOff ⟨1, 48⟩ 127] (by decide)
    simp at member
  · intro paired
    obtain ⟨ended, member⟩ := paired [.noteOn ⟨0, 48⟩ 127] ⟨0, 60⟩ 127 [.noteOff ⟨0, 48⟩ 127]
      (by decide)
    simp at member

end QmkSonix.Midi
