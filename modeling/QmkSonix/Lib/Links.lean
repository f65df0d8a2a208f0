import Mathlib

/-! Steps that meet a value one after the other, each of which tells whether it
changes the value. -/

namespace QmkSonix.Lib

section Links

variable {Step Value : Type*} {met : Step → Value} {changes : Step → Prop}

/-- The steps lead from one value to another: each meets what the one before left,
and leaves something else exactly when it changes it. -/
def Links (met : Step → Value) (changes : Step → Prop) : Value → List Step → Value → Prop
  | before, [], after => after = before
  | before, step :: rest, after =>
    met step = before ∧ ∃ left, (left = before ↔ ¬changes step) ∧ Links met changes left rest after

theorem Links.refl (value : Value) : Links met changes value [] value := rfl

theorem Links.append {before middle after : Value} {first second : List Step}
    (earlier : Links met changes before first middle)
    (later : Links met changes middle second after) :
    Links met changes before (first ++ second) after := by
  induction first generalizing before with
  | nil =>
    have same : middle = before := earlier
    rwa [← same]
  | cons step rest ih =>
    obtain ⟨meets, left, leaves, links⟩ := earlier
    exact ⟨meets, left, leaves, ih links⟩

/-- A step in front that leaves the value as it is. -/
theorem Links.cons_keeps {before after : Value} {step : Step} {rest : List Step}
    (meets : met step = before) (keeps : ¬changes step)
    (links : Links met changes before rest after) :
    Links met changes before (step :: rest) after :=
  ⟨meets, before, ⟨fun _ => keeps, fun _ => rfl⟩, links⟩

/-- All steps meet the first value and it is left in the end exactly when no step
changes it. -/
theorem Links.kept_iff {before after : Value} {steps : List Step}
    (links : Links met changes before steps after) :
    ((∀ step ∈ steps, met step = before) ∧ after = before) ↔ ∀ step ∈ steps, ¬changes step := by
  induction steps generalizing before with
  | nil =>
    have same : after = before := links
    simp [same]
  | cons step rest ih =>
    obtain ⟨meets, left, leaves, links⟩ := links
    constructor
    · rintro ⟨all, ends⟩
      have same : left = before := by
        cases rest with
        | nil =>
          have last : after = left := links
          exact last.symm.trans ends
        | cons next later => exact links.1.symm.trans (all next (by simp))
      rw [same] at links
      intro other member
      rcases List.mem_cons.mp member with rfl | inRest
      · exact leaves.mp same
      · exact (ih links).mp ⟨fun step inRest => all step (List.mem_cons_of_mem _ inRest), ends⟩
          other inRest
    · intro none
      have same : left = before := leaves.mpr (none step List.mem_cons_self)
      rw [same] at links
      obtain ⟨all, ends⟩ := (ih links).mpr fun other inRest =>
        none other (List.mem_cons_of_mem _ inRest)
      refine ⟨?_, ends⟩
      intro other member
      rcases List.mem_cons.mp member with rfl | inRest
      · exact meets
      · exact all other inRest

end Links

end QmkSonix.Lib
