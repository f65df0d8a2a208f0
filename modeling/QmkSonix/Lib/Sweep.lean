import Mathlib.Data.List.Basic
import Mathlib.Data.List.Induction

/-! One pass over a list of places, each of whose visits changes its own place only
and may raise a flag. -/

namespace QmkSonix.Lib

variable {State Place Local : Type*} {look : State → Place → Local}
  {visit : State → Place → State} {change : Place → Local → Local}

/-- Every visit changes what is seen of its own place, and of no other. -/
structure Locally (look : State → Place → Local) (visit : State → Place → State)
    (change : Place → Local → Local) : Prop where
  here : ∀ s place, look (visit s place) place = change place (look s place)
  elsewhere : ∀ s place other, other ≠ place → look (visit s place) other = look s other

theorem Locally.foldl_elsewhere (locally : Locally look visit change) {places : List Place}
    {place : Place} (absent : place ∉ places) (s : State) :
    look (places.foldl visit s) place = look s place := by
  induction places generalizing s with
  | nil => rfl
  | cons first rest ih =>
    obtain ⟨apart, later⟩ := List.ne_and_not_mem_of_not_mem_cons absent
    rw [List.foldl_cons, ih later, locally.elsewhere s first place apart]

/-- A pass changes every place of the list as one visit does. -/
theorem Locally.foldl_here (locally : Locally look visit change) {places : List Place}
    (distinct : places.Nodup) {place : Place} (member : place ∈ places) (s : State) :
    look (places.foldl visit s) place = change place (look s place) := by
  induction places generalizing s with
  | nil => cases member
  | cons first rest ih =>
    obtain ⟨absent, distinct⟩ := List.nodup_cons.mp distinct
    rw [List.foldl_cons]
    rcases List.mem_cons.mp member with rfl | later
    · rw [locally.foldl_elsewhere absent, locally.here]
    · have apart : place ≠ first := ne_of_mem_of_not_mem later absent
      rw [ih distinct later, locally.elsewhere s first place apart]

/-- A flag is up behind a pass if it was before, or if some visit raises it. -/
theorem Locally.foldl_flag (locally : Locally look visit change) (flag : State → Bool)
    (raises : Place → Local → Bool)
    (raised : ∀ s place, flag (visit s place) = (flag s || raises place (look s place)))
    {places : List Place} (distinct : places.Nodup) (s : State) :
    flag (places.foldl visit s) =
      (flag s || places.any fun place => raises place (look s place)) := by
  induction places generalizing s with
  | nil => simp
  | cons first rest ih =>
    obtain ⟨absent, distinct⟩ := List.nodup_cons.mp distinct
    have unchanged : ∀ place ∈ rest, look (visit s first) place = look s place :=
      fun place member =>
        locally.elsewhere s first place (ne_of_mem_of_not_mem member absent)
    have same : (rest.any fun place => raises place (look (visit s first) place)) =
        rest.any fun place => raises place (look s place) := by
      rw [Bool.eq_iff_iff, List.any_eq_true, List.any_eq_true]
      exact exists_congr fun place => and_congr_right fun member => by rw [unchanged place member]
    rw [List.foldl_cons, ih distinct, raised, same, List.any_cons, Bool.or_assoc]

/-- What every visit keeps, and what the visit of a place brings about and the others
leave alone, holds behind a pass. -/
theorem foldl_establishes {State Place : Type*} {visit : State → Place → State}
    (Invariant : State → Prop) (Done : Place → State → Prop)
    (keeps : ∀ s place, Invariant s → Invariant (visit s place))
    (does : ∀ s place, Invariant s → Done place (visit s place))
    (stays : ∀ s place other, Invariant s → Done other s → Done other (visit s place))
    (places : List Place) {s : State} (initial : Invariant s) :
    Invariant (places.foldl visit s) ∧ ∀ place ∈ places, Done place (places.foldl visit s) := by
  induction places using List.reverseRecOn with
  | nil => exact ⟨initial, fun _ member => absurd member List.not_mem_nil⟩
  | append_singleton earlier last ih =>
    rw [List.foldl_append, List.foldl_cons, List.foldl_nil]
    refine ⟨keeps _ _ ih.1, fun place member => ?_⟩
    rcases List.mem_append.mp member with before | here
    · exact stays _ _ _ ih.1 (ih.2 place before)
    · rw [List.mem_singleton.mp here]
      exact does _ _ ih.1

/-- What holds behind a visit exactly if it held before and the place fits holds behind a pass
exactly if it held before and all places fit. -/
theorem foldl_holds_iff {State Place : Type*} {visit : State → Place → State}
    (Holds : State → Prop) (Fits : Place → Prop) {places : List Place}
    (each : ∀ place ∈ places, ∀ s, Holds (visit s place) ↔ Holds s ∧ Fits place) (s : State) :
    Holds (places.foldl visit s) ↔ Holds s ∧ ∀ place ∈ places, Fits place := by
  induction places generalizing s with
  | nil => simp
  | cons first rest ih =>
    obtain ⟨here, later⟩ := List.forall_mem_cons.mp each
    rw [List.foldl_cons, ih later, here, and_assoc, List.forall_mem_cons]

/-- What no visit changes is not changed by a pass. -/
theorem foldl_holds_iff_of_same {State Place : Type*} {visit : State → Place → State}
    (Holds : State → Prop) {places : List Place}
    (each : ∀ place ∈ places, ∀ s, Holds (visit s place) ↔ Holds s) (s : State) :
    Holds (places.foldl visit s) ↔ Holds s := by
  have fold := foldl_holds_iff Holds (fun _ => True)
    (fun place member s => by rw [each place member s, and_true]) s
  exact fold.trans (and_iff_left fun _ _ => trivial)

end QmkSonix.Lib
