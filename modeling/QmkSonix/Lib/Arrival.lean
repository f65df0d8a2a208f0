import Mathlib

/-! Deliveries in the order of arrival. Something may arrive and never be
delivered, or be delivered several times in a row. -/

namespace QmkSonix.Lib

variable {α : Type*} {arrivals first second : List α} {item : α}

/-- Every delivery is an arrival, and none comes behind a later one. -/
def InArrivalOrder (arrivals deliveries : List α) : Prop :=
  ∃ places : List (Fin arrivals.length),
    places.Pairwise (· ≤ ·) ∧ deliveries = places.map arrivals.get

theorem inArrivalOrder_nil (arrivals : List α) : InArrivalOrder arrivals [] :=
  ⟨[], List.Pairwise.nil, rfl⟩

/-- A later arrival changes nothing for what is delivered already. -/
theorem InArrivalOrder.later (ordered : InArrivalOrder arrivals first) (more : List α) :
    InArrivalOrder (arrivals ++ more) first := by
  obtain ⟨places, sorted, rfl⟩ := ordered
  have longer : arrivals.length ≤ (arrivals ++ more).length := by simp
  refine ⟨places.map (Fin.castLE longer), ?_, ?_⟩
  · exact sorted.map _ fun _ _ le => le
  · rw [List.map_map]
    apply List.map_congr_left
    intro place _
    simp

/-- What arrives last may be delivered last. -/
theorem InArrivalOrder.push (ordered : InArrivalOrder arrivals first) (item : α) :
    InArrivalOrder (arrivals ++ [item]) (first ++ [item]) := by
  obtain ⟨places, sorted, rfl⟩ := ordered
  have longer : arrivals.length ≤ (arrivals ++ [item]).length := by simp
  refine ⟨places.map (Fin.castLE longer) ++ [⟨arrivals.length, by simp⟩], ?_, ?_⟩
  · rw [List.pairwise_append]
    refine ⟨sorted.map _ fun _ _ le => le, List.pairwise_singleton _ _, ?_⟩
    intro place member last onlyLast
    obtain ⟨old, -, rfl⟩ := List.mem_map.mp member
    rw [List.mem_singleton.mp onlyLast]
    exact Fin.le_def.mpr (Nat.le_of_lt old.isLt)
  · rw [List.map_append, List.map_map]
    congr 1
    · apply List.map_congr_left
      intro place _
      simp
    · simp

/-- Leaving deliveries out keeps the order. -/
theorem InArrivalOrder.sublist (ordered : InArrivalOrder arrivals first)
    (fewer : second.Sublist first) : InArrivalOrder arrivals second := by
  obtain ⟨places, sorted, rfl⟩ := ordered
  obtain ⟨kept, sub, rfl⟩ := List.sublist_map_iff.mp fewer
  exact ⟨kept, sorted.sublist sub, rfl⟩

/-- Of two things delivered one behind the other, the first arrived no later. -/
theorem InArrivalOrder.pair {earlier later : α} (ordered : InArrivalOrder arrivals first)
    (delivered : [earlier, later].Sublist first) :
    ∃ i j : Fin arrivals.length, i ≤ j ∧ arrivals.get i = earlier ∧ arrivals.get j = later := by
  obtain ⟨places, sorted, named⟩ := ordered.sublist delivered
  obtain ⟨i, rest, rfl, isEarlier, isRest⟩ := List.map_eq_cons_iff.mp named.symm
  obtain ⟨j, tail, rfl, isLater, -⟩ := List.map_eq_cons_iff.mp isRest
  have le : i ≤ j := (List.pairwise_cons.mp sorted).1 j (List.mem_cons_self ..)
  exact ⟨i, j, le, isEarlier, isLater⟩

/-- A delivery may be repeated on the spot. -/
theorem InArrivalOrder.again (ordered : InArrivalOrder arrivals (first ++ item :: second)) :
    InArrivalOrder arrivals (first ++ item :: item :: second) := by
  obtain ⟨places, sorted, split⟩ := ordered
  obtain ⟨before, behind, rfl, rfl, here⟩ := List.map_eq_append_iff.mp split.symm
  obtain ⟨place, after, rfl, rfl, rfl⟩ := List.map_eq_cons_iff.mp here
  refine ⟨before ++ place :: place :: after, ?_, by simp⟩
  rw [List.pairwise_append] at sorted ⊢
  obtain ⟨earlier, later, apart⟩ := sorted
  have onward := (List.pairwise_cons.mp later).1
  refine ⟨earlier, List.pairwise_cons.mpr ⟨?_, later⟩, ?_⟩
  · rintro other (_ | ⟨_, member⟩)
    · exact le_refl place
    · exact onward other member
  · rintro old member other (_ | ⟨_, present⟩)
    · exact apart old member place (List.mem_cons_self ..)
    · exact apart old member other present

/-- Whatever may follow the first deliveries may follow the second ones. -/
def Covers (first second : List α) : Prop :=
  ∀ arrivals more, InArrivalOrder arrivals (first ++ more) → InArrivalOrder arrivals (second ++ more)

theorem Covers.refl (first : List α) : Covers first first := fun _ _ ordered => ordered

/-- What comes last may be left out. -/
theorem covers_drop (first last : List α) : Covers (first ++ last) first := by
  intro arrivals more ordered
  refine ordered.sublist ?_
  rw [List.append_assoc]
  exact (List.Sublist.refl first).append (List.sublist_append_right last more)

theorem covers_again (first : List α) (item : α) :
    Covers (first ++ [item]) (first ++ [item, item]) := by
  intro arrivals more ordered
  have repeated : InArrivalOrder arrivals (first ++ item :: more) := by simpa using ordered
  simpa using repeated.again

end QmkSonix.Lib
