import Mathlib.Data.List.Induction
import Mathlib.Logic.Function.Basic

/-! A base map under a list of later writes. -/

namespace QmkSonix.Lib

section Overlays

variable {Address Value : Type*} [DecidableEq Address]

/-- The base map with the writes applied in order, so that the last write to an
address decides. -/
def overlay (writes : List (Address × Value)) (base : Address → Value) : Address → Value :=
  writes.foldl (fun current write => Function.update current write.1 write.2) base

@[simp] theorem overlay_nil (base : Address → Value) : overlay [] base = base := rfl

@[simp] theorem overlay_cons (write : Address × Value) (rest : List (Address × Value))
    (base : Address → Value) :
    overlay (write :: rest) base = overlay rest (Function.update base write.1 write.2) := rfl

theorem overlay_append (first second : List (Address × Value)) (base : Address → Value) :
    overlay (first ++ second) base = overlay second (overlay first base) := by
  simp [overlay]

/-- An address that no write names keeps its base value. -/
theorem overlay_of_unwritten {writes : List (Address × Value)} {address : Address}
    (unwritten : ∀ write ∈ writes, write.1 ≠ address) (base : Address → Value) :
    overlay writes base address = base address := by
  induction writes generalizing base with
  | nil => rfl
  | cons write rest ih =>
    have other : write.1 ≠ address := unwritten write (by simp)
    rw [overlay_cons, ih (fun later member => unwritten later (by simp [member]))]
    exact Function.update_of_ne other.symm _ _

/-- Bases that agree at an address still agree there under the same writes. -/
theorem overlay_congr {base other : Address → Value} {address : Address}
    (same : base address = other address) (writes : List (Address × Value)) :
    overlay writes base address = overlay writes other address := by
  induction writes generalizing base other with
  | nil => exact same
  | cons write rest ih =>
    apply ih
    by_cases hit : address = write.1
    · simp [hit]
    · simp [hit, same]

/-- The value of the last write to an address. -/
def lastWrite (writes : List (Address × Value)) (address : Address) : Option Value :=
  writes.reverse.lookup address

/-- An overlay shows the last write, and the base where there is none. -/
theorem overlay_apply (writes : List (Address × Value)) (base : Address → Value)
    (address : Address) :
    overlay writes base address = (lastWrite writes address).getD (base address) := by
  induction writes using List.reverseRecOn with
  | nil => rfl
  | append_singleton earlier write ih =>
    obtain ⟨target, value⟩ := write
    rw [overlay_append, overlay_cons, overlay_nil]
    by_cases hit : address = target
    · simp [lastWrite, hit]
    · have miss : (address == target) = false := by simpa using hit
      rw [Function.update_of_ne hit, ih]
      simp [lastWrite, List.lookup_cons, miss]

end Overlays

end QmkSonix.Lib
