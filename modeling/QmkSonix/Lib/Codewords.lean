import Mathlib.InformationTheory.Coding.UniquelyDecodable

/-! Sets of words of which none begins another: a stream splits into such words in one way. -/

namespace QmkSonix.Lib

open InformationTheory

variable {α : Type*}

/-- No word of the set is empty, and where two of them begin the same stream they are equal. -/
structure PrefixFree (words : Set (List α)) : Prop where
  nonempty : [] ∉ words
  same : ∀ first ∈ words, ∀ second ∈ words, ∀ stream, first <+: stream → second <+: stream →
    first = second

theorem PrefixFree.uniquelyDecodable {words : Set (List α)} (free : PrefixFree words) :
    UniquelyDecodable words := by
  intro parts others
  induction parts generalizing others with
  | nil =>
    intro _ fine same
    cases others with
    | nil => rfl
    | cons other rest =>
      have empty : other = [] :=
        (List.append_eq_nil_iff.mp (List.flatten_nil.symm.trans same).symm).1
      exact absurd (empty ▸ fine other List.mem_cons_self) free.nonempty
  | cons part parts ih =>
    intro fine otherFine same
    cases others with
    | nil =>
      have empty : part = [] := (List.append_eq_nil_iff.mp (same.trans List.flatten_nil)).1
      exact absurd (empty ▸ fine part List.mem_cons_self) free.nonempty
    | cons other others =>
      simp only [List.flatten_cons] at same
      have first : part = other :=
        free.same part (fine part List.mem_cons_self) other (otherFine other List.mem_cons_self)
          (part ++ parts.flatten) (List.prefix_append _ _) (same ▸ List.prefix_append _ _)
      subst first
      rw [ih others (fun word member => fine word (List.mem_cons_of_mem _ member))
        (fun word member => otherFine word (List.mem_cons_of_mem _ member))
        (List.append_cancel_left same)]

/-- Words of one length are prefix free. -/
theorem prefixFree_of_length {words : Set (List α)} {length : ℕ} (positive : 0 < length)
    (sized : ∀ word ∈ words, word.length = length) : PrefixFree words where
  nonempty := fun member => positive.ne (sized [] member)
  same := fun first member second other _ before after =>
    (List.prefix_of_prefix_length_le before after
      ((sized first member).trans (sized second other).symm).le).eq_of_length
      ((sized first member).trans (sized second other).symm)

theorem eq_of_stop {body other : List α} {stop : α} (clean : stop ∉ other)
    (before : body ++ [stop] <+: other ++ [stop]) : body ++ [stop] = other ++ [stop] := by
  rcases List.prefix_concat_iff.mp before with same | inside
  · exact same
  · exact absurd (inside.subset (by simp)) clean

/-- Words that end at their first stop are prefix free. -/
theorem prefixFree_of_stop {words : Set (List α)} {stop : α}
    (stopped : ∀ word ∈ words, ∃ body, stop ∉ body ∧ word = body ++ [stop]) :
    PrefixFree words where
  nonempty := fun member => by
    obtain ⟨body, -, empty⟩ := stopped [] member
    exact List.append_ne_nil_of_right_ne_nil body (List.cons_ne_nil stop []) empty.symm
  same := by
    intro first member second other stream before after
    obtain ⟨body, clean, rfl⟩ := stopped first member
    obtain ⟨otherBody, otherClean, rfl⟩ := stopped second other
    rcases List.prefix_or_prefix_of_prefix before after with shorter | longer
    · exact eq_of_stop otherClean shorter
    · exact (eq_of_stop clean longer).symm

end QmkSonix.Lib
