import Mathlib

/-! Replacing every occurrence of a pattern in a text, from left to right and
without overlaps, and where a pattern can occur in a text put together from parts. -/

namespace QmkSonix.Lib

section Boundaries

variable {Symbol : Type*} {pattern first second : List Symbol}

/-- The last symbol of a text is not one of the pattern. -/
def EndsOutside (pattern first : List Symbol) : Prop :=
  ∀ symbol ∈ first.getLast?, symbol ∉ pattern

/-- A nonempty end of a text that lies in the pattern. -/
theorem EndsOutside.not_subset (ends : EndsOutside pattern first) {later : List Symbol}
    (suffix : later <:+ first) (nonempty : later ≠ []) : ¬later ⊆ pattern := by
  intro inside
  obtain ⟨earlier, rfl⟩ := suffix
  have last : (earlier ++ later).getLast? = some (later.getLast nonempty) := by
    rw [List.getLast?_append, List.getLast?_eq_some_getLast nonempty]
    rfl
  exact ends _ last (inside (List.getLast_mem nonempty))

/-- A pattern in two texts that meet at a symbol that it does not have lies in one
of them. -/
theorem infix_append_of_parted
    (parted : EndsOutside pattern first ∨ ∀ symbol ∈ second.head?, symbol ∉ pattern)
    (found : pattern <:+: first ++ second) : pattern <:+: first ∨ pattern <:+: second := by
  rcases List.infix_append_iff_ne_nil.mp found with inFirst | inSecond |
    ⟨front, back, frontNonempty, backNonempty, rfl, suffix, start⟩
  · exact .inl inFirst
  · exact .inr inSecond
  exfalso
  rcases parted with ends | starts
  · exact ends.not_subset suffix frontNonempty (List.subset_append_left _ _)
  · obtain ⟨symbol, rest, rfl⟩ := List.exists_cons_of_ne_nil backNonempty
    obtain ⟨later, rfl⟩ := start
    exact starts symbol rfl (List.mem_append_right _ List.mem_cons_self)

/-- An occurrence at the front of two texts that meet at a symbol that the pattern does not have
lies in the first. -/
theorem prefix_of_prefix_append (starts : ∀ symbol ∈ second.head?, symbol ∉ pattern)
    (found : pattern <+: first ++ second) : pattern <+: first := by
  rcases List.prefix_or_prefix_of_prefix found (List.prefix_append first second) with
    inside | ⟨rest, rfl⟩
  · exact inside
  · rw [List.prefix_append_right_inj] at found
    cases rest with
    | nil => rw [List.append_nil]
    | cons symbol rest =>
      obtain ⟨later, rfl⟩ := found
      exact absurd (List.mem_append_right _ List.mem_cons_self) (starts symbol rfl)

end Boundaries

section Replace

variable {Symbol : Type*} [DecidableEq Symbol]

/-- The loop of `replace`, which skips the symbols of an occurrence. -/
def replaceFrom (old new : List Symbol) : Nat → List Symbol → List Symbol
  | _, [] => []
  | skip + 1, _ :: rest => replaceFrom old new skip rest
  | 0, symbol :: rest =>
    if old <+: symbol :: rest then new ++ replaceFrom old new (old.length - 1) rest
    else symbol :: replaceFrom old new 0 rest

/-- Put `new` in the place of every `old`. -/
def replace (old new text : List Symbol) : List Symbol := replaceFrom old new 0 text

variable {old new : List Symbol} {symbol : Symbol} {first second text : List Symbol}

@[simp] theorem replace_nil : replace old new [] = [] := rfl

theorem replace_cons (keeps : ¬old <+: symbol :: text) :
    replace old new (symbol :: text) = symbol :: replace old new text := by
  simp [replace, replaceFrom, keeps]

theorem replaceFrom_skip (skipped : List Symbol) :
    replaceFrom old new skipped.length (skipped ++ text) = replaceFrom old new 0 text := by
  induction skipped with
  | nil => rfl
  | cons symbol rest ih => exact ih

/-- An occurrence at the front is replaced. -/
theorem replace_append (nonempty : old ≠ []) :
    replace old new (old ++ text) = new ++ replace old new text := by
  cases old with
  | nil => exact absurd rfl nonempty
  | cons symbol rest =>
    have found : symbol :: rest <+: symbol :: (rest ++ text) := ⟨text, rfl⟩
    have skipped : replaceFrom (symbol :: rest) new rest.length (rest ++ text) =
        replaceFrom (symbol :: rest) new 0 text := replaceFrom_skip rest
    simp only [replace, List.cons_append, replaceFrom, found, ↓reduceIte, List.length_cons,
      Nat.add_one_sub_one, skipped]

/-- A text without the pattern is left as it is. -/
theorem replace_of_absent (absent : ¬old <:+: text) : replace old new text = text := by
  induction text with
  | nil => rfl
  | cons symbol rest ih =>
    rw [replace_cons fun found => absent found.isInfix,
      ih fun found => absent (found.trans (List.suffix_cons symbol rest).isInfix)]

/-- A text in front in which no occurrence starts is left as it is. -/
theorem replace_append_of_no_start
    (none : ∀ later, later <:+ first → later ≠ [] → ¬old <+: later ++ second) :
    replace old new (first ++ second) = first ++ replace old new second := by
  induction first with
  | nil => rfl
  | cons symbol rest ih =>
    have keeps : ¬old <+: symbol :: (rest ++ second) :=
      none (symbol :: rest) List.suffix_rfl (List.cons_ne_nil _ _)
    rw [List.cons_append, replace_cons keeps, ih]
    · rfl
    · intro later suffix nonempty
      exact none later (suffix.trans (List.suffix_cons symbol rest)) nonempty

/-- A text without the pattern, up to a symbol that the pattern does not have. -/
theorem replace_append_left (absent : ¬old <:+: first) (ends : EndsOutside old first) :
    replace old new (first ++ second) = first ++ replace old new second := by
  apply replace_append_of_no_start
  intro later suffix nonempty found
  rcases List.prefix_or_prefix_of_prefix found (List.prefix_append later second) with within | runs
  · exact absent (within.isInfix.trans suffix.isInfix)
  · exact ends.not_subset suffix nonempty runs.subset

/-- A pattern of one symbol is replaced symbol by symbol. -/
theorem replace_singleton (wanted : Symbol) :
    replace [wanted] new text =
      text.flatMap fun symbol => if symbol = wanted then new else [symbol] := by
  induction text with
  | nil => rfl
  | cons symbol rest ih =>
    rw [List.flatMap_cons, ← ih]
    by_cases same : symbol = wanted
    · subst same
      rw [if_pos rfl]
      exact replace_append (List.cons_ne_nil symbol [])
    · have keeps : ¬[wanted] <+: symbol :: rest := by
        rw [List.singleton_prefix_cons_iff]
        exact fun equal => same equal.symm
      rw [if_neg same, replace_cons keeps]
      rfl

/-- Induction along the loop of `replace`. -/
theorem replace_induction {motive : List Symbol → Prop} (nonempty : old ≠ []) (nil : motive [])
    (found : ∀ rest, motive rest → motive (old ++ rest))
    (kept : ∀ symbol rest, ¬old <+: symbol :: rest → motive rest → motive (symbol :: rest))
    (text : List Symbol) : motive text := by
  induction length : text.length using Nat.strong_induction_on generalizing text with
  | _ count ih =>
    cases text with
    | nil => exact nil
    | cons symbol rest =>
      rw [List.length_cons] at length
      by_cases here : old <+: symbol :: rest
      · obtain ⟨later, split⟩ := here
        have lengths := congrArg List.length split
        rw [List.length_append, List.length_cons] at lengths
        have positive := List.length_pos_iff.mpr nonempty
        rw [← split]
        exact found later (ih later.length (by omega) later rfl)
      · exact kept symbol rest here (ih rest.length (by omega) rest rfl)

/-- Two texts that meet so are replaced one by one. -/
theorem replace_append_of_head (nonempty : old ≠ [])
    (starts : ∀ symbol ∈ second.head?, symbol ∉ old) (first : List Symbol) :
    replace old new (first ++ second) = replace old new first ++ replace old new second := by
  induction first using replace_induction nonempty with
  | nil => rfl
  | found rest ih =>
    rw [List.append_assoc, replace_append nonempty, replace_append nonempty, ih, List.append_assoc]
  | kept symbol rest absent ih =>
    have keeps : ¬old <+: symbol :: (rest ++ second) := fun found =>
      absent (prefix_of_prefix_append starts found)
    rw [List.cons_append, replace_cons keeps, replace_cons absent, ih, List.cons_append]

/-- Lines are replaced one by one. -/
theorem replace_intercalate {separator : Symbol} (nonempty : old ≠ []) (parted : separator ∉ old)
    (lines : List (List Symbol)) : replace old new ([separator].intercalate lines) =
      [separator].intercalate (lines.map (replace old new)) := by
  have starts (rest : List Symbol) : ∀ symbol ∈ (separator :: rest).head?, symbol ∉ old := by
    intro symbol isHead
    obtain rfl : separator = symbol := Option.some.inj isHead
    exact parted
  have keeps (rest : List Symbol) : ¬old <+: separator :: rest := by
    rintro ⟨behind, split⟩
    obtain ⟨symbol, others, rfl⟩ := List.exists_cons_of_ne_nil nonempty
    exact parted ((List.cons.inj split).1 ▸ List.mem_cons_self)
  induction lines with
  | nil => rfl
  | cons line rest ih =>
    cases rest with
    | nil => rw [List.intercalate_singleton, List.map_cons, List.map_nil, List.intercalate_singleton]
    | cons next rest =>
      rw [List.map_cons] at ih
      rw [List.intercalate_cons_cons, List.append_assoc, List.singleton_append,
        replace_append_of_head nonempty (starts _), replace_cons (keeps _), ih, List.map_cons,
        List.map_cons, List.intercalate_cons_cons, List.append_assoc, List.singleton_append]

/-- What is put in stands in the text. -/
theorem infix_replace (nonempty : old ≠ []) (found : old <:+: text) :
    new <:+: replace old new text := by
  induction text using replace_induction nonempty with
  | nil => exact absurd (List.infix_nil.mp found) nonempty
  | found rest ih =>
    rw [replace_append nonempty]
    exact (List.prefix_append _ _).isInfix
  | kept symbol rest absent ih =>
    rw [replace_cons absent]
    rcases List.infix_cons_iff.mp found with here | later
    · exact absurd here absent
    · exact (ih later).trans (List.suffix_cons symbol _).isInfix

/-- Erasing the pattern leaves no more, and less where it occurs. -/
theorem length_replace_nil_le (nonempty : old ≠ []) (text : List Symbol) :
    (replace old [] text).length ≤ text.length := by
  induction text using replace_induction nonempty with
  | nil => rfl
  | found rest ih =>
    rw [replace_append nonempty, List.nil_append, List.length_append]
    omega
  | kept symbol rest absent ih =>
    rw [replace_cons absent, List.length_cons, List.length_cons]
    omega

theorem length_replace_nil_lt (nonempty : old ≠ []) (found : old <:+: text) :
    (replace old [] text).length < text.length := by
  induction text using replace_induction nonempty with
  | nil => exact absurd (List.infix_nil.mp found) nonempty
  | found rest ih =>
    have positive := List.length_pos_iff.mpr nonempty
    have shorter := length_replace_nil_le nonempty rest
    rw [replace_append nonempty, List.nil_append, List.length_append]
    omega
  | kept symbol rest absent ih =>
    rcases List.infix_cons_iff.mp found with here | later
    · exact absurd here absent
    · rw [replace_cons absent, List.length_cons, List.length_cons]
      have shorter := ih later
      omega

/-- Erasing pairs of a symbol, one pair more or less makes no difference. -/
theorem replace_pair_insert (symbol : Symbol) (first second : List Symbol) :
    replace [symbol, symbol] [] (first ++ symbol :: symbol :: second) =
      replace [symbol, symbol] [] (first ++ second) := by
  have pair (rest : List Symbol) :
      replace [symbol, symbol] [] (symbol :: symbol :: rest) = replace [symbol, symbol] [] rest :=
    replace_append (List.cons_ne_nil _ _)
  induction first using List.twoStepInduction with
  | nil => exact pair second
  | singleton other =>
    by_cases same : other = symbol
    · rw [same]
      exact pair (symbol :: second)
    · have keeps (rest : List Symbol) : ¬[symbol, symbol] <+: other :: rest := by
        rw [List.cons_prefix_cons]
        exact fun start => same start.1.symm
      rw [List.cons_append, List.nil_append, replace_cons (keeps _), pair, List.cons_append,
        List.nil_append, replace_cons (keeps _)]
  | cons_cons one other rest skip step =>
    by_cases both : one = symbol ∧ other = symbol
    · obtain ⟨rfl, rfl⟩ := both
      simp only [List.cons_append, pair]
      exact skip
    · have keeps (later : List Symbol) : ¬[symbol, symbol] <+: one :: other :: later := by
        rw [List.cons_prefix_cons, List.cons_prefix_cons]
        exact fun start => both ⟨start.1.symm, start.2.1.symm⟩
      simp only [List.cons_append]
      rw [replace_cons (keeps _), replace_cons (keeps _)]
      exact congrArg (one :: ·) (step other)

end Replace

end QmkSonix.Lib
