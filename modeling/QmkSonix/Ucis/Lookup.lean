import QmkSonix.Ucis.Model

/-! Which symbol is found behind a text. -/

namespace QmkSonix.Ucis

section Characters

theorem expected_iff (sign typed : Sign) :
    typed.keycode = expected sign.char ↔ sign = typed ∧ typed.isLetter = true := by
  revert sign typed
  decide +kernel

theorem char_ne_zero (sign : Sign) : sign.char ≠ 0 := by
  revert sign
  decide

theorem keycode_not_end (sign : Sign) : sign.keycode ≠ kcEnter ∧ sign.keycode ≠ kcSpace := by
  revert sign
  decide

/-- No character is taken for a key that ends the input. -/
theorem end_not_expected (sign : Sign) :
    kcEnter ≠ expected sign.char ∧ kcSpace ≠ expected sign.char := by
  revert sign
  decide

end Characters

/-- `codes` holds a text that space or enter follows, and both are counted. -/
structure Ended (config : Config) (text : List Sign) (state : State) : Prop where
  inside : text.length < config.maxSymbolLength
  count : state.count.toNat = text.length + 1
  codes : ∀ index (bound : index < text.length), state.codes index = text[index].keycode
  last : state.codes text.length = kcSpace ∨ state.codes text.length = kcEnter

/-- Every sign is a letter. -/
def Lettered (text : List Sign) : Prop := ∀ sign ∈ text, sign.isLetter = true

instance (text : List Sign) : Decidable (Lettered text) :=
  inferInstanceAs (Decidable (∀ sign ∈ text, sign.isLetter = true))

theorem lettered_cons (sign : Sign) (text : List Sign) :
    Lettered (sign :: text) ↔ sign.isLetter = true ∧ Lettered text := List.forall_mem_cons

section Matching

variable {config : Config} {text : List Sign} {state : State}

theorem Ended.load_eq (ended : Ended config text state) {index : ℕ} (bound : index ≤ text.length) :
    load config state index = .ok (state.codes index) :=
  if_pos (bound.trans_lt ended.inside)

theorem Ended.fits (ended : Ended config text state) : text.length + 1 < 256 :=
  ended.count ▸ state.count.isLt

/-- The loop reads on while the symbol agrees with the text, and no further. -/
theorem Ended.loop (ended : Ended config text state) (symbol : List Sign) (fuel index : ℕ)
    (bound : index ≤ text.length) (enough : text.length < index + fuel) :
    isUniSeqLoop config state (symbol.map Sign.char) fuel (BitVec.ofNat 8 index) =
      .ok (decide (symbol.drop index = text.drop index ∧ Lettered (text.drop index))) := by
  induction fuel generalizing index with
  | zero => exact absurd enough (Nat.not_lt_of_le bound)
  | succ fuel ih =>
    have fits := ended.fits
    have position : (BitVec.ofNat 8 index).toNat = index := by
      rw [BitVec.toNat_ofNat]
      omega
    have counted : ¬ state.count < BitVec.ofNat 8 index := by
      rw [BitVec.lt_def, position, ended.count]
      omega
    have next : BitVec.ofNat 8 index + 1 = BitVec.ofNat 8 (index + 1) := by
      apply BitVec.eq_of_toNat_eq
      simp
    simp only [isUniSeqLoop, position, ended.load_eq bound, if_neg counted, bind, Except.bind, pure,
      Except.pure]
    by_cases more : index < symbol.length
    · have char : (symbol.map Sign.char).getD index 0 = symbol[index].char := by
        simp [List.getD_eq_getElem?_getD, more]
      rw [char, if_neg (char_ne_zero _)]
      by_cases inText : index < text.length
      · rw [ended.codes index inText]
        simp only [List.drop_eq_getElem_cons more, List.drop_eq_getElem_cons inText,
          List.cons.injEq, lettered_cons]
        by_cases same : symbol[index] = text[index] ∧ text[index].isLetter = true
        · rw [if_pos ((expected_iff _ _).mpr same), next,
            ih (index + 1) inText (by omega)]
          simp only [same.1, same.2, true_and]
        · rw [if_neg fun equal => same ((expected_iff _ _).mp equal)]
          rw [decide_eq_false]
          exact fun both => same ⟨both.1.1, both.2.1⟩
      · have last : index = text.length := Nat.le_antisymm bound (Nat.le_of_not_lt inText)
        subst last
        have differs : state.codes text.length ≠ expected symbol[text.length].char := by
          rcases ended.last with space | enter
          · exact space ▸ (end_not_expected _).2
          · exact enter ▸ (end_not_expected _).1
        rw [if_neg differs, decide_eq_false]
        rw [List.drop_eq_getElem_cons more, List.drop_length]
        exact fun both => List.cons_ne_nil _ _ both.1
    · have char : (symbol.map Sign.char).getD index 0 = 0 := by
        simp [List.getD_eq_getElem?_getD, Nat.le_of_not_lt more]
      rw [char, if_pos rfl, List.drop_eq_nil_of_le (Nat.le_of_not_lt more)]
      by_cases inText : index < text.length
      · have code := keycode_not_end text[index]
        rw [ended.codes index inText, decide_eq_false code.1, decide_eq_false code.2,
          decide_eq_false]
        · rfl
        · rw [List.drop_eq_getElem_cons inText]
          exact fun both => List.cons_ne_nil _ _ both.1.symm
      · have last : index = text.length := Nat.le_antisymm bound (Nat.le_of_not_lt inText)
        subst last
        rw [List.drop_length]
        rcases ended.last with space | enter
        · simp [space, Lettered]
        · simp [enter, Lettered]

/-- A symbol is the text when it is equal to it and holds no digit. -/
theorem Ended.isUniSeq_eq (ended : Ended config text state) (symbol : List Sign) :
    isUniSeq config state symbol = .ok (decide (symbol = text ∧ Lettered text)) := by
  have fits := ended.fits
  exact ended.loop symbol 256 0 (Nat.zero_le _) (by omega)

/-- The first symbol that is the text and holds no digit -/
def firstMatch (text : List Sign) (table : List Symbol) : Option Symbol :=
  table.find? fun entry => entry.symbol = text ∧ Lettered text

/-- The loop over the table finds the first symbol that is the text; past 256 symbols it does not
end. -/
theorem Ended.findLoop (ended : Ended config text state) (fuel index : ℕ)
    (turns : index + fuel = 256) (bound : index ≤ config.table.length) :
    (findSymbol config state fuel (BitVec.ofNat 8 index)).map (Option.map Prod.snd) =
      (firstMatch text ((config.table.drop index).take fuel)).elim
        (if config.table.length < 256 then .ok none else .error .endless)
        (fun entry => .ok (some entry)) := by
  induction fuel generalizing index with
  | zero =>
    have long : ¬ config.table.length < 256 := by omega
    simp [findSymbol, firstMatch, if_neg long, Except.map]
  | succ fuel ih =>
    have position : (BitVec.ofNat 8 index).toNat = index := by
      rw [BitVec.toNat_ofNat]
      omega
    have next : BitVec.ofNat 8 index + 1 = BitVec.ofNat 8 (index + 1) := by
      apply BitVec.eq_of_toNat_eq
      simp
    rw [findSymbol, position]
    by_cases more : index < config.table.length
    · rw [List.getElem?_eq_getElem more, List.drop_eq_getElem_cons more, List.take_succ_cons,
        firstMatch, List.find?_cons]
      simp only [ended.isUniSeq_eq, bind, Except.bind]
      by_cases same : config.table[index].symbol = text ∧ Lettered text
      · simp [same, pure, Except.pure, Except.map]
      · rw [decide_eq_false same, next]
        exact ih (index + 1) (by omega) more
    · have few : config.table.length < 256 := by omega
      rw [List.getElem?_eq_none (Nat.le_of_not_lt more),
        List.drop_eq_nil_of_le (Nat.le_of_not_lt more), if_pos few]
      rfl

theorem Ended.found (ended : Ended config text state) {entry : Symbol}
    (first : firstMatch text (config.table.take 256) = some entry) :
    ∃ position, findSymbol config state 256 0 = .ok (some (position, entry)) := by
  have search := ended.findLoop 256 0 rfl (Nat.zero_le _)
  rw [List.drop_zero, first, Option.elim_some] at search
  cases result : findSymbol config state 256 (BitVec.ofNat 8 0) with
  | error fault =>
    rw [result] at search
    cases search
  | ok outcome =>
    rw [result] at search
    cases outcome with
    | none => cases search
    | some pair =>
      obtain ⟨position, other⟩ := pair
      cases search
      exact ⟨position, rfl⟩

theorem Ended.absent (ended : Ended config text state)
    (missing : firstMatch text (config.table.take 256) = none) :
    findSymbol config state 256 0 =
      if config.table.length < 256 then .ok none else .error .endless := by
  have search := ended.findLoop 256 0 rfl (Nat.zero_le _)
  rw [List.drop_zero, missing, Option.elim_none] at search
  cases result : findSymbol config state 256 (BitVec.ofNat 8 0) with
  | error fault =>
    rw [result] at search
    split at search
    · cases search
    · rename_i long
      rw [if_neg long]
      cases search
      rfl
  | ok outcome =>
    rw [result] at search
    split at search
    · rename_i few
      rw [if_pos few]
      cases outcome with
      | none => rfl
      | some pair => cases search
    · cases search

/-- More turns do not end the loop over a table of 256 symbols that does not hold the text. -/
theorem Ended.endless (ended : Ended config text state) (long : 256 ≤ config.table.length)
    (absent : firstMatch text (config.table.take 256) = none) (fuel : ℕ) (i : BitVec 8) :
    findSymbol config state fuel i = .error .endless := by
  induction fuel generalizing i with
  | zero => rfl
  | succ fuel ih =>
    have bound : i.toNat < config.table.length := i.isLt.trans_le long
    have among : config.table[i.toNat] ∈ config.table.take 256 :=
      List.mem_take_iff_getElem.mpr ⟨i.toNat, lt_min i.isLt bound, rfl⟩
    have differs := List.find?_eq_none.mp absent _ among
    rw [findSymbol, List.getElem?_eq_getElem bound]
    simp only [ended.isUniSeq_eq, bind, Except.bind]
    rw [Bool.not_eq_true] at differs
    rw [differs]
    exact ih (i + 1)

theorem mapM_ok {α β ε : Type} {inputs : List α} {function : α → Except ε β} {result : α → β}
    (each : ∀ input ∈ inputs, function input = .ok (result input)) :
    inputs.mapM function = .ok (inputs.map result) := by
  induction inputs with
  | nil => rfl
  | cons input rest ih =>
    rw [List.mapM_cons, each input List.mem_cons_self,
      ih fun other member => each other (List.mem_cons_of_mem input member)]
    rfl

/-- What is typed again is the text. -/
theorem Ended.fallback (ended : Ended config text state) :
    qkUcisSymbolFallback config state =
      .ok ((List.range text.length).map fun index => (state.codes index).setWidth 8) := by
  rw [qkUcisSymbolFallback, ended.count, Nat.add_sub_cancel]
  refine mapM_ok fun index member => ?_
  rw [ended.load_eq (List.mem_range.mp member).le]
  rfl

end Matching

end QmkSonix.Ucis
