import QmkSonix.Rgblight.Model

/-! The tables that `rgblight_modes.h` generates: which effect and which of its modes a
mode number stands for. -/

namespace QmkSonix.Rgblight

section Bases

theorem mem_basesFrom {effects : List Effect} {next : Nat} {entry : Effect × Nat}
    (member : entry ∈ basesFrom next effects) :
    next ≤ entry.2 ∧ entry.2 + entry.1.modes ≤ next + (effects.map Effect.modes).sum := by
  induction effects generalizing next with
  | nil => cases member
  | cons effect rest ih =>
    rw [List.map_cons, List.sum_cons]
    rcases List.mem_cons.mp member with rfl | later
    · simp only
      omega
    · obtain ⟨low, high⟩ := ih later
      omega

theorem modes_pos (effect : Effect) : 0 < effect.modes := by
  cases effect <;> decide

/-- Every place of the table belongs to the effect whose modes are there. -/
theorem getElem?_bases (effects : List Effect) (next : Nat) {place : Nat}
    (inside : place < (effects.map Effect.modes).sum) :
    ∃ entry ∈ basesFrom next effects, entry.2 ≤ next + place ∧
      next + place < entry.2 + entry.1.modes ∧
      ((basesFrom next effects).flatMap fun entry =>
        List.replicate entry.1.modes (BitVec.ofNat 8 entry.2))[place]? =
          some (BitVec.ofNat 8 entry.2) := by
  induction effects generalizing next place with
  | nil => cases inside
  | cons effect rest ih =>
    rw [List.map_cons, List.sum_cons] at inside
    rw [basesFrom, List.flatMap_cons]
    by_cases first : place < effect.modes
    · refine ⟨(effect, next), List.mem_cons_self, Nat.le_add_right .., ?_, ?_⟩
      · simp only
        omega
      · rw [List.getElem?_append_left (by simpa using first), List.getElem?_replicate, if_pos first]
    · obtain ⟨entry, member, low, high, found⟩ := ih (next + effect.modes)
        (show place - effect.modes < (rest.map Effect.modes).sum by omega)
      refine ⟨entry, List.mem_cons_of_mem _ member, by omega, by omega, ?_⟩
      rw [List.getElem?_append_right (by simpa using Nat.le_of_not_lt first), List.length_replicate]
      exact found

/-- The numbers of different effects are different. -/
theorem find?_bases {effects : List Effect} {next : Nat}
    (small : next + (effects.map Effect.modes).sum ≤ 256) {entry : Effect × Nat}
    (member : entry ∈ basesFrom next effects) :
    (basesFrom next effects).find? (fun other => BitVec.ofNat 8 other.2 = BitVec.ofNat 8 entry.2) =
      some entry := by
  induction effects generalizing next with
  | nil => cases member
  | cons effect rest ih =>
    rw [List.map_cons, List.sum_cons] at small
    rcases List.mem_cons.mp member with rfl | later
    · simp [basesFrom]
    · obtain ⟨low, high⟩ := mem_basesFrom later
      have positive := modes_pos effect
      have room := modes_pos entry.1
      have apart : ¬BitVec.ofNat 8 next = BitVec.ofNat 8 entry.2 := by
        intro same
        have numbers := congrArg BitVec.toNat same
        rw [BitVec.toNat_ofNat, BitVec.toNat_ofNat] at numbers
        omega
      rw [basesFrom, List.find?_cons_of_neg (by simpa using apart)]
      exact ih (by omega) later

end Bases

section Tables

variable (cfg : Config)

theorem rgblightModes_le : cfg.rgblightModes ≤ 42 := by
  have whole : (Effect.all.map Effect.modes).sum = 42 := by decide
  rw [← whole]
  exact List.Sublist.sum_le_sum (List.Sublist.map _ List.filter_sublist) (by simp)

theorem rgblightModes_pos : 1 ≤ cfg.rgblightModes := by
  have member : Effect.staticLight ∈ cfg.compiled := by
    simp [Config.compiled, Effect.all]
  exact List.single_le_sum (by simp) 1 (List.mem_map_of_mem (f := Effect.modes) member)

theorem clampMode_range (mode : Byte) :
    1 ≤ (cfg.clampMode mode).toNat ∧ (cfg.clampMode mode).toNat ≤ cfg.rgblightModes := by
  have least := rgblightModes_pos cfg
  have most := rgblightModes_le cfg
  unfold Config.clampMode
  split
  · exact ⟨le_refl 1, least⟩
  · split
    · rw [BitVec.toNat_ofNat]
      omega
    · rw [BitVec.toNat_setWidth]
      omega

theorem clampMode_of_range {mode : BitVec 7} (low : 1 ≤ mode.toNat)
    (high : mode.toNat ≤ cfg.rgblightModes) : cfg.clampMode (mode.setWidth 8) = mode := by
  have value : (mode.setWidth 8).toNat = mode.toNat := by
    rw [BitVec.toNat_setWidth]
    omega
  rw [Config.clampMode, if_neg (by omega), if_neg (by omega)]
  simp

/-- The interval that `rgblight_task` looks up for an effect: its place in the table and
the length of the table. -/
def intervalOf (delta : Nat) : Effect → Option (Nat × Nat)
  | .breathing => some (delta, 4)
  | .rainbowMood | .knight => some (delta, 3)
  | .rainbowSwirl | .snake => some (delta / 2, 3)
  | .rgbTest => some (0, 1)
  | .twinkle => some (delta % 3, 3)
  | .staticLight | .christmas | .staticGradient | .alternating => none

theorem intervalOf_inside {effect : Effect} {delta : Nat} (inside : delta < effect.modes)
    {place length : Nat} (found : intervalOf delta effect = some (place, length)) :
    place < length := by
  cases effect <;> cases found <;> simp only [Effect.modes] at inside <;> omega

/-- A mode in range belongs to the effect of its base mode. -/
theorem modeBaseTable_effect {mode : Nat} (low : 1 ≤ mode) (high : mode ≤ cfg.rgblightModes) :
    ∃ effect base, cfg.modeBaseTable[mode]? = some (BitVec.ofNat 8 base) ∧ base ≤ mode ∧
      mode < base + effect.modes ∧ cfg.effectAt (BitVec.ofNat 8 base) = some effect := by
  obtain ⟨entry, member, below, above, found⟩ := getElem?_bases cfg.compiled 1
    (show mode - 1 < (cfg.compiled.map Effect.modes).sum by
      unfold Config.rgblightModes at high
      omega)
  refine ⟨entry.1, entry.2, ?_, by omega, by omega, ?_⟩
  · obtain ⟨place, rfl⟩ : ∃ place, mode = place + 1 := ⟨mode - 1, by omega⟩
    exact found
  · have most := rgblightModes_le cfg
    unfold Config.rgblightModes at most
    rw [Config.effectAt, Config.bases, find?_bases (by omega) member]
    rfl

/-- No effect has the base mode 0. -/
theorem effectAt_zero : cfg.effectAt 0 = none := by
  rw [Config.effectAt, Option.map_eq_none_iff, List.find?_eq_none]
  intro entry member
  obtain ⟨low, high⟩ := mem_basesFrom member
  have most := rgblightModes_le cfg
  have room := modes_pos entry.1
  unfold Config.rgblightModes at most
  have apart : ¬BitVec.ofNat 8 entry.2 = 0 := by
    intro zero
    have number := congrArg BitVec.toNat zero
    rw [BitVec.toNat_ofNat] at number
    have nothing : (0 : Byte).toNat = 0 := rfl
    omega
  simpa using apart

theorem length_modeBaseTable : cfg.modeBaseTable.length = cfg.rgblightModes + 1 := by
  have lengths (effects : List Effect) (next : Nat) :
      ((basesFrom next effects).flatMap fun entry =>
        List.replicate entry.1.modes (BitVec.ofNat 8 entry.2)).length =
        (effects.map Effect.modes).sum := by
    induction effects generalizing next with
    | nil => rfl
    | cons effect rest ih =>
      rw [basesFrom, List.flatMap_cons, List.length_append, List.length_replicate, ih,
        List.map_cons, List.sum_cons]
  rw [Config.modeBaseTable, List.length_cons, Config.bases, lengths]
  rfl

end Tables

end QmkSonix.Rgblight
