import QmkSonix.Lib.Pages

/-! The address bytes that both drivers of an external EEPROM send, and memories of bytes. -/

namespace QmkSonix.ExternalEeprom

open QmkSonix.Lib

abbrev Byte := BitVec 8

/-- The bytes of a chip, or those behind a pointer of the caller. -/
abbrev Memory := ℕ → Byte

/-- The loop of `fill_target_address` and `spi_eeprom_transmit_address`. -/
def fillAddress (size : ℕ) (buffer : Memory) (addr : ℕ) : Memory :=
  ((List.range size).foldl
    (fun (state : Memory × ℕ) i =>
      (Function.update state.1 (size - 1 - i) (BitVec.ofNat 8 state.2), state.2 / 256))
    (buffer, addr)).1

theorem fillAddress_loop (size : ℕ) (buffer : Memory) (addr : ℕ) {count : ℕ}
    (within : count ≤ size) :
    (List.range count).foldl
      (fun (state : Memory × ℕ) i =>
        (Function.update state.1 (size - 1 - i) (BitVec.ofNat 8 state.2), state.2 / 256))
      (buffer, addr) =
    (fun j =>
      if size - count ≤ j ∧ j < size then BitVec.ofNat 8 (addr / 256 ^ (size - 1 - j))
      else buffer j, addr / 256 ^ count) := by
  induction count with
  | zero =>
    simp only [List.range_zero, List.foldl_nil, Nat.pow_zero, Nat.div_one, Prod.mk.injEq,
      and_true]
    funext j
    rw [if_neg (by omega)]
  | succ count ih =>
    rw [List.range_succ, List.foldl_append, ih (by omega)]
    simp only [List.foldl_cons, List.foldl_nil, Nat.div_div_eq_div_mul, ← Nat.pow_succ,
      Prod.mk.injEq, and_true]
    funext j
    by_cases here : j = size - 1 - count
    · rw [here, Function.update_self, if_pos (by omega)]
      congr 3
      omega
    · rw [Function.update_of_ne here]
      by_cases filled : size - count ≤ j ∧ j < size
      · rw [if_pos filled, if_pos (by omega)]
      · rw [if_neg filled, if_neg (by omega)]

/-- The buffer starts with the address, the highest byte first. -/
theorem fillAddress_bytes (size : ℕ) (buffer : Memory) (addr : ℕ) :
    (List.range size).map (fillAddress size buffer addr) = addressBytes size addr := by
  apply List.map_congr_left
  intro i member
  have below := List.mem_range.mp member
  rw [fillAddress, fillAddress_loop size buffer addr le_rfl]
  dsimp only
  rw [if_pos (by omega)]

end QmkSonix.ExternalEeprom
