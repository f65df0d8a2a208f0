import Mathlib

/-! Memories that are written page by page: a block placed at an address, a write that
wraps inside its page, and addresses as bytes, the highest first. -/

namespace QmkSonix.Lib

section Blocks

variable {Value : Type*}

/-- The memory with the first `len` values in place of what it holds from `start` on. -/
def splice (memory : ℕ → Value) (start len : ℕ) (values : ℕ → Value) : ℕ → Value :=
  fun address =>
    if start ≤ address ∧ address < start + len then values (address - start) else memory address

@[simp] theorem splice_zero (memory : ℕ → Value) (start : ℕ) (values : ℕ → Value) :
    splice memory start 0 values = memory := by
  funext address
  simp only [splice]
  rw [if_neg (by omega)]

/-- A block may be placed in two parts. -/
theorem splice_splice (memory : ℕ → Value) (start first rest : ℕ) (values : ℕ → Value) :
    splice (splice memory start first values) (start + first) rest
      (fun i => values (i + first)) = splice memory start (first + rest) values := by
  funext address
  simp only [splice]
  by_cases later : start + first ≤ address ∧ address < start + first + rest
  · rw [if_pos later, if_pos (by omega)]
    congr 1
    omega
  · rw [if_neg later]
    by_cases earlier : start ≤ address ∧ address < start + first
    · rw [if_pos earlier, if_pos (by omega)]
    · rw [if_neg earlier, if_neg (by omega)]

theorem splice_last (memory : ℕ → Value) (start len : ℕ) (values : ℕ → Value) :
    splice memory start (len + 1) values (start + len) = values len := by
  simp only [splice]
  rw [if_pos (by omega), Nat.add_sub_cancel_left]

/-- The address that a value goes to when a write that starts at `start` wraps inside
its page. -/
def pageAddress (page start i : ℕ) : ℕ := start - start % page + (start % page + i) % page

/-- A write of `len` values that wraps inside the page it starts in. -/
def writePage (page : ℕ) (memory : ℕ → Value) (start len : ℕ) (values : ℕ → Value) :
    ℕ → Value :=
  (List.range len).foldl
    (fun memory i => Function.update memory (pageAddress page start i) (values i)) memory

theorem writePage_succ (page : ℕ) (memory : ℕ → Value) (start len : ℕ) (values : ℕ → Value) :
    writePage page memory start (len + 1) values =
      Function.update (writePage page memory start len values) (pageAddress page start len)
        (values len) := by
  simp [writePage, List.range_succ]

theorem pageAddress_fits {page start i : ℕ} (fits : start % page + i < page) :
    pageAddress page start i = start + i := by
  have below := Nat.mod_le start page
  rw [pageAddress, Nat.mod_eq_of_lt fits]
  omega

/-- A write that ends before its page does not wrap. -/
theorem writePage_fits {page start len : ℕ} (fits : start % page + len ≤ page)
    (memory : ℕ → Value) (values : ℕ → Value) :
    writePage page memory start len values = splice memory start len values := by
  induction len with
  | zero => rw [splice_zero]; rfl
  | succ len ih =>
    rw [writePage_succ, ih (by omega), pageAddress_fits (by omega)]
    funext address
    by_cases last : address = start + len
    · rw [last, Function.update_self, splice_last]
    · rw [Function.update_of_ne last]
      simp only [splice]
      by_cases inside : start ≤ address ∧ address < start + len
      · rw [if_pos inside, if_pos (by omega)]
      · rw [if_neg inside, if_neg (by omega)]

theorem writePage_congr (page : ℕ) (memory : ℕ → Value) (start : ℕ) {len : ℕ}
    {values others : ℕ → Value} (same : ∀ i < len, values i = others i) :
    writePage page memory start len values = writePage page memory start len others := by
  induction len with
  | zero => rfl
  | succ len ih =>
    rw [writePage_succ, writePage_succ, ih fun i below => same i (by omega), same len (by omega)]

/-- A wrapped write stays in the bank of its start, where banks are whole pages. -/
theorem pageAddress_div {page bank : ℕ} (positive : 0 < page) (whole : page ∣ bank)
    (start i : ℕ) : pageAddress page start i / bank = start / bank := by
  obtain ⟨pages, rfl⟩ := whole
  have rest := Nat.mod_lt (start % page + i) positive
  have address : pageAddress page start i =
      page * (start / page) + (start % page + i) % page := by
    have split := Nat.div_add_mod start page
    unfold pageAddress
    omega
  rw [← Nat.div_div_eq_div_mul, ← Nat.div_div_eq_div_mul, address, Nat.mul_add_div positive,
    Nat.div_eq_of_lt rest, Nat.add_zero]

/-- What lies outside of the bank is left alone. -/
theorem writePage_outside {page bank : ℕ} (positive : 0 < page) (whole : page ∣ bank)
    (memory : ℕ → Value) (start len : ℕ) (values : ℕ → Value) {address : ℕ}
    (outside : address / bank ≠ start / bank) :
    writePage page memory start len values address = memory address := by
  induction len with
  | zero => rfl
  | succ len ih =>
    have other : address ≠ pageAddress page start len := by
      rintro rfl
      exact outside (pageAddress_div positive whole start len)
    rw [writePage_succ, Function.update_of_ne other, ih]

/-- The values of a block that still fit in the page of its start. -/
def pageRoom (page start len : ℕ) : ℕ := min (page - start % page) len

theorem pageRoom_pos {page start len : ℕ} (positive : 0 < page) (some : len ≠ 0) :
    0 < pageRoom page start len := by
  have rest := Nat.mod_lt start positive
  unfold pageRoom
  omega

theorem pageRoom_le (page start len : ℕ) : pageRoom page start len ≤ len := min_le_right _ _

theorem pageRoom_fits {page : ℕ} (positive : 0 < page) (start len : ℕ) :
    start % page + pageRoom page start len ≤ page := by
  have rest := Nat.mod_lt start positive
  unfold pageRoom
  omega

end Blocks

section Addresses

/-- The lowest `size` bytes of an address, the highest first. -/
def addressBytes (size address : ℕ) : List (BitVec 8) :=
  (List.range size).map fun i => BitVec.ofNat 8 (address / 256 ^ (size - 1 - i))

/-- The address that some bytes stand for, the highest first. -/
def ofAddressBytes (bytes : List (BitVec 8)) : ℕ :=
  bytes.foldl (fun address byte => address * 256 + byte.toNat) 0

theorem addressBytes_succ (size address : ℕ) :
    addressBytes (size + 1) address =
      addressBytes size (address / 256) ++ [BitVec.ofNat 8 address] := by
  simp only [addressBytes, List.range_succ, List.map_append, List.map_cons, List.map_nil]
  congr 1
  · apply List.map_congr_left
    intro i member
    have below := List.mem_range.mp member
    have power : size + 1 - 1 - i = size - 1 - i + 1 := by omega
    rw [power, Nat.div_div_eq_div_mul, Nat.pow_succ, Nat.mul_comm 256]
  · simp

theorem ofAddressBytes_lt (bytes : List (BitVec 8)) :
    ofAddressBytes bytes < 256 ^ bytes.length := by
  induction bytes using List.reverseRecOn with
  | nil => exact Nat.one_pos
  | append_singleton earlier byte ih =>
    have small := byte.isLt
    unfold ofAddressBytes at ih ⊢
    rw [List.foldl_append, List.length_append, List.length_singleton, Nat.pow_succ]
    simp only [List.foldl_cons, List.foldl_nil]
    omega

/-- An address is read back up to its size. -/
theorem ofAddressBytes_addressBytes (size address : ℕ) :
    ofAddressBytes (addressBytes size address) = address % 256 ^ size := by
  induction size generalizing address with
  | zero => simp [addressBytes, ofAddressBytes, Nat.mod_one]
  | succ size ih =>
    have earlier := ih (address / 256)
    unfold ofAddressBytes at earlier ⊢
    have split : address % 256 ^ (size + 1) = address % 256 + 256 * (address / 256 % 256 ^ size) := by
      rw [Nat.pow_succ, Nat.mul_comm, Nat.mod_mul]
    rw [addressBytes_succ, List.foldl_append, earlier, List.foldl_cons, List.foldl_nil, split,
      BitVec.toNat_ofNat]
    omega

end Addresses

end QmkSonix.Lib
