import Mathlib

/-! Cyclic redundancy checks as a shift register that is fed bit by bit, the highest
bit first, and which differences between two messages it tells apart. -/

namespace QmkSonix.Lib.Crc

variable {w : ℕ} (poly : BitVec w)

/-- One bit goes in at the top. -/
def feed (crc : BitVec w) (bit : Bool) : BitVec w :=
  crc <<< 1 ^^^ if crc.msb ^^ bit then poly else 0

def register (crc : BitVec w) (bits : List Bool) : BitVec w := bits.foldl (feed poly) crc

/-- The bits of a word, the highest first. -/
def bitsOf (word : BitVec w) : List Bool := (List.range w).map word.getMsbD

/-- Where two messages differ. -/
def difference (xs ys : List Bool) : List Bool := List.zipWith xor xs ys

variable {poly} {crc : BitVec w} {bits xs ys : List Bool}

theorem length_bitsOf (word : BitVec w) : (bitsOf word).length = w := by simp [bitsOf]

@[simp] theorem register_nil (crc : BitVec w) : register poly crc [] = crc := rfl

@[simp] theorem register_cons (crc : BitVec w) (bit : Bool) (rest : List Bool) :
    register poly crc (bit :: rest) = register poly (feed poly crc bit) rest := rfl

theorem register_append (crc : BitVec w) (first second : List Bool) :
    register poly crc (first ++ second) = register poly (register poly crc first) second :=
  List.foldl_append ..

/-! ### The register is linear -/

theorem feed_xor (a b : BitVec w) (x y : Bool) :
    feed poly (a ^^^ b) (x ^^ y) = feed poly a x ^^^ feed poly b y := by
  have turned (s t : Bool) : (if (s ^^ t) = true then poly else 0) =
      (if s = true then poly else 0) ^^^ (if t = true then poly else 0) := by
    cases s <;> cases t <;> simp
  have tops : ((a.msb ^^ b.msb) ^^ (x ^^ y)) = ((a.msb ^^ x) ^^ (b.msb ^^ y)) := by
    cases a.msb <;> cases b.msb <;> cases x <;> cases y <;> rfl
  rw [feed, feed, feed, BitVec.shiftLeft_xor_distrib, BitVec.msb_xor, tops, turned]
  ac_rfl

theorem register_xor (a b : BitVec w) (same : xs.length = ys.length) :
    register poly (a ^^^ b) (difference xs ys) = register poly a xs ^^^ register poly b ys := by
  induction xs generalizing a b ys with
  | nil =>
    obtain rfl := List.length_eq_zero_iff.mp same.symm
    rfl
  | cons x xs ih =>
    cases ys with
    | nil => cases same
    | cons y ys =>
      have rest := ih (feed poly a x) (feed poly b y) (Nat.succ.inj same)
      rw [register_cons, register_cons, ← rest, ← feed_xor]
      rfl

/-- Two messages leave the same register when their difference leaves none. -/
theorem register_eq_iff (same : xs.length = ys.length) :
    register poly crc xs = register poly crc ys ↔ register poly 0 (difference xs ys) = 0 := by
  have linear := @register_xor _ poly _ _ crc crc same
  rw [BitVec.xor_self] at linear
  rw [show (0 : BitVec w) = 0#w from rfl, linear, BitVec.xor_eq_zero_iff]

@[simp] theorem feed_zero : feed poly 0 false = 0 := by simp [feed]

@[simp] theorem register_zeros (count : ℕ) : register poly 0 (List.replicate count false) = 0 := by
  induction count with
  | zero => rfl
  | succ count ih => rw [List.replicate_succ, register_cons, feed_zero, ih]

/-! ### Nothing is forgotten -/

theorem eq_zero_of_shift (crc : BitVec w) (top : crc.msb = false) (rest : crc <<< 1 = 0) :
    crc = 0 := by
  apply BitVec.eq_of_getLsbD_eq
  intro i inside
  rw [show (0 : BitVec w).getLsbD i = false by simp]
  by_cases last : i + 1 = w
  · have bit : crc.msb = crc.getLsbD i := by
      rw [BitVec.msb_eq_getLsbD_last, (by omega : w - 1 = i)]
    rw [← bit, top]
  · have shifted := congrArg (fun word : BitVec w => word.getLsbD (i + 1)) rest
    simpa [BitVec.getLsbD_eq_getElem, inside, (by omega : i + 1 < w)] using shifted

theorem eq_zero_of_feed (odd : poly.getLsbD 0 = true) (gone : feed poly crc false = 0) :
    crc = 0 := by
  have low := congrArg (fun word : BitVec w => word.getLsbD 0) gone
  have top : crc.msb = false := by
    cases high : crc.msb with
    | false => rfl
    | true => simp [feed, high, odd] at low
  rw [feed, top] at gone
  exact eq_zero_of_shift crc top (by simpa using gone)

theorem eq_zero_of_zeros (odd : poly.getLsbD 0 = true) {count : ℕ}
    (gone : register poly crc (List.replicate count false) = 0) : crc = 0 := by
  induction count generalizing crc with
  | zero => exact gone
  | succ count ih =>
    rw [List.replicate_succ, register_cons] at gone
    exact eq_zero_of_feed odd (ih gone)

/-! ### Bits put into the register at once -/

/-- Bits at the top of a word. -/
def placed : List Bool → BitVec w
  | [] => 0
  | bit :: rest => (if bit then BitVec.twoPow w (w - 1) else 0) ^^^ placed rest >>> 1

theorem getLsbD_placed (bits : List Bool) {i : ℕ} (inside : i < w) :
    (placed bits : BitVec w).getLsbD i = bits[w - 1 - i]?.getD false := by
  induction bits generalizing i with
  | nil => simp [placed]
  | cons bit rest ih =>
    rw [placed, BitVec.getLsbD_xor, BitVec.getLsbD_ushiftRight]
    by_cases top : i = w - 1
    · have above : (placed rest : BitVec w).getLsbD (1 + i) = false :=
        BitVec.getLsbD_of_ge _ _ (by omega)
      rw [above, top]
      cases bit
      · simp
      · simp [(by omega : 0 < w)]
    · have shifted : w - 1 - i = (w - 1 - (1 + i)) + 1 := by omega
      rw [ih (by omega), shifted, List.getElem?_cons_succ]
      cases bit
      · simp
      · simp [BitVec.getLsbD_twoPow, Ne.symm top]

theorem placed_bitsOf (word : BitVec w) : placed (bitsOf word) = word := by
  apply BitVec.eq_of_getLsbD_eq
  intro i inside
  have place : w - 1 - i < w := by omega
  rw [getLsbD_placed _ inside, bitsOf, List.getElem?_map, List.getElem?_range place,
    Option.map_some, Option.getD_some, BitVec.getMsbD_eq_getLsbD]
  simp [place, (by omega : w - 1 - (w - 1 - i) = i)]

theorem feed_placed (bit : Bool) (rest : List Bool) (few : rest.length < w) :
    feed poly (placed (bit :: rest)) false = feed poly 0 bit ^^^ placed rest := by
  have first : feed poly (if bit then BitVec.twoPow w (w - 1) else 0) false = feed poly 0 bit := by
    cases bit with
    | false => rfl
    | true =>
      have out : BitVec.twoPow w (w - 1) <<< 1 = 0 := by
        apply BitVec.eq_of_getLsbD_eq
        intro i inside
        simp [BitVec.getLsbD_twoPow]
        omega
      have top : (BitVec.twoPow w (w - 1)).msb = true := by
        rw [BitVec.msb_eq_getLsbD_last, BitVec.getLsbD_twoPow]
        simp
        omega
      simp only [feed, if_true, out, top]
      simp
  have later : feed poly (placed rest >>> 1) false = placed rest := by
    have top : ((placed rest : BitVec w) >>> 1).msb = false := by
      rw [BitVec.msb_eq_getLsbD_last, BitVec.getLsbD_ushiftRight]
      exact BitVec.getLsbD_of_ge _ _ (by omega)
    have back : (placed rest : BitVec w) >>> 1 <<< 1 = placed rest := by
      apply BitVec.eq_of_getLsbD_eq
      intro i inside
      cases i with
      | zero =>
        have outside : rest[w - 1]? = none := List.getElem?_eq_none (by omega)
        rw [getLsbD_placed rest inside, Nat.sub_zero, outside]
        simp
      | succ i => simp [inside, Nat.add_comm 1 i]
    rw [feed, top, back]
    simp
  have split := @feed_xor _ poly (if bit then BitVec.twoPow w (w - 1) else 0) (placed rest >>> 1)
    false false
  rw [first, later] at split
  exact split

/-- Feeding bits is feeding zeros to a register that has the bits at its top. -/
theorem register_placed (few : bits.length ≤ w) :
    register poly 0 bits = register poly (placed bits) (List.replicate bits.length false) := by
  induction bits with
  | nil => rfl
  | cons bit rest ih =>
    have few' : rest.length + 1 ≤ w := few
    have split := @register_xor _ poly (List.replicate rest.length false) rest (feed poly 0 bit) 0
      (by simp)
    have zeros : difference (List.replicate rest.length false) rest = rest := by
      clear ih few few' split
      induction rest with
      | nil => rfl
      | cons bit rest ih => simpa [difference, List.replicate_succ] using ih
    rw [zeros, show feed poly 0 bit ^^^ 0 = feed poly 0 bit by simp, ih (by omega)] at split
    have joined := @register_xor _ poly (List.replicate rest.length false)
      (List.replicate rest.length false) (feed poly 0 bit) (placed rest) rfl
    have zeros' : difference (List.replicate rest.length false) (List.replicate rest.length false) =
        List.replicate rest.length false := by
      simp [difference]
    rw [zeros'] at joined
    rw [register_cons, split, ← joined, List.length_cons, List.replicate_succ, register_cons,
      feed_placed bit rest few']

/-! ### Differences that are noticed -/

/-- Differences inside a window of so many bits, differences in two bits that are
not too far apart, and differences in an odd number of bits. -/
inductive Noticeable (width reach : ℕ) : List Bool → Prop where
  | window (before behind : ℕ) (bits : List Bool) (few : bits.length ≤ width)
      (some : true ∈ bits) : Noticeable width reach
        (List.replicate before false ++ (bits ++ List.replicate behind false))
  | pair (before between behind : ℕ) (near : between < reach) : Noticeable width reach
        (List.replicate before false ++
          ((true :: List.replicate between false ++ [true]) ++ List.replicate behind false))
  | odd (bits : List Bool) (odd : Odd (bits.count true)) : Noticeable width reach bits

/-- What a polynomial needs to notice them. -/
structure Notices (poly : BitVec w) (reach : ℕ) : Prop where
  lowest : poly.getLsbD 0 = true
  pairs : ∀ between < reach,
    register poly 0 (true :: List.replicate between false ++ [true]) ≠ 0
  parity : ∃ parity : BitVec w → Bool, parity 0 = false ∧
    ∀ crc bit, parity (feed poly crc bit) = (parity crc ^^ bit)

section Notices

variable {reach : ℕ} (notices : Notices poly reach)
include notices

/-- A difference that leaves a trace leaves it wherever it stands. -/
theorem Notices.anywhere (trace : register poly 0 bits ≠ 0) (before behind : ℕ) :
    register poly 0 (List.replicate before false ++ (bits ++ List.replicate behind false)) ≠ 0 := by
  rw [register_append, register_zeros, register_append]
  exact fun gone => trace (eq_zero_of_zeros notices.lowest gone)

theorem Notices.window (few : bits.length ≤ w) (some : true ∈ bits) : register poly 0 bits ≠ 0 := by
  intro gone
  rw [register_placed few] at gone
  have empty : (placed bits : BitVec w) = 0 := eq_zero_of_zeros notices.lowest gone
  obtain ⟨i, inside, set⟩ := List.mem_iff_getElem.mp some
  have bit := getLsbD_placed bits (by omega : w - 1 - i < w)
  rw [empty, (by omega : w - 1 - (w - 1 - i) = i), List.getElem?_eq_getElem inside, set] at bit
  simp at bit

theorem Notices.odd (odd : Odd (bits.count true)) : register poly 0 bits ≠ 0 := by
  obtain ⟨parity, zero, fed⟩ := notices.parity
  have counted (crc : BitVec w) :
      parity (register poly crc bits) = (parity crc ^^ decide (Odd (bits.count true))) := by
    clear odd
    induction bits generalizing crc with
    | nil => simp
    | cons bit rest ih =>
      rw [register_cons, ih, fed, List.count_cons]
      by_cases odd : Odd (rest.count true) <;> cases bit <;> cases parity crc <;>
        simp [Nat.odd_add_one, odd, ← Nat.not_odd_iff_even]
  intro gone
  have told := counted 0
  rw [gone, zero] at told
  simp [odd] at told

theorem Notices.noticed (noticeable : Noticeable w reach bits) : register poly 0 bits ≠ 0 := by
  cases noticeable with
  | window before behind bits few some =>
    exact notices.anywhere (notices.window few some) before behind
  | pair before between behind near =>
    exact notices.anywhere (notices.pairs between near) before behind
  | odd bits odd => exact notices.odd odd

/-- Messages of one length that differ noticeably have different checksums. -/
theorem Notices.distinguishes (same : xs.length = ys.length)
    (noticeable : Noticeable w reach (difference xs ys)) :
    register poly crc xs ≠ register poly crc ys := by
  rw [ne_eq, register_eq_iff same]
  exact notices.noticed noticeable

end Notices

end QmkSonix.Lib.Crc
