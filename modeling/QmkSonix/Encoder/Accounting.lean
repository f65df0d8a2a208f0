import QmkSonix.Encoder.Model
import QmkSonix.Lib.Sweep

/-! What an encoder has turned: its pulse counter and the updates it has sent add up to
the look-up steps of its pin transitions. -/

namespace QmkSonix.Encoder

open QmkSonix.Lib

/-- The look-up step of one transition of the pads. -/
def transition (earlier later : Pads) : Int :=
  (encoderLUT ((earlier.bits <<< 2 ||| later.bits).setWidth 4)).toInt

/-- The look-up steps along a path of the pads. -/
def travel : Pads → List Pads → Int
  | _, [] => 0
  | earlier, later :: rest => transition earlier later + travel later rest

/-- One encoder by itself: its state, pulses and value, and the flags it has sent. -/
structure Knob where
  state : Byte
  pulses : Byte
  value : Byte
  flags : List Bool

namespace Knob

/-- Counter-clockwise minus clockwise flags. -/
def net (cfg : Config) (knob : Knob) : Int :=
  knob.flags.count cfg.encoderCounterClockwise - knob.flags.count cfg.encoderClockwise

/-- Read new pads, without `ENCODER_DEFAULT_POS`. -/
def read (cfg : Config) (pads : Fin cfg.numberOfEncoders → Pads) (i : Fin cfg.numberOfEncoders)
    (knob : Knob) : Knob :=
  let state := knob.state <<< 2 ||| (pads i).bits
  let resolution : Int := (cfg.encoderResolutions i).toNat
  let pulses := knob.pulses + encoderLUT (state.setWidth 4)
  let up := resolution ≤ pulses.toInt
  let down := pulses.toInt ≤ -resolution
  { state
    pulses := BitVec.ofInt 8 (pulses.toInt.tmod resolution)
    value := knob.value + (if up then 1 else 0) - (if down then 1 else 0)
    flags := knob.flags ++ ((if up then [cfg.encoderCounterClockwise] else []) ++
      if down then [cfg.encoderClockwise] else []) }

end Knob

section Paths

theorem transition_comm : ∀ earlier later : Pads, transition later earlier = -transition earlier later := by
  rintro ⟨a, b⟩ ⟨c, d⟩
  revert a b c d
  decide

theorem transition_small : ∀ earlier later : Pads, -1 ≤ transition earlier later ∧
    transition earlier later ≤ 1 := by
  rintro ⟨a, b⟩ ⟨c, d⟩
  revert a b c d
  decide

theorem travel_append_one (first last : Pads) (path : List Pads) :
    travel first (path ++ [last]) = travel first path + transition ((first :: path).getLast (by simp)) last := by
  induction path generalizing first with
  | nil => simp [travel]
  | cons next rest ih => simp [travel, ih, Int.add_assoc]

theorem travel_append (first : Pads) (path later : List Pads) :
    travel first (path ++ later) =
      travel first path + travel ((first :: path).getLast (by simp)) later := by
  induction path generalizing first with
  | nil => simp [travel]
  | cons next rest ih => simp [travel, ih, Int.add_assoc]

/-- Back along a path returns to its start. -/
def backwards {Place : Type*} (first : Place) (path : List Place) : List Place :=
  ((first :: path).dropLast).reverse

theorem backwards_cons {Place : Type*} (first next : Place) (rest : List Place) :
    backwards first (next :: rest) = backwards next rest ++ [first] := by
  simp [backwards]

theorem getLast_backwards {Place : Type*} (first : Place) (path : List Place) :
    (first :: (path ++ backwards first path)).getLast (by simp) = first := by
  cases path with
  | nil => simp [backwards]
  | cons next rest => simp [backwards_cons]

/-- A path and the same path backwards add up to nothing. -/
theorem travel_backwards (first : Pads) (path : List Pads) :
    travel first (path ++ backwards first path) = 0 := by
  induction path generalizing first with
  | nil => rfl
  | cons next rest ih =>
    have returned := getLast_backwards next rest
    have whole : (next :: rest) ++ backwards first (next :: rest) =
        next :: ((rest ++ backwards next rest) ++ [first]) := by
      rw [backwards_cons, List.cons_append, List.append_assoc]
    rw [whole, travel, travel_append_one, returned, ih, transition_comm]
    omega

end Paths

section Reading

variable {cfg : Config} {i : Fin cfg.numberOfEncoders} {knob : Knob}

/-- The pulses are below a resolution that an `int8_t` holds. -/
def Knob.Bounded (cfg : Config) (i : Fin cfg.numberOfEncoders) (knob : Knob) : Prop :=
  -((cfg.encoderResolutions i).toNat : Int) < knob.pulses.toInt ∧
    knob.pulses.toInt < (cfg.encoderResolutions i).toNat

theorem ofInt_toInt_of_small {n : Int} (low : -128 ≤ n) (high : n ≤ 127) :
    (BitVec.ofInt 8 n).toInt = n := by
  rw [BitVec.toInt_ofInt]
  exact Int.bmod_eq_of_le (by omega) (by omega)

theorem add_toInt_of_small {first second : Byte} (low : -128 ≤ first.toInt + second.toInt)
    (high : first.toInt + second.toInt ≤ 127) :
    (first + second).toInt = first.toInt + second.toInt := by
  rw [BitVec.toInt_add]
  exact Int.bmod_eq_of_le (by omega) (by omega)

/-- The pulses of an encoder and the updates it has sent, in look-up steps. -/
def Knob.total (cfg : Config) (i : Fin cfg.numberOfEncoders) (knob : Knob) : Int :=
  knob.net cfg * (cfg.encoderResolutions i).toNat + knob.pulses.toInt

/-- An encoder has turned one look-up step: it sends at most one update, which its value
and its accounts follow. -/
structure Turned (cfg : Config) (i : Fin cfg.numberOfEncoders) (earlier later : Knob)
    (step : Int) : Prop where
  accounts : later.total cfg i = earlier.total cfg i + step
  bounded : later.Bounded cfg i
  follows : later.value - BitVec.ofInt 8 (later.net cfg) =
    earlier.value - BitVec.ofInt 8 (earlier.net cfg)
  sends : ∃ sent, later.flags = earlier.flags ++ sent ∧ sent.length ≤ 1

theorem tmod_of_small {n resolution : Int} (low : -resolution < n) (high : n < resolution) :
    n.tmod resolution = n := by
  rcases Int.le_total 0 n with positive | negative
  · exact Int.tmod_eq_of_lt positive high
  · have flipped : (-n).tmod resolution = -n := Int.tmod_eq_of_lt (by omega) (by omega)
    rw [Int.neg_tmod] at flipped
    omega

theorem count_flags (cfg : Config) :
    [cfg.encoderCounterClockwise].count cfg.encoderCounterClockwise = 1 ∧
      [cfg.encoderCounterClockwise].count cfg.encoderClockwise = 0 ∧
      [cfg.encoderClockwise].count cfg.encoderCounterClockwise = 0 ∧
      [cfg.encoderClockwise].count cfg.encoderClockwise = 1 := by
  unfold Config.encoderCounterClockwise Config.encoderClockwise
  cases cfg.encoderDirectionFlip <;> decide

theorem Knob.read_turned (pads : Fin cfg.numberOfEncoders → Pads)
    (positive : 0 < (cfg.encoderResolutions i).toNat)
    (small : (cfg.encoderResolutions i).toNat ≤ 127) (bounded : knob.Bounded cfg i) {step : Int}
    (low : -1 ≤ step) (high : step ≤ 1)
    (steps : (encoderLUT ((knob.state <<< 2 ||| (pads i).bits).setWidth 4)).toInt = step) :
    Turned cfg i knob (knob.read cfg pads i) step := by
  obtain ⟨above, below⟩ := bounded
  set resolution : Int := ((cfg.encoderResolutions i).toNat : Int) with isResolution
  have pulses : (knob.pulses + encoderLUT ((knob.state <<< 2 ||| (pads i).bits).setWidth 4)).toInt =
      knob.pulses.toInt + step := by
    rw [add_toInt_of_small (by omega) (by omega), steps]
  obtain ⟨ccwUp, ccwDown, cwUp, cwDown⟩ := count_flags cfg
  have one : BitVec.ofInt 8 1 = 1 := by decide
  by_cases up : resolution ≤ knob.pulses.toInt + step
  · -- The counter reaches the resolution, and starts anew.
    have reached : knob.pulses.toInt + step = resolution := by omega
    have notDown : ¬resolution ≤ -resolution := by omega
    have sent : (knob.read cfg pads i).flags = knob.flags ++ [cfg.encoderCounterClockwise] := by
      simp only [Knob.read, pulses, ← isResolution, reached, le_refl, notDown, ↓reduceIte,
        List.append_nil]
    have reset : (knob.read cfg pads i).pulses.toInt = 0 := by
      simp only [Knob.read, pulses, ← isResolution, reached, Int.tmod_self]
      rfl
    have value : (knob.read cfg pads i).value = knob.value + 1 := by
      simp only [Knob.read, pulses, ← isResolution, reached, le_refl, notDown, ↓reduceIte]
      ring
    have net : (knob.read cfg pads i).net cfg = knob.net cfg + 1 := by
      rw [Knob.net, Knob.net, sent, List.count_append, List.count_append, ccwUp, ccwDown]
      omega
    refine ⟨?_, ?_, ?_, _, sent, le_refl 1⟩
    · rw [Knob.total, Knob.total, net, reset, ← isResolution, Int.add_mul]
      omega
    · rw [Knob.Bounded, reset]
      omega
    · rw [net, value, BitVec.ofInt_add, one]
      ring
  · by_cases down : knob.pulses.toInt + step ≤ -resolution
    · have reached : knob.pulses.toInt + step = -resolution := by omega
      have notUp : ¬resolution ≤ -resolution := by omega
      have sent : (knob.read cfg pads i).flags = knob.flags ++ [cfg.encoderClockwise] := by
        simp only [Knob.read, pulses, ← isResolution, reached, le_refl, notUp, ↓reduceIte,
          List.nil_append]
      have reset : (knob.read cfg pads i).pulses.toInt = 0 := by
        simp only [Knob.read, pulses, ← isResolution, reached, Int.neg_tmod, Int.tmod_self]
        rfl
      have value : (knob.read cfg pads i).value = knob.value - 1 := by
        simp only [Knob.read, pulses, ← isResolution, reached, le_refl, notUp, ↓reduceIte]
        ring
      have net : (knob.read cfg pads i).net cfg = knob.net cfg - 1 := by
        rw [Knob.net, Knob.net, sent, List.count_append, List.count_append, cwUp, cwDown]
        omega
      refine ⟨?_, ?_, ?_, _, sent, le_refl 1⟩
      · rw [Knob.total, Knob.total, net, reset, ← isResolution, Int.sub_mul]
        omega
      · rw [Knob.Bounded, reset]
        omega
      · have opposite : knob.net cfg - 1 = knob.net cfg + (-1) := rfl
        have minus : BitVec.ofInt 8 (-1) = -1 := by decide
        rw [net, value, opposite, BitVec.ofInt_add, minus]
        ring
    · have sent : (knob.read cfg pads i).flags = knob.flags ++ [] := by
        simp only [Knob.read, pulses, ← isResolution, up, down, ↓reduceIte, List.append_nil]
      have value : (knob.read cfg pads i).value = knob.value := by
        simp only [Knob.read, pulses, ← isResolution, up, down, ↓reduceIte]
        ring
      have kept : (knob.read cfg pads i).pulses.toInt = knob.pulses.toInt + step := by
        have reduced : (knob.read cfg pads i).pulses =
            BitVec.ofInt 8 ((knob.pulses.toInt + step).tmod resolution) := by
          simp only [Knob.read, pulses, ← isResolution]
        rw [reduced, tmod_of_small (by omega) (by omega), ofInt_toInt_of_small (by omega) (by omega)]
      have net : (knob.read cfg pads i).net cfg = knob.net cfg := by
        rw [Knob.net, Knob.net, sent, List.append_nil]
      refine ⟨?_, ?_, ?_, _, sent, Nat.zero_le 1⟩
      · rw [Knob.total, Knob.total, net, kept, Int.add_assoc]
      · rw [Knob.Bounded, kept]
        omega
      · rw [net, value]

/-- The last transition is what the state ends with. -/
theorem shifted_pads (earlier later : Pads) : ∀ state : Byte,
    state.setWidth 2 = earlier.bits.setWidth 2 →
    (state <<< 2 ||| later.bits).setWidth 4 = (earlier.bits <<< 2 ||| later.bits).setWidth 4 ∧
      (state <<< 2 ||| later.bits).setWidth 2 = later.bits.setWidth 2 := by
  obtain ⟨a, b⟩ := earlier
  obtain ⟨c, d⟩ := later
  revert a b c d
  decide +kernel

/-- What an encoder has turned along a path of its pads. -/
structure Accounts (cfg : Config) (i : Fin cfg.numberOfEncoders) (first : Pads) (path : List Pads)
    (knob : Knob) : Prop where
  latest : knob.state.setWidth 2 = ((first :: path).getLast (by simp)).bits.setWidth 2
  total : knob.total cfg i = travel first path
  bounded : knob.Bounded cfg i
  follows : knob.value = BitVec.ofInt 8 (knob.net cfg)

theorem Accounts.read {first : Pads} {path : List Pads} (accounts : Accounts cfg i first path knob)
    (positive : 0 < (cfg.encoderResolutions i).toNat)
    (small : (cfg.encoderResolutions i).toNat ≤ 127) (pads : Fin cfg.numberOfEncoders → Pads) :
    Accounts cfg i first (path ++ [pads i]) (knob.read cfg pads i) ∧
      ∃ sent, (knob.read cfg pads i).flags = knob.flags ++ sent ∧ sent.length ≤ 1 := by
  obtain ⟨transits, ends⟩ := shifted_pads _ (pads i) knob.state accounts.latest
  obtain ⟨low, high⟩ := transition_small ((first :: path).getLast (by simp)) (pads i)
  have turned := Knob.read_turned pads positive small accounts.bounded low high
    (congrArg (fun state => (encoderLUT state).toInt) transits)
  refine ⟨⟨?_, ?_, turned.bounded, ?_⟩, turned.sends⟩
  · have last : (first :: (path ++ [pads i])).getLast (by simp) = pads i := by
      simp [List.getLast_cons]
    rw [last]
    exact ends
  · rw [turned.accounts, accounts.total, travel_append_one]
  · have follows := turned.follows
    rw [accounts.follows, sub_self] at follows
    exact sub_eq_zero.mp follows

end Reading

section Runs

variable {cfg : Config}

/-- One encoder of the arrays. -/
def look (s : State cfg × Bool) (i : Fin cfg.numberOfEncoders) : Knob where
  state := s.1.encoderState i
  pulses := s.1.encoderPulses i
  value := s.1.encoderValue (i + cfg.thisHand)
  flags := (s.1.updates.filter (·.index = i + cfg.thisHand)).map (·.clockwise)

theorem count_filter_index (index : Nat) (clockwise : Bool) (updates : List Update) :
    ((updates.filter (·.index = index)).map (·.clockwise)).count clockwise =
      updates.count { index, clockwise } := by
  induction updates with
  | nil => rfl
  | cons update rest ih =>
    by_cases mine : update.index = index
    · by_cases same : update.clockwise = clockwise
      · have whole : update = { index, clockwise } := by rw [← mine, ← same]
        simp [List.count_cons, ih, whole]
      · have apart : update ≠ { index, clockwise } := fun equal => same (by rw [equal])
        simp [List.count_cons, ih, mine, same, apart]
    · have apart : update ≠ { index, clockwise } := fun equal => mine (by rw [equal])
      simp [List.count_cons, ih, mine, apart]

theorem look_total (s : State cfg) (changed : Bool) (i : Fin cfg.numberOfEncoders) :
    (look (s, changed) i).total cfg i = total s i := by
  rw [Knob.total, Knob.net, total, net, ← count_filter_index, ← count_filter_index]
  rfl

/-- Each round of the loop reads its own encoder, and no other. -/
theorem readEncoder_locally (noDefault : cfg.encoderDefaultPos = none)
    (pads : Fin cfg.numberOfEncoders → Pads) :
    Locally look (readEncoder pads) fun i knob => knob.read cfg pads i where
  here s i := by
    obtain ⟨pulses, isPulses⟩ : ∃ pulses, pulses = s.1.encoderPulses i +
        encoderLUT ((s.1.encoderState i <<< 2 ||| (pads i).bits).setWidth 4) := ⟨_, rfl⟩
    simp only [look, readEncoder, encoderUpdate, Knob.read, noDefault, Function.update_self,
      reduceCtorEq, ↓reduceIte, ← isPulses]
    by_cases up : ((cfg.encoderResolutions i).toNat : Int) ≤ pulses.toInt <;>
      by_cases down : pulses.toInt ≤ -((cfg.encoderResolutions i).toNat : Int) <;>
      simp [countUp, countDown, up, down]
  elsewhere s i other apart := by
    have places : i.val ≠ other.val := fun same => apart (Fin.ext same.symm)
    have indices : other.val + cfg.thisHand ≠ i.val + cfg.thisHand := by omega
    simp only [look, readEncoder, encoderUpdate, noDefault, reduceCtorEq, ↓reduceIte]
    split <;> split <;>
      simp [countUp, countDown, apart, Function.update_of_ne indices, places]

theorem look_encoderRead (noDefault : cfg.encoderDefaultPos = none) (s : State cfg)
    (pads : Fin cfg.numberOfEncoders → Pads) (i : Fin cfg.numberOfEncoders) :
    look (encoderRead s pads) i = (look (s, false) i).read cfg pads i :=
  (readEncoder_locally noDefault pads).foldl_here (List.nodup_finRange _) (List.mem_finRange i) _

/-- Every encoder keeps its accounts along a run of `encoder_read`. -/
theorem run_accounts (noDefault : cfg.encoderDefaultPos = none)
    (valid : ∀ i, 0 < (cfg.encoderResolutions i).toNat ∧ (cfg.encoderResolutions i).toNat ≤ 127)
    (start : Fin cfg.numberOfEncoders → Pads) (reads : List (Fin cfg.numberOfEncoders → Pads))
    (i : Fin cfg.numberOfEncoders) :
    Accounts cfg i (start i) (reads.map fun pads => pads i)
      (look (run (fun s pads => (encoderRead s pads).1) (encoderInit start) reads, false) i) := by
  induction reads using List.reverseRecOn with
  | nil =>
    refine ⟨rfl, ?_, ?_, rfl⟩
    · simp [Knob.total, Knob.net, look, encoderInit, travel]
    · have positive := (valid i).1
      have fresh : (look (run (fun s pads => (encoderRead s pads).1) (encoderInit start) [],
          false) i).pulses.toInt = 0 := rfl
      rw [Knob.Bounded, fresh]
      omega
  | append_singleton earlier pads ih =>
    have next := (ih.read (valid i).1 (valid i).2 pads).1
    rw [← look_encoderRead noDefault] at next
    rw [run_append, run_cons, run_nil, List.map_append]
    exact next

/-- The pads of one encoder at the end of a run. -/
theorem getLast_pads (start : Fin cfg.numberOfEncoders → Pads)
    (reads : List (Fin cfg.numberOfEncoders → Pads)) (i : Fin cfg.numberOfEncoders) :
    (start i :: reads.map fun pads => pads i).getLast (by simp) =
      (start :: reads).getLast (by simp) i := by
  induction reads generalizing start with
  | nil => rfl
  | cons next rest ih => simpa using ih next

theorem map_backwards {Place Seen : Type*} (f : Place → Seen) (first : Place) (path : List Place) :
    (backwards first path).map f = backwards (f first) (path.map f) := by
  rw [backwards, backwards, List.map_reverse, List.map_dropLast, List.map_cons]

/-- Whatever the pads do, the updates that an encoder has sent and its pulses add up to
the look-up steps of its transitions, its pulses stay below the resolution, its value
follows its updates, no reading sends two, and going back along any path undoes it. -/
theorem encoder_accounts (cfg : Config) (noDefault : cfg.encoderDefaultPos = none)
    (valid : ∀ i, 0 < (cfg.encoderResolutions i).toNat ∧ (cfg.encoderResolutions i).toNat ≤ 127)
    (start : Fin cfg.numberOfEncoders → Pads) (reads : List (Fin cfg.numberOfEncoders → Pads))
    (i : Fin cfg.numberOfEncoders) :
    let s := run (fun s pads => (encoderRead s pads).1) (encoderInit start) reads
    total s i = travel (start i) (reads.map fun pads => pads i) ∧
      |(s.encoderPulses i).toInt| < (cfg.encoderResolutions i).toNat ∧
      s.encoderValue (i + cfg.thisHand) = BitVec.ofInt 8 (net cfg s.updates (i + cfg.thisHand)) ∧
      (∀ pads, ((encoderRead s pads).1.updates.filter (·.index = i + cfg.thisHand)).length ≤
        (s.updates.filter (·.index = i + cfg.thisHand)).length + 1) ∧
      ∀ path, total (run (fun s pads => (encoderRead s pads).1) s
        (path ++ backwards ((start :: reads).getLast (by simp)) path)) i = total s i := by
  intro s
  have accounts : Accounts cfg i (start i) (reads.map fun pads => pads i) (look (s, false) i) :=
    run_accounts noDefault valid start reads i
  have travels := accounts.total
  rw [look_total] at travels
  refine ⟨travels, ?_, ?_, ?_, ?_⟩
  · exact abs_lt.mpr accounts.bounded
  · have follows := accounts.follows
    rw [Knob.net] at follows
    rw [net, ← count_filter_index, ← count_filter_index]
    exact follows
  · intro pads
    obtain ⟨-, sent, flags, few⟩ := accounts.read (valid i).1 (valid i).2 pads
    rw [← look_encoderRead noDefault] at flags
    have lengths := congrArg List.length flags
    simp only [look, List.length_map, List.length_append] at lengths
    rw [lengths]
    exact Nat.add_le_add_left few _
  · intro path
    have whole := (run_accounts noDefault valid start (reads ++ (path ++
      backwards ((start :: reads).getLast (by simp)) path)) i).total
    rw [look_total, run_append, List.map_append, List.map_append, map_backwards, travel_append,
      ← getLast_pads start reads i, travel_backwards, Int.add_zero, ← travels] at whole
    exact whole

set_option maxRecDepth 4000 in
/-- Two encoders: the second bounces back once on its way to a detent. -/
theorem bouncing_encoder_accounts :
    let cfg : Config := { numberOfEncoders := 2, encoderResolutions := ![127, 4] }
    let at' (a b : Bool) : Fin cfg.numberOfEncoders → Pads := fun _ => { a, b }
    let reads := [at' true false, at' true true, at' true false, at' true true, at' false true,
      at' false false]
    let s := run (fun s pads => (encoderRead s pads).1) (encoderInit (at' false false)) reads
    s.updates = [{ index := 1, clockwise := true }] ∧ total s 1 = -4 ∧
      total s 1 = travel { a := false, b := false } (reads.map fun pads => pads 1) ∧
      ∀ path, total (run (fun s pads => (encoderRead s pads).1) s
        (path ++ backwards (at' false false) path)) 1 = total s 1 := by
  intro cfg at' reads s
  obtain ⟨travels, -, -, -, returns⟩ :=
    encoder_accounts cfg rfl (by decide) (at' false false) reads 1
  exact ⟨by decide, by decide, travels, returns⟩

end Runs

end QmkSonix.Encoder
