import QmkSonix.TapDance.Counts

/-! Taps of one key along runs of the firmware: how often its dance is finished, and with
which count. -/

namespace QmkSonix.TapDance

open Lib

variable {World : Type*} {host : Host World} {terms : Terms} {s after : State World}
  {a i t : Nat} {base : List (BitVec 8)} {held : Nat → Prop} {events : List Event}

/-! ### Runs that end -/

/-- What the firmware makes of a list of events, if it ever ends. -/
def runs (host : Host World) (terms : Terms) (s : State World) (events : List Event) :
    Option (State World) :=
  events.foldlM (exec host terms) s

/-- `highest_td` behind an event. -/
def highestAfter (highest : Option Nat) : Event → Option Nat
  | .task _ => highest
  | .key _ keycode _ =>
    match danceOf keycode with
    | none => highest
    | some index => raise highest index

/-- No call of `tap_dance_task` comes behind an event of dance 255. -/
def Returns : Option Nat → List Event → Prop
  | _, [] => True
  | highest, .task now :: rest => highest ≠ some 255 ∧ Returns (highestAfter highest (.task now)) rest
  | highest, .key now keycode pressed :: rest =>
    Returns (highestAfter highest (.key now keycode pressed)) rest

instance Returns.decidable (highest : Option Nat) (events : List Event) :
    Decidable (Returns highest events) :=
  match events with
  | [] => isTrue trivial
  | .task now :: rest =>
    have := Returns.decidable (highestAfter highest (.task now)) rest
    inferInstanceAs (Decidable (_ ∧ _))
  | .key now keycode pressed :: rest =>
    Returns.decidable (highestAfter highest (.key now keycode pressed)) rest

theorem interrupted_highestTd (keycode : BitVec 16) (s : State World) :
    (interrupted host keycode s).highestTd = s.highestTd :=
  List.foldlRecOn (motive := fun now => now.highestTd = s.highestTd) s.used _ rfl
    fun now same place _ => (interruptDance_visited host keycode now place).highestTd.trans same

theorem step_highestTd (s : State World) (event : Event) :
    (step host terms s event).highestTd = highestAfter s.highestTd event := by
  cases event with
  | task now =>
    exact List.foldlRecOn (motive := fun after => after.highestTd = s.highestTd) s.used _ rfl
      fun now same place _ => (expireDance_visited host terms _ now place).highestTd.trans same
  | key now keycode pressed =>
    cases pressed with
    | false =>
      rw [step_release, highestAfter]
      cases danceOf keycode with
      | none => rfl
      | some index => exact (releaseDance_effect host _ index).2.2.1
    | true =>
      rw [step_press, highestAfter]
      cases danceOf keycode with
      | none => exact interrupted_highestTd keycode s
      | some index =>
        dsimp only
        rw [(tapDance_effect host _ index keycode _).2.2.2.2, interrupted_highestTd]

/-- The firmware hangs in `tap_dance_task` or takes every step. -/
theorem runs_eq_some_iff (s : State World) (events : List Event) :
    runs host terms s events = some after ↔
      Returns s.highestTd events ∧ after = run (step host terms) s events := by
  induction events generalizing s with
  | nil => simp [runs, Returns, eq_comm]
  | cons event rest ih =>
    have next : runs host terms s (event :: rest) =
        (exec host terms s event).bind fun now => runs host terms now rest := rfl
    have ih := ih (step host terms s event)
    rw [step_highestTd] at ih
    rw [next, run_cons]
    cases event with
    | key now keycode pressed =>
      exact ih
    | task now =>
      unfold Returns
      by_cases hangs : s.highestTd = some 255
      · have stuck : exec host terms s (.task now) = none := if_pos hangs
        rw [stuck, hangs]
        simp
      · have moves : exec host terms s (.task now) = some (step host terms s (.task now)) :=
          if_neg hangs
        rw [moves, and_assoc]
        exact ih.trans (and_iff_right hangs).symm

/-! ### What runs keep -/

theorem Tidy.step (tidy : Tidy s) (event : Event) : Tidy (step host terms s event) := by
  cases event with
  | task now =>
    exact List.foldlRecOn (motive := Tidy) s.used _ tidy
      fun now tidy place _ => tidy.visited (expireDance_visited host terms _ now place)
  | key now keycode pressed =>
    cases pressed with
    | false => exact tidy.release now keycode
    | true =>
      have looped : Tidy (interrupted host keycode s) :=
        List.foldlRecOn (motive := Tidy) s.used _ tidy
          fun now tidy place _ => tidy.visited (interruptDance_visited host keycode now place)
      rw [step_press]
      cases found : danceOf keycode with
      | none => exact looped
      | some index =>
        obtain ⟨inside, rfl⟩ := eq_td_of_danceOf found
        exact looped.tapDance inside _

theorem Tidy.run_tidy (tidy : Tidy s) (events : List Event) :
    Tidy (Lib.run (TapDance.step host terms) s events) :=
  run_keeps Tidy (fun _ event tidy => tidy.step event) tidy events

theorem tidy_start (world : World) : Tidy ({ world := world } : State World) :=
  fun _ counts => absurd rfl counts

theorem Visited.finishes {index : Nat} (visited : Visited index s after) :
    s.finishes <+: after.finishes := by
  rcases visited with rfl | ⟨marked, ended⟩
  · exact List.prefix_rfl
  · rw [ended.finishes]
    split
    · exact List.prefix_rfl
    · exact List.prefix_append _ _

theorem foldl_finishes {visit : State World → Nat → State World}
    (visits : ∀ s index, Visited index s (visit s index)) (places : List Nat) :
    s.finishes <+: (places.foldl visit s).finishes :=
  List.foldlRecOn (motive := fun now => s.finishes <+: now.finishes) places visit List.prefix_rfl
    fun now grown place _ => grown.trans (visits now place).finishes

theorem step_finishes (s : State World) (event : Event) :
    s.finishes <+: (step host terms s event).finishes := by
  cases event with
  | task now => exact foldl_finishes (expireDance_visited host terms _) s.used
  | key now keycode pressed =>
    cases pressed with
    | false =>
      rw [step_release]
      cases danceOf keycode with
      | none => exact List.prefix_rfl
      | some index =>
        dsimp only
        rw [(releaseDance_effect host _ index).2.1]
    | true =>
      have looped : s.finishes <+: (interrupted host keycode s).finishes :=
        foldl_finishes (interruptDance_visited host keycode) s.used
      rw [step_press]
      cases danceOf keycode with
      | none => exact looped
      | some index =>
        dsimp only
        rw [(tapDance_effect host _ index keycode _).2.2.2.1]
        exact looped

/-- A dance's calls are never taken back. -/
theorem run_calls (s : State World) (events : List Event) (index : Nat) :
    s.calls index <+: (run (step host terms) s events).calls index := by
  have keeps (now : State World) (event : Event) (grown : s.finishes <+: now.finishes) :
      s.finishes <+: (step host terms now event).finishes :=
    grown.trans (step_finishes now event)
  have grown := run_keeps (fun now : State World => s.finishes <+: now.finishes) keeps List.prefix_rfl events
  exact (grown.filter _).map _

/-! ### Taps -/

/-- The time of a press of a dance's key. -/
def Event.tap (a : Nat) : Event → Option Nat
  | .key now keycode true => if keycode = td a then some now else none
  | _ => none

def tapTimes (a : Nat) (events : List Event) : List Nat :=
  events.filterMap (Event.tap a)

/-- Taps of one key, from the first to the last, with no press of another key between
them, each less than the term behind the one before. -/
structure Taps (a term : Nat) (events : List Event) : Prop where
  starts : ∃ now, events.head? = some (.key now (td a) true)
  ends : ∃ now, events.getLast? = some (.key now (td a) true)
  alone : ∀ now keycode, .key now keycode true ∈ events → keycode = td a
  ordered : (events.map Event.now).Pairwise (· ≤ ·)
  close : (tapTimes a events).IsChain fun earlier later => later < earlier + term

/-- What follows a tap at `t`, event by event. -/
def Continues (a term : Nat) : Nat → List Event → Prop
  | _, [] => True
  | _, .key now keycode true :: rest => keycode = td a ∧ Continues a term now rest
  | t, .key _ _ false :: rest => Continues a term t rest
  | t, .task now :: rest => (t ≤ now ∧ now < t + term) ∧ Continues a term t rest

theorem tapTimes_press (a now : Nat) (rest : List Event) :
    tapTimes a (.key now (td a) true :: rest) = now :: tapTimes a rest := by
  simp [tapTimes, Event.tap]

theorem tapTimes_release (a now : Nat) (keycode : BitVec 16) (rest : List Event) :
    tapTimes a (.key now keycode false :: rest) = tapTimes a rest := rfl

theorem tapTimes_task (a now : Nat) (rest : List Event) :
    tapTimes a (.task now :: rest) = tapTimes a rest := rfl

/-- A list that is empty or ends in a tap. -/
def EndsInTap (a : Nat) (events : List Event) : Prop :=
  ∀ event ∈ events.getLast?, (event.tap a).isSome

theorem EndsInTap.tail {event : Event} (ends : EndsInTap a (event :: events)) :
    EndsInTap a events := by
  intro last member
  cases events with
  | nil => cases member
  | cons next rest => exact ends last (by rwa [List.getLast?_cons_cons])

theorem EndsInTap.tapTimes_ne_nil {event : Event} (ends : EndsInTap a (event :: events))
    (other : event.tap a = none) : tapTimes a events ≠ [] := by
  intro none
  cases last : events.getLast? with
  | none =>
    rw [List.getLast?_eq_none_iff] at last
    subst last
    have tap := ends event rfl
    rw [other] at tap
    cases tap
  | some found =>
    have tap := ends.tail found last
    have member : found ∈ events := List.mem_of_getLast? last
    rw [List.filterMap_eq_nil_iff.mp none found member] at tap
    cases tap

/-- Events in order, with the taps close to each other, keep the dance alive. -/
theorem continues_of_close {term : Nat} (ends : EndsInTap a events)
    (alone : ∀ now keycode, .key now keycode true ∈ events → keycode = td a)
    (ordered : (events.map Event.now).Pairwise (· ≤ ·))
    (later : ∀ event ∈ events, t ≤ event.now)
    (close : (t :: tapTimes a events).IsChain fun earlier later => later < earlier + term) :
    Continues a term t events := by
  induction events generalizing t with
  | nil => trivial
  | cons event rest ih =>
    have lone : ∀ now keycode, .key now keycode true ∈ rest → keycode = td a :=
      fun now keycode member => alone now keycode (List.mem_cons_of_mem event member)
    rw [List.map_cons, List.pairwise_cons] at ordered
    have beyond : ∀ other ∈ rest, event.now ≤ other.now :=
      fun other member => ordered.1 other.now (List.mem_map_of_mem member)
    have behind : ∀ other ∈ rest, t ≤ other.now :=
      fun other member => later other (List.mem_cons_of_mem event member)
    cases event with
    | key now keycode pressed =>
      cases pressed with
      | false => exact ih ends.tail lone ordered.2 behind close
      | true =>
        obtain rfl := alone now keycode List.mem_cons_self
        rw [tapTimes_press, List.isChain_cons_cons] at close
        exact ⟨rfl, ih ends.tail lone ordered.2 beyond close.2⟩
    | task now =>
      refine ⟨⟨later _ List.mem_cons_self, ?_⟩, ih ends.tail lone ordered.2 behind close⟩
      rw [tapTimes_task] at close
      cases taps : tapTimes a rest with
      | nil => exact absurd taps (ends.tapTimes_ne_nil rfl)
      | cons next others =>
        rw [taps, List.isChain_cons_cons] at close
        have member : next ∈ tapTimes a rest := taps ▸ List.mem_cons_self
        obtain ⟨event, within, tap⟩ := List.mem_filterMap.mp member
        have time : event.now = next := by
          unfold Event.tap at tap
          split at tap
          · split at tap
            · exact Option.some.inj tap
            · cases tap
          · cases tap
        have order : now ≤ event.now := beyond event within
        omega

theorem Taps.first {term : Nat} (taps : Taps a term events) :
    ∃ now rest, events = .key now (td a) true :: rest ∧ EndsInTap a rest ∧
      Continues a term now rest := by
  obtain ⟨now, starts⟩ := taps.starts
  cases events with
  | nil => cases starts
  | cons event rest =>
    obtain rfl := Option.some.inj starts
    have ends : EndsInTap a (.key now (td a) true :: rest) := by
      obtain ⟨later, last⟩ := taps.ends
      rintro event member
      rw [last] at member
      obtain rfl := Option.some.inj member
      simp [Event.tap]
    have ordered := taps.ordered
    rw [List.map_cons, List.pairwise_cons] at ordered
    have close := taps.close
    rw [tapTimes_press] at close
    exact ⟨now, rest, rfl, ends.tail, continues_of_close ends.tail
      (fun later keycode member => taps.alone later keycode (List.mem_cons_of_mem _ member))
      ordered.2 (fun other member => ordered.1 other.now (List.mem_map_of_mem member)) close⟩

/-! ### From tap to tap -/

section Terms

variable {term : Nat}

/-- A task call between two taps comes before the term of the first is over. -/
theorem early_of_within {now : Nat} (within : t ≤ now ∧ now < t + (terms.term a (td a)).toNat) :
    ¬terms.term a (td a) < BitVec.ofNat 16 now - BitVec.ofNat 16 t := by
  have small := (terms.term a (td a)).isLt
  rw [BitVec.lt_def, toNat_elapsed within.1 (by omega)]
  omega

/-- A held dance is not released. -/
def Spares (held : Nat → Prop) (a : Nat) (events : List Event) : Prop :=
  ∀ now keycode, .key now keycode false ∈ events → ∀ b ≠ a, danceOf keycode = some b → ¬held b

/-- Every tap that continues a dance is counted while the held dances stay held. -/
theorem Dancing.run_counts (dancing : Dancing a i t base held s) (inside : a < 256)
    (quiet : ∀ dance world, (host.onEachTap a dance world).2 = false)
    (continues : Continues a (terms.term a (td a)).toNat t events)
    (spares : Spares held a events) :
    Dancing a (i + (tapTimes a events).length) ((tapTimes a events).getLastD t) base held
      (run (step host terms) s events) := by
  induction events generalizing s i t with
  | nil => exact dancing
  | cons event rest ih =>
    have spared : Spares held a rest := fun now keycode member =>
      spares now keycode (List.mem_cons_of_mem event member)
    rw [run_cons]
    cases event with
    | key now keycode pressed =>
      cases pressed with
      | true =>
        obtain ⟨rfl, continues⟩ := continues
        have tapped : Dancing a (i + 1) now base held (step host terms s (.key now (td a) true)) :=
          dancing.tap inside quiet now
        have counted := ih tapped continues spared
        rw [tapTimes_press, List.length_cons, List.getLastD_cons]
        rwa [Nat.add_right_comm, Nat.add_assoc] at counted
      | false =>
        rcases dancing.release host terms now keycode with
          ⟨-, kept⟩ | ⟨⟨b, other, found, waits⟩, -⟩
        · exact ih kept continues spared
        · exact absurd waits (spares now keycode List.mem_cons_self b other found)
    | task now => exact ih (dancing.task_early (early_of_within continues.1)) continues.2 spared

/-- The next tap of a key that is not the last one any more ends its dance. -/
theorem Tapped.run_lost (tapped : Tapped a i t base s) (lost : s.lastTd = 0)
    (counts : BitVec.ofNat 8 i ≠ 0) (inside : a < 256)
    (continues : Continues a (terms.term a (td a)).toNat t events)
    (more : tapTimes a events ≠ []) :
    base ++ [BitVec.ofNat 8 i] <+: (run (step host terms) s events).calls a := by
  induction events generalizing s with
  | nil => exact absurd rfl more
  | cons event rest ih =>
    rw [run_cons]
    cases event with
    | key now keycode pressed =>
      cases pressed with
      | true =>
        obtain ⟨rfl, -⟩ := continues
        rw [← tapped.tap_lost counts lost inside now]
        exact run_calls _ rest a
      | false =>
        obtain ⟨still, last⟩ := tapped.release host terms now keycode
        have gone : (step host terms s (.key now keycode false)).lastTd = 0 := by
          rcases last with same | zero
          · exact same.trans lost
          · exact zero
        exact ih still gone continues more
    | task now =>
      exact ih (tapped.task_early (early_of_within continues.1))
        (foldl_lastTd (expireDance_visited host terms _) lost s.used) continues.2 more

/-- The release of a held dance ends the one that is being tapped at its next tap. -/
theorem Dancing.run_split (dancing : Dancing a i t base held s) (inside : a < 256)
    (quiet : ∀ dance world, (host.onEachTap a dance world).2 = false) (begun : 0 < i)
    (small : i + (tapTimes a events).length < 256)
    (continues : Continues a (terms.term a (td a)).toNat t events) (ends : EndsInTap a events)
    (harmed : ¬Spares held a events) :
    ∃ count < i + (tapTimes a events).length,
      base ++ [BitVec.ofNat 8 count] <+: (run (step host terms) s events).calls a := by
  induction events generalizing s i t with
  | nil => exact absurd (fun _ _ member => absurd member List.not_mem_nil) harmed
  | cons event rest ih =>
    rw [run_cons]
    cases event with
    | key now keycode pressed =>
      cases pressed with
      | true =>
        obtain ⟨rfl, continues⟩ := continues
        rw [tapTimes_press, List.length_cons] at small ⊢
        obtain ⟨count, fewer, calls⟩ := ih (dancing.tap inside quiet now) i.succ_pos (by omega)
          continues ends.tail fun spares => harmed fun later released member => by
            rcases List.mem_cons.mp member with same | within
            · cases same
            · exact spares later released within
        exact ⟨count, by omega, calls⟩
      | false =>
        rw [tapTimes_release] at small ⊢
        rcases dancing.release host terms now keycode with
          ⟨spared, kept⟩ | ⟨-, tapped, lost⟩
        · refine ih kept begun small continues ends.tail fun spares => harmed ?_
          intro later released member
          rcases List.mem_cons.mp member with same | within
          · cases same
            exact spared
          · exact spares later released within
        · have more := ends.tapTimes_ne_nil rfl
          have counts : BitVec.ofNat 8 i ≠ 0 := by
            intro zero
            have value := congrArg BitVec.toNat zero
            rw [BitVec.toNat_ofNat] at value
            simp at value
            omega
          refine ⟨i, ?_, tapped.run_lost lost counts inside continues more⟩
          have some := List.length_pos_iff.mpr more
          omega
    | task now =>
      rw [tapTimes_task] at small ⊢
      refine ih (dancing.task_early (early_of_within continues.1)) begun small continues.2 ends.tail
        fun spares => harmed fun later released member => ?_
      rcases List.mem_cons.mp member with same | within
      · cases same
      · exact spares later released within

end Terms

/-! ### The end of the dance -/

/-- A press of another key, or a call of `tap_dance_task` when the term is over. -/
def Ends (terms : Terms) (a last : Nat) : Event → Prop
  | .key _ keycode pressed => keycode ≠ td a ∧ pressed = true
  | .task now => terms.term a (td a) < BitVec.ofNat 16 now - BitVec.ofNat 16 last

instance Ends.decidable (terms : Terms) (a last : Nat) : DecidablePred (Ends terms a last)
  | .key _ _ _ => inferInstanceAs (Decidable (_ ∧ _))
  | .task _ => inferInstanceAs (Decidable (_ < _))

theorem Over.run_rests {calls : List (BitVec 8)} (gone : Over a calls s)
    (behind : ∀ event ∈ events, event.tap a = none) :
    Over a calls (run (step host terms) s events) := by
  refine run_invariant (fun s event gone other => ?_) gone (along_of_mem behind s)
  cases event with
  | task now => exact gone.task now
  | key now keycode pressed =>
    cases pressed with
    | false => exact gone.release now keycode
    | true =>
      refine gone.press now fun same => ?_
      simp [Event.tap, same] at other

/-- A dance that nobody taps any more calls once, with its count. -/
theorem Tapped.run_ends (tapped : Tapped a i t base s) (counts : BitVec.ofNat 8 i ≠ 0)
    (behind : ∀ event ∈ events, event.tap a = none) (ends : ∃ event ∈ events, Ends terms a t event) :
    (run (step host terms) s events).calls a = base ++ [BitVec.ofNat 8 i] := by
  induction events generalizing s with
  | nil =>
    obtain ⟨event, member, -⟩ := ends
    cases member
  | cons event rest ih =>
    have later : ∀ event ∈ rest, event.tap a = none := fun other member =>
      behind other (List.mem_cons_of_mem event member)
    have finish (gone : Over a (base ++ [BitVec.ofNat 8 i]) (step host terms s event)) :
        (run (step host terms) s (event :: rest)).calls a = base ++ [BitVec.ofNat 8 i] :=
      (gone.run_rests later).calls
    have still (tapped : Tapped a i t base (step host terms s event)) (goes : ¬Ends terms a t event) :
        (run (step host terms) s (event :: rest)).calls a = base ++ [BitVec.ofNat 8 i] := by
      refine ih tapped later ?_
      obtain ⟨ender, member, ends⟩ := ends
      rcases List.mem_cons.mp member with rfl | within
      · exact absurd ends goes
      · exact ⟨ender, within, ends⟩
    cases event with
    | key now keycode pressed =>
      cases pressed with
      | true =>
        refine finish (tapped.press_other counts now fun same => ?_)
        have other := behind _ List.mem_cons_self
        simp [Event.tap, same] at other
      | false => exact still (tapped.release host terms now keycode).1 fun ends => by cases ends.2
    | task now =>
      by_cases late : terms.term a (td a) < BitVec.ofNat 16 now - BitVec.ofNat 16 t
      · exact finish (tapped.task_late counts late)
      · exact still (tapped.task_early late) late

/-! ### The count of a dance -/

theorem snoc_toNat_inj {calls more : List (BitVec 8)} {value : BitVec 8} {count : Nat}
    (grown : calls ++ [value] <+: more)
    (same : more.map BitVec.toNat = calls.map BitVec.toNat ++ [count]) : value.toNat = count := by
  have mapped := grown.map BitVec.toNat
  rw [same, List.map_append] at mapped
  simpa using mapped

/-- The dance of a key that is tapped from rest, and then left to end, finishes once with
the number of the taps exactly if that number fits the counter, every call of
`tap_dance_task` returns, and no other dance's key that was held before the first tap, and
whose dance that tap has interrupted, is released before the last one. -/
theorem dance_counts_iff (host : Host World) (terms : Terms) {world : World} (inside : a < 256)
    (quiet : ∀ dance world, (host.onEachTap a dance world).2 = false)
    {history : List Event} (reached : runs host terms { world := world } history = some s)
    (rests : (s.dances a).count = 0) (unfinished : (s.dances a).finished = false)
    {taps : List Event} (tapped : Taps a (terms.term a (td a)).toNat taps)
    {tail : List Event} (behind : ∀ event ∈ tail, event.tap a = none)
    (ends : ∃ last event, (tapTimes a taps).getLast? = some last ∧ event ∈ tail ∧
      Ends terms a last event) :
    (∃ after, runs host terms s (taps ++ tail) = some after ∧
        (after.calls a).map BitVec.toNat =
          (s.calls a).map BitVec.toNat ++ [(tapTimes a taps).length]) ↔
      (tapTimes a taps).length < 256 ∧ Returns s.highestTd (taps ++ tail) ∧
        Spares (fun b => (s.dances b).count ≠ 0 ∧ (s.dances b).pressed = true) a taps := by
  have tidy : Tidy s := by
    obtain ⟨-, rfl⟩ := (runs_eq_some_iff _ history).mp reached
    exact (tidy_start world).run_tidy history
  obtain ⟨last, event, lastTap, member, ender⟩ := ends
  obtain ⟨now, rest, rfl, endsInTap, continues⟩ := tapped.first
  have spares_iff (held : Nat → Prop) :
      Spares held a (.key now (td a) true :: rest) ↔ Spares held a rest := by
    constructor
    · exact fun spares later keycode within =>
        spares later keycode (List.mem_cons_of_mem _ within)
    · intro spares later keycode within
      rcases List.mem_cons.mp within with same | within
      · cases same
      · exact spares later keycode within
  have first : Dancing a 1 now (s.calls a)
      (fun b => (s.dances b).count ≠ 0 ∧ (s.dances b).pressed = true)
      (step host terms s (.key now (td a) true)) :=
    tidy.first_tap inside quiet rests unfinished now
  rw [tapTimes_press] at lastTap ⊢
  rw [List.length_cons, spares_iff, Nat.add_comm]
  constructor
  · rintro ⟨after, run_eq, calls⟩
    obtain ⟨returns, rfl⟩ := (runs_eq_some_iff s _).mp run_eq
    have small : 1 + (tapTimes a rest).length < 256 := by
      have value : 1 + (tapTimes a rest).length ∈
          ((run (step host terms) s (.key now (td a) true :: rest ++ tail)).calls a).map
            BitVec.toNat := by
        rw [calls]
        simp
      obtain ⟨count, -, same⟩ := List.mem_map.mp value
      rw [← same]
      exact count.isLt
    refine ⟨small, returns, ?_⟩
    by_contra harmed
    obtain ⟨count, fewer, split⟩ :=
      first.run_split inside quiet Nat.one_pos small continues endsInTap harmed
    rw [List.cons_append, run_cons, run_append] at calls
    have count_eq := snoc_toNat_inj (split.trans (run_calls _ tail a)) calls
    rw [BitVec.toNat_ofNat, Nat.mod_eq_of_lt (by omega)] at count_eq
    omega
  · rintro ⟨small, returns, spares⟩
    refine ⟨_, (runs_eq_some_iff s _).mpr ⟨returns, rfl⟩, ?_⟩
    have counted := first.run_counts inside quiet continues spares
    have time : (tapTimes a rest).getLastD now = last := by
      rw [List.getLast?_cons] at lastTap
      rw [List.getLastD_eq_getLast?]
      exact Option.some.inj lastTap
    rw [time] at counted
    have counts : BitVec.ofNat 8 (1 + (tapTimes a rest).length) ≠ 0 := by
      intro zero
      have value := congrArg BitVec.toNat zero
      rw [BitVec.toNat_ofNat, Nat.mod_eq_of_lt (by omega)] at value
      simp at value
    rw [List.cons_append, run_cons, run_append,
      counted.toTapped.run_ends counts behind ⟨event, member, ender⟩, List.map_append,
      List.map_singleton, BitVec.toNat_ofNat, Nat.mod_eq_of_lt (by omega)]

/-! ### A dance that is tapped while another one is held -/

/-- Dances that do nothing. -/
def silent : Host Unit where
  getOneshotMods _ := 0
  getMods _ := 0
  getWeakMods _ := 0
  addMods _ _ := ()
  delMods _ _ := ()
  addWeakMods _ _ := ()
  delWeakMods _ _ := ()
  clearWeakMods _ := ()
  sendKeyboardReport _ := ()
  onEachTap _ _ _ := ((), false)
  onDanceFinished _ _ _ := ()
  onReset _ _ _ := ()

/-- A key of dance 1 goes down, and stays down. -/
def holding : State Unit :=
  step silent {} { world := () } (.key 0 (td 1) true)

/-- Two taps of dance 0, with one more event between them. -/
def twoTaps (between : Event) : List Event :=
  [.key 100 (td 0) true, .key 120 (td 0) false, between, .key 200 (td 0) true]

theorem twoTaps_taps (between : Event) (inside : 120 ≤ between.now ∧ between.now ≤ 200)
    (other : ∀ now keycode, between ≠ .key now keycode true) : Taps 0 200 (twoTaps between) := by
  have skips : between.tap 0 = none := by
    cases between with
    | task now => rfl
    | key now keycode pressed =>
      cases pressed with
      | false => rfl
      | true => exact absurd rfl (other now keycode)
  refine ⟨⟨100, rfl⟩, ⟨200, rfl⟩, ?_, ?_, ?_⟩
  · intro now keycode member
    simp only [twoTaps, List.mem_cons, List.not_mem_nil, or_false] at member
    rcases member with same | same | same | same
    · exact (Event.key.inj same).2.1
    · cases same
    · exact absurd same.symm (other now keycode)
    · exact (Event.key.inj same).2.1
  · have times : (twoTaps between).map Event.now = [100, 120, between.now, 200] := rfl
    rw [times]
    simp
    omega
  · have times : tapTimes 0 (twoTaps between) = [100, 200] := by
      rw [twoTaps, tapTimes_press, tapTimes_release]
      exact congrArg (100 :: ·) (List.filterMap_cons_none skips)
    rw [times]
    simp

theorem two_taps_counted :
    ∃ after, runs silent {} holding (twoTaps (.task 150) ++ [.task 401]) = some after ∧
      (after.calls 0).map BitVec.toNat = (holding.calls 0).map BitVec.toNat ++ [2] := by
  have spares : Spares (fun b => (holding.dances b).count ≠ 0 ∧ (holding.dances b).pressed = true)
      0 (twoTaps (.task 150)) := by
    intro now keycode member b other found
    simp only [twoTaps, List.mem_cons, List.not_mem_nil, or_false] at member
    rcases member with same | same | same | same <;> cases same
    exact absurd (Option.some.inj found).symm other
  exact (dance_counts_iff silent {} (by decide : 0 < 256) (fun _ _ => rfl)
    (rfl : runs silent {} { world := () } [.key 0 (td 1) true] = some holding) rfl rfl
    (twoTaps_taps (.task 150) ⟨by decide, by decide⟩ (fun _ _ same => by cases same))
    (by decide) ⟨200, .task 401, by decide, by decide, by decide⟩).mpr
    ⟨by decide, by decide, spares⟩

/-- The release of dance 1 between the two taps resets `last_td`, and the second tap
counts as the interruption of the first. -/
theorem release_splits_dance :
    Taps 0 200 (twoTaps (.key 150 (td 1) false)) ∧
      (runs silent {} { world := () }
        (.key 0 (td 1) true :: twoTaps (.key 150 (td 1) false) ++
          [.key 210 (td 0) false, .task 401])).map (·.calls 0) =
        some [1, 1] :=
  ⟨twoTaps_taps _ ⟨by decide, by decide⟩ (fun _ _ same => by cases same), by decide⟩

end QmkSonix.TapDance
