import QmkSonix.RgbMatrix.Model

/-! The hit tracker against all hits there have been, each with its true age. -/

namespace QmkSonix.RgbMatrix

open QmkSonix.Lib

variable {cfg : Config} {Scratch : Type*} (fx : Effects cfg Scratch)

section History

/-- A hit, and the time that the tasks have seen pass since. -/
structure AgedHit where
  x : Byte
  y : Byte
  index : Byte
  age : ℕ
  deriving DecidableEq, Repr

/-- The hit as an entry of the tracker -/
def AgedHit.entry (hit : AgedHit) : Hit :=
  { x := hit.x, y := hit.y, index := hit.index, tick := BitVec.ofNat 16 hit.age }

def AgedHit.older (time : ℕ) (hit : AgedHit) : AgedHit := { hit with age := hit.age + time }

/-- A hit that a tick can still tell the age of -/
def AgedHit.fresh (hit : AgedHit) : Bool := hit.age ≤ 65535

theorem AgedHit.fresh_iff (hit : AgedHit) : hit.fresh = true ↔ hit.age ≤ 65535 :=
  decide_eq_true_iff

/-- All hits so far, oldest first, and the time of the last reading -/
structure History where
  buffer : BitVec 32 := 0
  hits : List AgedHit := []

/-- The hits of a key event -/
def hitsOf (cfg : Config) (row column : ℕ) (pressed : Bool) : List AgedHit :=
  (newHits cfg row column pressed).map fun hit =>
    { x := hit.x, y := hit.y, index := hit.index, age := 0 }

def History.step (cfg : Config) (history : History) : Event → History
  | .key row column pressed master =>
    if cfg.split || master then
      { history with hits := history.hits ++ hitsOf cfg row column pressed }
    else history
  | .task reads =>
    { buffer := reads.buffer
      hits := history.hits.map (AgedHit.older (reads.elapsed - history.buffer).toNat) }
  | _ => history

/-- The latest hits that are no older than a tick can tell, oldest first -/
def History.latest (cfg : Config) (history : History) : List AgedHit :=
  recent cfg.hitsToRemember (history.hits.filter AgedHit.fresh)

/-- The tracker holds the latest hits, and no more than it has room for. -/
structure Tracks (state : State cfg Scratch) (history : History) : Prop where
  room : state.lastHitBuffer.count ≤ cfg.hitsToRemember
  hits : state.lastHitBuffer.hits = (history.latest cfg).map AgedHit.entry

/-- A step that the tracker is written for. A key event finds room for its LEDs, or a full
tracker. A task finds the tracker empty, or comes before a tick can wrap and finds that none
or all of the hits get too old. -/
def Handled (state : State cfg Scratch) : Event → Prop
  | .key row column pressed master =>
    (cfg.split || master) = true →
      state.lastHitBuffer.count + (newHits cfg row column pressed).length ≤ cfg.hitsToRemember ∨
      state.lastHitBuffer.count = cfg.hitsToRemember
  | .task reads =>
    let deltaTime := (reads.elapsed - state.timerBuffer).toNat
    state.lastHitBuffer.count = 0 ∨ deltaTime ≤ 65535 ∧
      ((∀ hit ∈ state.lastHitBuffer.hits, hit.tick.toNat + deltaTime ≤ 65535) ∨
        ∀ hit ∈ state.lastHitBuffer.hits, 65535 < hit.tick.toNat + deltaTime)
  | _ => True

instance (state : State cfg Scratch) (event : Event) : Decidable (Handled state event) :=
  match event with
  | .key _ _ _ _ => inferInstanceAs (Decidable (_ = true → _ ∨ _))
  | .task _ => inferInstanceAs (Decidable (_ ∨ _ ∧ _))
  | .toggle | .enable | .disable | .mode _ | .step | .stepReverse | .flags _ => isTrue trivial

end History

section Keys

/-- Nothing is stored without reactive effects. -/
theorem newHits_eq_nil (untracked : cfg.reactive.isSome = false) (row column : ℕ)
    (pressed : Bool) : newHits cfg row column pressed = [] := by
  rw [Option.isSome_eq_false_iff, Option.isNone_iff_eq_none] at untracked
  simp [newHits, untracked]

theorem length_newHits_le {row column : ℕ}
    (fits : (mapRowColumnToLed cfg row column).length ≤ cfg.hitsToRemember) (pressed : Bool) :
    (newHits cfg row column pressed).length ≤ cfg.hitsToRemember := by
  unfold newHits
  dsimp only
  rw [List.length_map]
  split
  · exact Nat.zero_le _
  · split
    · exact fits
    · exact Nat.zero_le _
  · split
    · exact fits
    · exact Nat.zero_le _

theorem entry_hitsOf (row column : ℕ) (pressed : Bool) :
    (hitsOf cfg row column pressed).map AgedHit.entry = newHits cfg row column pressed := by
  simp [hitsOf, newHits, AgedHit.entry, Function.comp_def]

theorem fresh_hitsOf (row column : ℕ) (pressed : Bool) :
    (hitsOf cfg row column pressed).filter AgedHit.fresh = hitsOf cfg row column pressed := by
  rw [List.filter_eq_self]
  intro hit member
  obtain ⟨_, _, rfl⟩ := List.mem_map.mp member
  rfl

/-- LEDs that find room, or a full tracker, become the latest hits. -/
theorem hits_record_latest {buffer : LastHit} {history : History} {row column : ℕ}
    {pressed : Bool} (holds : buffer.hits = (history.latest cfg).map AgedHit.entry)
    (fits : (newHits cfg row column pressed).length ≤ cfg.hitsToRemember)
    (room : buffer.count + (newHits cfg row column pressed).length ≤ cfg.hitsToRemember ∨
      buffer.count = cfg.hitsToRemember) :
    (buffer.record cfg.hitsToRemember (newHits cfg row column pressed)).hits =
      (History.latest cfg
        { history with hits := history.hits ++ hitsOf cfg row column pressed }).map
        AgedHit.entry := by
  have entries : (hitsOf cfg row column pressed).map AgedHit.entry =
      newHits cfg row column pressed := entry_hitsOf row column pressed
  have same : (newHits cfg row column pressed).length = (hitsOf cfg row column pressed).length := by
    rw [← entries, List.length_map]
  have count : buffer.count = (recent cfg.hitsToRemember (history.hits.filter AgedHit.fresh)).length := by
    rw [← length_hits, holds, List.length_map, History.latest]
  simp only [History.latest, List.filter_append, fresh_hitsOf]
  rcases room with room | full
  · rw [hits_record_of_room room, recent_append_of_room (by omega), List.map_append, entries, holds,
      History.latest]
  · rw [hits_record_of_full fits full, recent_append_of_full (by omega) (by omega), List.map_append,
      List.map_drop, entries, holds, same, History.latest]

end Keys

section Tasks

theorem entry_older (time : BitVec 32) (hit : AgedHit) :
    (hit.older time.toNat).entry = hit.entry.aged time := by
  have tick : BitVec.ofNat 16 (hit.age + time.toNat) =
      BitVec.ofNat 16 hit.age + time.setWidth 16 := by
    rw [BitVec.ofNat_add, BitVec.ofNat_toNat]
  simp only [AgedHit.entry, AgedHit.older, Hit.aged, tick]

/-- Older hits come first. -/
def History.Sorted (history : History) : Prop :=
  history.hits.Pairwise fun earlier later => later.age ≤ earlier.age

/-- Behind a task the latest hits are those before it that are still fresh, all older. -/
theorem latest_older {history : History} (sorted : history.Sorted) (time : ℕ)
    (buffer : BitVec 32) :
    History.latest cfg { buffer := buffer, hits := history.hits.map (AgedHit.older time) } =
      ((history.latest cfg).filter fun hit => (hit.older time).fresh).map (AgedHit.older time) := by
  have order : (history.hits.filter AgedHit.fresh).Pairwise fun earlier later =>
      ((earlier.older time).fresh = true → (later.older time).fresh = true) := by
    refine (List.Pairwise.filter _ sorted).imp fun {earlier later} older fresh => ?_
    rw [AgedHit.fresh_iff] at fresh ⊢
    simp only [AgedHit.older] at fresh ⊢
    omega
  have still : history.hits.filter (fun hit => (hit.older time).fresh) =
      (history.hits.filter AgedHit.fresh).filter fun hit => (hit.older time).fresh := by
    rw [List.filter_filter]
    apply List.filter_congr
    intro hit _
    rw [Bool.eq_iff_iff, Bool.and_eq_true, AgedHit.fresh_iff, AgedHit.fresh_iff]
    simp only [AgedHit.older]
    omega
  simp only [History.latest]
  rw [List.filter_map, recent_map, ← recent_filter _ _ order, ← still]
  rfl

/-- A hit that is fresh has its age as its tick. -/
theorem tick_entry {hit : AgedHit} (fresh : hit.fresh = true) : hit.entry.tick.toNat = hit.age := by
  rw [AgedHit.fresh_iff] at fresh
  exact Nat.mod_eq_of_lt (by omega)

theorem fresh_of_latest {history : History} {hit : AgedHit} (member : hit ∈ history.latest cfg) :
    hit.fresh = true :=
  List.of_mem_filter (List.mem_of_mem_drop member)

/-- A task that the tracker is written for leaves the hits that are still fresh. -/
theorem hits_age_latest {buffer : LastHit} {history : History} (sorted : history.Sorted)
    (holds : buffer.hits = (history.latest cfg).map AgedHit.entry) (reads : Reads)
    (handled : buffer.count = 0 ∨ (reads.elapsed - history.buffer).toNat ≤ 65535 ∧
      ((∀ hit ∈ buffer.hits, hit.tick.toNat + (reads.elapsed - history.buffer).toNat ≤ 65535) ∨
        ∀ hit ∈ buffer.hits, 65535 < hit.tick.toNat + (reads.elapsed - history.buffer).toNat)) :
    (buffer.age (reads.elapsed - history.buffer)).hits =
      ((history.step cfg (.task reads)).latest cfg).map AgedHit.entry := by
  rw [History.step, latest_older sorted, List.map_map]
  have ages (hit : AgedHit) (member : hit ∈ history.latest cfg) :
      hit.entry ∈ buffer.hits ∧ hit.entry.tick.toNat = hit.age :=
    ⟨by rw [holds]; exact List.mem_map_of_mem member, tick_entry (fresh_of_latest member)⟩
  rcases handled with empty | ⟨short, none | all⟩
  · have nothing : history.latest cfg = [] := by
      rw [← List.map_eq_nil_iff (f := AgedHit.entry), ← holds, ← List.length_eq_zero_iff,
        length_hits, empty]
    have forgotten : buffer.hits = [] := by rw [holds, nothing]; rfl
    rw [nothing, hits_age_of_all (by simp [forgotten])]
    rfl
  · have young : ∀ hit ∈ buffer.hits, expired (reads.elapsed - history.buffer) hit = false := by
      intro hit member
      have below := none hit member
      rw [Bool.eq_false_iff, Ne, expired_iff short]
      omega
    have kept : (history.latest cfg).filter
        (fun hit => (hit.older (reads.elapsed - history.buffer).toNat).fresh) =
        history.latest cfg := by
      rw [List.filter_eq_self]
      intro hit member
      have below := none _ (ages hit member).1
      rw [(ages hit member).2] at below
      rw [AgedHit.fresh_iff]
      exact below
    rw [hits_age_of_none young, holds, kept, List.map_map]
    apply List.map_congr_left
    intro hit _
    exact (entry_older _ hit).symm
  · have old : ∀ hit ∈ buffer.hits, expired (reads.elapsed - history.buffer) hit = true := by
      intro hit member
      rw [expired_iff short]
      exact all hit member
    have forgotten : (history.latest cfg).filter
        (fun hit => (hit.older (reads.elapsed - history.buffer).toNat).fresh) = [] := by
      rw [List.filter_eq_nil_iff]
      intro hit member fresh
      have above := all _ (ages hit member).1
      rw [(ages hit member).2] at above
      rw [AgedHit.fresh_iff] at fresh
      simp only [AgedHit.older] at fresh
      omega
    rw [hits_age_of_all old, forgotten]
    rfl

theorem sorted_step {history : History} (sorted : history.Sorted) (event : Event) :
    (history.step cfg event).Sorted := by
  cases event with
  | key row column pressed master =>
    simp only [History.step]
    split
    · refine List.pairwise_append.mpr ⟨sorted, ?_, fun earlier _ later member => ?_⟩
      · exact List.pairwise_map.mpr (List.pairwise_of_forall fun _ _ => le_rfl)
      · obtain ⟨_, _, rfl⟩ := List.mem_map.mp member
        exact Nat.zero_le _
    · exact sorted
  | task reads =>
    refine List.pairwise_map.mpr (sorted.imp fun {earlier later} older => ?_)
    exact Nat.add_le_add_right older _
  | _ => exact sorted

end Tasks

section Runs

/-- The tracker holds the latest of some hits that are older the earlier they come. -/
structure Follows (state : State cfg Scratch) (history : History) : Prop extends
    Tracks state history where
  buffer : state.timerBuffer = history.buffer
  sorted : history.Sorted
  untracked : cfg.reactive.isSome = false → history.hits = []

theorem tracks_of_hits {state : State cfg Scratch} {history : History}
    (hits : state.lastHitBuffer.hits = (history.latest cfg).map AgedHit.entry) :
    Tracks state history := by
  refine ⟨?_, hits⟩
  rw [← length_hits, hits, List.length_map, History.latest, length_recent]
  exact min_le_right _ _

theorem follows_of_sameTimers {state other : State cfg Scratch} {history : History}
    (follows : Follows state history) (same : SameTimers state other) : Follows other history where
  room := by rw [same.lastHitBuffer]; exact follows.room
  hits := by rw [same.lastHitBuffer]; exact follows.hits
  buffer := by rw [same.timerBuffer]; exact follows.buffer
  sorted := follows.sorted
  untracked := follows.untracked

/-- A step that the tracker is written for leaves it with the latest hits. -/
theorem follows_step (fits : ∀ row column,
      (mapRowColumnToLed cfg row column).length ≤ cfg.hitsToRemember)
    (state : State cfg Scratch) (history : History) (event : Event)
    (follows : Follows state history) (handled : Handled state event) :
    Follows (step fx state event) (history.step cfg event) := by
  cases event with
  | key row column pressed master =>
    have keeps : (history.step cfg (.key row column pressed master)).Sorted :=
      sorted_step follows.sorted _
    simp only [step, processRgbMatrix, History.step] at keeps ⊢
    by_cases taken : (cfg.split || master) = true
    · have inside : (!cfg.split && !master) = false := by
        simpa [Bool.or_eq_true, or_iff_not_imp_left] using taken
      rw [if_pos taken] at keeps ⊢
      rw [inside, if_neg Bool.false_ne_true]
      by_cases tracked : cfg.reactive.isSome = true
      · have hits := hits_record_latest follows.hits (length_newHits_le (fits row column) pressed)
          (handled taken)
        refine { toTracks := tracks_of_hits ?_, buffer := follows.buffer, sorted := keeps, untracked := ?_ }
        · simp only [if_pos tracked]
          exact hits
        · intro untracked
          rw [untracked] at tracked
          cases tracked
      · have untracked := Bool.eq_false_iff.mpr tracked
        have nothing : hitsOf cfg row column pressed = [] := by
          rw [hitsOf, newHits_eq_nil untracked, List.map_nil]
        refine { toTracks := tracks_of_hits ?_, buffer := follows.buffer, sorted := keeps, untracked := ?_ }
        · simp only [if_neg tracked, nothing, List.append_nil]
          exact follows.hits
        · intro _
          rw [nothing, List.append_nil, follows.untracked untracked]
    · have outside : (!cfg.split && !master) = true := by
        simpa [Bool.or_eq_false_iff] using taken
      rw [if_neg taken, if_pos outside]
      exact follows
  | task reads =>
    have same := sameInput_runPhase fx (rgbTaskTimers state reads) reads
    have keeps : (history.step cfg (.task reads)).Sorted := sorted_step follows.sorted _
    have buffer : (step fx state (.task reads)).lastHitBuffer =
        if cfg.reactive.isSome then state.lastHitBuffer.age (reads.elapsed - history.buffer)
        else state.lastHitBuffer := by
      rw [← follows.buffer]
      exact same.lastHitBuffer
    refine { toTracks := tracks_of_hits ?_, buffer := same.timerBuffer, sorted := keeps, untracked := ?_ }
    · rw [buffer]
      by_cases tracked : cfg.reactive.isSome = true
      · rw [if_pos tracked]
        refine hits_age_latest follows.sorted follows.hits reads ?_
        rw [← follows.buffer]
        exact handled
      · have nothing := follows.untracked (Bool.eq_false_iff.mpr tracked)
        rw [if_neg tracked, follows.hits]
        simp [History.step, History.latest, nothing]
    · intro untracked
      simp only [History.step, follows.untracked untracked, List.map_nil]
  | toggle => exact follows_of_sameTimers follows ⟨rfl, rfl, rfl⟩
  | enable => exact follows_of_sameTimers follows ⟨rfl, rfl, rfl⟩
  | disable => exact follows_of_sameTimers follows ⟨rfl, rfl, rfl⟩
  | mode mode => exact follows_of_sameTimers follows (sameTimers_setMode state mode)
  | step => exact follows_of_sameTimers follows (sameTimers_setMode state _)
  | stepReverse => exact follows_of_sameTimers follows (sameTimers_setMode state _)
  | flags flags => exact follows_of_sameTimers follows ⟨rfl, rfl, rfl⟩

variable (stored : Option Settings) (scratch : Scratch) (colors flushed : Colors cfg)

theorem follows_init :
    Follows (rgbMatrixInit cfg stored scratch colors flushed) ({} : History) where
  toTracks := tracks_of_hits (by simp [rgbMatrixInit, LastHit.hits, LastHit.clear, History.latest])
  buffer := rfl
  sorted := List.Pairwise.nil
  untracked := fun _ => rfl

/-- In every run of steps that the tracker is written for it holds the latest hits behind each
step, each with its own age. -/
theorem tracks_latest (fits : ∀ row column,
      (mapRowColumnToLed cfg row column).length ≤ cfg.hitsToRemember)
    (events : List Event)
    (along : Along (step fx) Handled (rgbMatrixInit cfg stored scratch colors flushed) events)
    (cut : ℕ) :
    Tracks (run (step fx) (rgbMatrixInit cfg stored scratch colors flushed) (events.take cut))
      (run (History.step cfg) {} (events.take cut)) := by
  rw [← List.take_append_drop cut events, along_append] at along
  exact (run_simulates (follows_step fx fits) (follows_init stored scratch colors flushed)
    along.1).toTracks

end Runs

/-- A keyboard of two keys, each with its LED, that stores key presses. -/
def twoKeys : Config where
  ledTotal := 2
  disableTimeout := 0
  effectMax := 3
  startupMode := 1
  reactive := some .keypresses
  matrixCo := fun _ column => BitVec.ofNat 8 column
  point := fun led => (led, 0)

theorem twoKeys_fits (row column : ℕ) :
    (mapRowColumnToLed twoKeys row column).length ≤ twoKeys.hitsToRemember := by
  by_cases some : BitVec.ofNat 8 column ≠ 255
  · exact (congrArg List.length (if_pos some)).trans_le (Nat.le_add_left 1 7)
  · exact (congrArg List.length (if_neg some)).trans_le (Nat.zero_le 8)

/-- Effects that show nothing. -/
def twoKeysEffects : Effects twoKeys Unit where
  effect := fun _ _ _ _ picture => (picture, false)
  indicators := fun _ picture => picture
  typing := fun _ _ _ scratch => scratch

/-- Both keys are hit, they age together, and long after they are forgotten together. -/
theorem two_hits_tracked :
    Tracks (run (step twoKeysEffects) (rgbMatrixInit twoKeys none () (fun _ => .off) fun _ => .off)
      ([.key 0 0 true true, .task ⟨30000, 30000, 30000⟩, .key 0 1 true true,
        .task ⟨36000, 36000, 36000⟩, .task ⟨101535, 101535, 101535⟩].take 4))
      (run (History.step twoKeys) {}
        ([.key 0 0 true true, .task ⟨30000, 30000, 30000⟩, .key 0 1 true true,
          .task ⟨36000, 36000, 36000⟩, .task ⟨101535, 101535, 101535⟩].take 4)) :=
  tracks_latest twoKeysEffects none () _ _ twoKeys_fits _ (by decide) 4

/-- One key is hit a minute after the other. When the first hit gets too old it is the second
one that the tracker forgets. -/
theorem expiry_breaks :
    ¬ Tracks (run (step twoKeysEffects)
        (rgbMatrixInit twoKeys none () (fun _ => .off) fun _ => .off)
        [.key 0 0 true true, .task ⟨60000, 60000, 60000⟩, .key 0 1 true true,
          .task ⟨66000, 66000, 66000⟩])
      (run (History.step twoKeys) {}
        [.key 0 0 true true, .task ⟨60000, 60000, 60000⟩, .key 0 1 true true,
          .task ⟨66000, 66000, 66000⟩]) := by
  intro tracks
  have hits := tracks.hits
  revert hits
  decide

end QmkSonix.RgbMatrix
