import QmkSonix.KeyOverride.Model

/-! Whether the triggers that `key_override_task` registers again are still held. -/

namespace QmkSonix.KeyOverride

open Lib

variable {World : Type*} {table : Table World} {host : Host World} {s after : State World}
  {keycode : BitVec 16} {layer : Nat} {keyDown : Bool} {now : BitVec 32}

/-! ### What is deferred -/

/-- No trigger comes to be deferred. -/
structure Quiet (s after : State World) : Prop where
  lastKeyDown : after.lastKeyDown = s.lastKeyDown
  deferred : after.deferredRegister = 0 ∨ after.deferredTrigger = false ∨
    after.deferredRegister = s.deferredRegister ∧ after.deferredTrigger = s.deferredTrigger

theorem Quiet.refl (s : State World) : Quiet s s :=
  ⟨rfl, .inr (.inr ⟨rfl, rfl⟩)⟩

theorem Quiet.trans {between : State World} (first : Quiet s between) (second : Quiet between after) :
    Quiet s after := by
  refine ⟨second.lastKeyDown.trans first.lastKeyDown, ?_⟩
  rcases second.deferred with none | replacement | ⟨same, kind⟩
  · exact .inl none
  · exact .inr (.inl replacement)
  · rw [same, kind]
    exact first.deferred

/-- Only the world changes, and what is active. -/
theorem Quiet.with_world (quiet : Quiet s after) (world : World) :
    Quiet s { after with world := world } :=
  ⟨quiet.lastKeyDown, quiet.deferred⟩

theorem schedule_deferred (s : State World) (keycode : BitVec 16) (trigger : Bool) (now : BitVec 32) :
    (scheduleDeferredRegister s keycode trigger now).lastKeyDown = s.lastKeyDown ∧
      (scheduleDeferredRegister s keycode trigger now).deferredRegister = keycode ∧
      (scheduleDeferredRegister s keycode trigger now).deferredTrigger = trigger := by
  unfold scheduleDeferredRegister
  split
  · exact ⟨rfl, rfl, rfl⟩
  · exact ⟨rfl, rfl, rfl⟩

/-- `clear_active_override` defers at most the trigger of the active override. -/
theorem clearActiveOverride_quiet (table : Table World) (host : Host World) (s : State World)
    (allowReregister : Bool) (now : BitVec 32) :
    Quiet s (clearActiveOverride table host s allowReregister now) ∨
      ∃ pointer, s.activeOverride = some pointer ∧ allowReregister = true ∧
        (table.override pointer).reregisters s.triggerIsDown = true ∧
        (clearActiveOverride table host s allowReregister now).lastKeyDown = s.lastKeyDown ∧
        (clearActiveOverride table host s allowReregister now).deferredRegister =
          (table.override pointer).trigger := by
  unfold clearActiveOverride
  cases active : s.activeOverride with
  | none => exact .inl (Quiet.refl s)
  | some pointer =>
    dsimp only
    cases again : allowReregister && (table.override pointer).reregisters s.triggerIsDown with
    | false =>
      rw [if_neg Bool.false_ne_true]
      exact .inl ⟨rfl, .inl rfl⟩
    | true =>
      obtain ⟨allowed, reregisters⟩ := Bool.and_eq_true_iff.mp again
      rw [if_pos rfl]
      exact .inr ⟨pointer, rfl, allowed, reregisters, (schedule_deferred _ _ _ _).1,
        (schedule_deferred _ _ _ _).2.1⟩

theorem clearActiveOverride_false (table : Table World) (host : Host World) (s : State World)
    (now : BitVec 32) : Quiet s (clearActiveOverride table host s false now) := by
  rcases clearActiveOverride_quiet table host s false now with quiet | ⟨_, -, allowed, -⟩
  · exact quiet
  · cases allowed

/-- An activation defers at most a replacement. -/
theorem activate_quiet (table : Table World) (host : Host World) (s : State World)
    (keycode : BitVec 16) (keyDown mod : Bool) (now : BitVec 32) (pointer : Nat) :
    Quiet s (activate table host s keycode keyDown mod now pointer).1 := by
  have cleared := clearActiveOverride_false table host s now
  unfold activate
  dsimp only
  generalize Override.fires _ _ _ _ = fired
  split_ifs
  · exact ⟨(schedule_deferred _ _ _ _).1.trans cleared.lastKeyDown,
      .inr (.inl (schedule_deferred _ _ _ _).2.2)⟩
  · exact ⟨cleared.lastKeyDown, cleared.deferred⟩
  · exact ⟨cleared.lastKeyDown, cleared.deferred⟩
  · exact ⟨cleared.lastKeyDown, cleared.deferred⟩

theorem activate_sends (table : Table World) (host : Host World) (s : State World)
    (keycode : BitVec 16) (mod : Bool) (now : BitVec 32) (pointer : Nat) :
    (activate table host s keycode false mod now pointer).2 = true := by
  unfold activate
  dsimp only
  generalize Override.fires _ _ _ _ = fired
  split_ifs <;> simp

/-! ### The keys that are down -/

/-- What holds between two events. -/
structure Held (board : Board World) : Prop where
  last : board.firmware.lastKeyDown ≠ 0 → board.firmware.lastKeyDown ∈ board.held
  plain : isMod board.firmware.lastKeyDown = false
  deferred : board.firmware.deferredRegister ≠ 0 → board.firmware.deferredTrigger = true →
    board.firmware.deferredRegister = board.firmware.lastKeyDown
  registered : ∀ trigger ∈ board.registered, trigger ∈ board.held

/-- A release that the key overrides see, or that is not the one of the last key; and a
modifier event that registers a trigger again only if it is the last key that is down. -/
def Careful (table : Table World) (host : Host World) (board : Board World) : Event → Prop
  | .task _ => True
  | .key now keycode layer pressed =>
    (pressed = false → board.firmware.enabled = false → keycode ≠ board.firmware.lastKeyDown) ∧
      (isMod keycode = true → board.firmware.enabled = true →
        ∀ pointer ∈ board.firmware.activeOverride,
          board.firmware.findOverride table keycode layer pressed true
            (modsBehind (host.effectiveMods board.firmware.world) keycode pressed) = none →
          (table.override pointer).matchesMods
            (modsBehind (host.effectiveMods board.firmware.world) keycode pressed) = false →
          (table.override pointer).reregisters board.firmware.triggerIsDown = true →
          (table.override pointer).trigger = board.firmware.lastKeyDown)

instance Careful.decidable (board : Board World) (event : Event) :
    Decidable (Careful table host board event) :=
  match event with
  | .task _ => isTrue trivial
  | .key _ _ _ _ => inferInstanceAs (Decidable (_ ∧ _))

/-- A trigger is deferred only as the last key that is down. -/
def Deferred (s : State World) : Prop :=
  s.deferredRegister ≠ 0 → s.deferredTrigger = true → s.deferredRegister = s.lastKeyDown

theorem Deferred.quiet (deferred : Deferred s) (quiet : Quiet s after) : Deferred after := by
  intro nonzero trigger
  rcases quiet.deferred with none | replacement | ⟨same, kind⟩
  · exact absurd none nonzero
  · rw [replacement] at trigger
    cases trigger
  · rw [same, quiet.lastKeyDown]
    exact deferred (same ▸ nonzero) (kind ▸ trigger)

/-- What `process_key_override` makes of the last key that is down. -/
structure Processed (s after : State World) (keycode : BitVec 16) (keyDown send : Bool) : Prop where
  last : after.lastKeyDown = s.lastKeyDown ∧ (keyDown = false → s.lastKeyDown ≠ 0 →
        s.lastKeyDown ≠ keycode) ∨
      (keyDown = true ∧ isMod keycode = false ∧ after.lastKeyDown = keycode) ∨
      after.lastKeyDown = 0
  deferred : Deferred after
  sends : keyDown = false → send = true

theorem command_quiet {commanded : State World} (commands : command table host s keycode now = some commanded) :
    Quiet s commanded := by
  have off : Quiet s (turnOff table host s now) := by
    have quiet := clearActiveOverride_false table host { s with enabled := false } now
    exact ⟨quiet.lastKeyDown, quiet.deferred⟩
  have on : Quiet s { s with enabled := true } := ⟨rfl, .inr (.inr ⟨rfl, rfl⟩)⟩
  unfold command at commands
  split_ifs at commands
  · obtain rfl := Option.some.inj commands
    exact off
  · obtain rfl := Option.some.inj commands
    exact on
  · obtain rfl := Option.some.inj commands
    exact on
  · obtain rfl := Option.some.inj commands
    exact off

theorem track_mod (mod : isMod keycode = true) : track s keycode keyDown now = s := if_pos mod

/-- Behind the event of a key that is no modifier. -/
theorem track_processed (deferred : Deferred s) (plain : isMod keycode = false) (now : BitVec 32)
    {send : Bool} (sends : keyDown = false → send = true) :
    Processed s (track s keycode keyDown now) keycode keyDown send := by
  unfold track
  rw [if_neg (by simp [plain])]
  cases keyDown with
  | true =>
    rw [if_pos rfl]
    exact ⟨.inr (.inl ⟨rfl, plain, rfl⟩), fun nonzero => absurd rfl nonzero, sends⟩
  | false =>
    rw [if_neg Bool.false_ne_true]
    split
    · exact ⟨.inr (.inr rfl), fun nonzero => absurd rfl nonzero, sends⟩
    · next other =>
      exact ⟨.inl ⟨rfl, fun _ _ same => other same.symm⟩, deferred, sends⟩

theorem Processed.quiet {between : State World} {send : Bool}
    (processed : Processed s between keycode keyDown send) (quiet : Quiet between after) :
    Processed s after keycode keyDown send := by
  refine ⟨?_, processed.deferred.quiet quiet, processed.sends⟩
  rw [quiet.lastKeyDown]
  exact processed.last

theorem deactivate_quiet (table : Table World) (host : Host World) (s : State World)
    (plain : isMod keycode = false) (keyDown : Bool) (mods : BitVec 8) (now : BitVec 32) :
    Quiet s (deactivate table host s keycode keyDown mods now) := by
  unfold deactivate
  cases s.activeOverride with
  | none => exact Quiet.refl s
  | some pointer =>
    dsimp only
    rw [if_neg (by simp [plain])]
    have released (lifted : Prop) [Decidable lifted] (active : Option Nat) :
        Quiet s (if lifted then { s with activeOverride := active, triggerIsDown := false }
          else s) := by
      split
      · exact ⟨rfl, .inr (.inr ⟨rfl, rfl⟩)⟩
      · exact Quiet.refl s
    split
    · exact (released _ _).trans (clearActiveOverride_false table host _ now)
    · exact released _ _

/-- A careful modifier event defers at most a replacement, or the last key that is down. -/
theorem deactivate_deferred (deferred : Deferred s) (host : Host World)
    (mod : isMod keycode = true) (keyDown : Bool) (now : BitVec 32) {mods : BitVec 8}
    (careful : ∀ pointer, s.activeOverride = some pointer →
      (table.override pointer).matchesMods mods = false →
      (table.override pointer).reregisters s.triggerIsDown = true →
      (table.override pointer).trigger = s.lastKeyDown) :
    (deactivate table host s keycode keyDown mods now).lastKeyDown = s.lastKeyDown ∧
      Deferred (deactivate table host s keycode keyDown mods now) := by
  unfold deactivate
  cases active : s.activeOverride with
  | none => exact ⟨rfl, deferred⟩
  | some pointer =>
    dsimp only
    rw [if_pos mod]
    split
    · exact ⟨rfl, deferred⟩
    · next ends =>
      rcases clearActiveOverride_quiet table host s true now with
        quiet | ⟨other, same, -, reregisters, last, trigger⟩
      · exact ⟨quiet.lastKeyDown, deferred.quiet quiet⟩
      · obtain rfl := Option.some.inj (active.symm.trans same)
        refine ⟨last, fun _ _ => ?_⟩
        rw [trigger, last]
        exact careful pointer active (Bool.eq_false_iff.mpr ends) reregisters

theorem processKeyOverride_processed {board : Board World} (held : Held board) {pressed send : Bool}
    (careful : Careful table host board (.key now keycode layer pressed))
    (answers : processKeyOverride table host board.firmware keycode layer pressed now =
      some (after, send)) :
    Processed board.firmware after keycode pressed send := by
  have apart (mod : isMod keycode = true) : board.firmware.lastKeyDown ≠ keycode := by
    intro same
    rw [← same, held.plain] at mod
    cases mod
  unfold processKeyOverride at answers
  split at answers
  · next commanded commands =>
    cases pressed with
    | false => cases commands
    | true =>
      obtain ⟨rfl, rfl⟩ := Prod.mk.inj (Option.some.inj answers)
      have quiet := command_quiet commands
      exact ⟨.inl ⟨quiet.lastKeyDown, fun up => absurd up.symm Bool.false_ne_true⟩,
        Deferred.quiet held.deferred quiet, fun up => absurd up.symm Bool.false_ne_true⟩
  · split at answers
    · next off =>
      obtain ⟨rfl, rfl⟩ := Prod.mk.inj (Option.some.inj answers)
      exact ⟨.inl ⟨rfl, fun up _ same => careful.1 up (by simpa using off) same.symm⟩,
        held.deferred, fun _ => rfl⟩
    · next on =>
      have enabled : board.firmware.enabled = true := by simpa using on
      dsimp only at answers
      by_cases tries : (isMod keycode || pressed) = true
      · rw [if_pos tries] at answers
        obtain ⟨tried, found, result⟩ := Option.map_eq_some_iff.mp answers
        obtain ⟨rfl, rfl⟩ := Prod.mk.inj result
        have tracked (answer : Bool) (sends : pressed = false → answer = true) :
            Processed board.firmware (track board.firmware keycode pressed now) keycode pressed
              answer := by
          by_cases mod : isMod keycode = true
          · rw [track_mod mod]
            exact ⟨.inl ⟨rfl, fun _ _ => apart mod⟩, held.deferred, sends⟩
          · exact track_processed held.deferred (Bool.eq_false_iff.mpr mod) now sends
        unfold tryActivatingOverride at found
        split at found
        · next pointer finds =>
          obtain rfl := Option.some.inj found
          have activates := activate_quiet table host (track board.firmware keycode pressed now)
            keycode pressed (isMod keycode) now pointer
          have sends : pressed = false → (activate table host (track board.firmware keycode pressed now)
              keycode pressed (isMod keycode) now pointer).2 = true := by
            rintro rfl
            exact activate_sends table host _ keycode (isMod keycode) now pointer
          refine (tracked _ sends).quiet ?_
          dsimp only
          rw [if_pos rfl]
          split
          · exact activates
          · exact activates.with_world _
        · next unfound =>
          split at found
          · cases found
          · obtain rfl := Option.some.inj found
            dsimp only
            rw [if_neg Bool.false_ne_true, if_pos rfl]
            by_cases mod : isMod keycode = true
            · rw [track_mod mod, mod] at unfound
              have lasts := deactivate_deferred held.deferred host mod pressed now
                fun pointer active ends reregisters =>
                  careful.2 mod enabled pointer active unfound ends reregisters
              rw [track_mod mod]
              exact ⟨.inl ⟨lasts.1, fun _ _ => apart mod⟩, lasts.2, fun _ => rfl⟩
            · exact (tracked true fun _ => rfl).quiet
                (deactivate_quiet table host _ (Bool.eq_false_iff.mpr mod) pressed _ now)
      · rw [if_neg tries] at answers
        obtain ⟨rfl, rfl⟩ := Prod.mk.inj (Option.some.inj answers)
        obtain ⟨plain, -⟩ := Bool.or_eq_false_iff.mp (Bool.eq_false_iff.mpr tries)
        exact (track_processed held.deferred plain now fun _ => rfl).quiet
          (deactivate_quiet table host _ plain pressed _ now)

theorem Held.exec {board following : Board World} (held : Held board) {event : Event}
    (careful : Careful table host board event) (moves : board.exec table host event = some following) :
    Held following := by
  cases event with
  | task now =>
    obtain rfl := Option.some.inj moves
    have same : (keyOverrideTask host board.firmware now).lastKeyDown = board.firmware.lastKeyDown ∧
        Deferred (keyOverrideTask host board.firmware now) := by
      unfold keyOverrideTask
      split_ifs
      · exact ⟨rfl, held.deferred⟩
      · exact ⟨rfl, fun nonzero => absurd rfl nonzero⟩
      · exact ⟨rfl, held.deferred⟩
    refine ⟨?_, ?_, same.2, fun trigger member => ?_⟩
    · rw [same.1]
      exact held.last
    · rw [same.1]
      exact held.plain
    · rcases List.mem_append.mp member with here | before
      · unfold State.taskTrigger at here
        split at here
        · next registers =>
          rw [List.mem_singleton.mp here, held.deferred registers.1 registers.2.2]
          exact held.last (held.deferred registers.1 registers.2.2 ▸ registers.1)
        · cases here
      · exact held.registered trigger before
  | key now keycode layer pressed =>
    obtain ⟨⟨after, send⟩, answers, rfl⟩ := Option.map_eq_some_iff.mp moves
    have processed := processKeyOverride_processed held careful answers
    have deferred : Deferred after := processed.deferred
    have firmware : (if send = true then
        { after with world := host.processAction keycode pressed after.world } else after).lastKeyDown =
          after.lastKeyDown ∧ Deferred (if send = true then
        { after with world := host.processAction keycode pressed after.world } else after) := by
      split
      · exact ⟨rfl, deferred⟩
      · exact ⟨rfl, deferred⟩
    refine ⟨?_, ?_, firmware.2, fun trigger member => ?_⟩
    · dsimp only
      rw [firmware.1]
      rcases processed.last with ⟨same, kept⟩ | ⟨rfl, -, same⟩ | zero
      · rw [same]
        intro nonzero
        cases pressed with
        | true => exact List.mem_cons_of_mem keycode (held.last nonzero)
        | false => exact (List.mem_erase_of_ne (kept rfl nonzero)).mpr (held.last nonzero)
      · rw [same]
        exact fun _ => List.mem_cons_self
      · exact fun nonzero => absurd zero nonzero
    · dsimp only
      rw [firmware.1]
      rcases processed.last with ⟨same, -⟩ | ⟨-, plain, same⟩ | zero
      · rw [same]
        exact held.plain
      · rw [same]
        exact plain
      · rw [zero]
        rfl
    · cases pressed with
      | true =>
        have before : trigger ∈ board.registered := by simpa using member
        exact List.mem_cons_of_mem keycode (held.registered trigger before)
      | false =>
        have left : trigger ∈ board.registered.filter (· ≠ keycode) := by
          simpa [processed.sends rfl] using member
        obtain ⟨before, other⟩ := List.mem_filter.mp left
        exact (List.mem_erase_of_ne (of_decide_eq_true other)).mpr (held.registered trigger before)

/-! ### Runs -/

/-- A step of the firmware, if it has not hung before. -/
def advance (table : Table World) (host : Host World) (board : Option (Board World)) (event : Event) :
    Option (Board World) :=
  board.bind fun board => board.exec table host event

/-- Power-on, with no key down. -/
def start (world : World) : Option (Board World) :=
  some { firmware := { world := world } }

theorem held_start (world : World) : Held ({ firmware := { world := world } } : Board World) :=
  ⟨fun nonzero => absurd rfl nonzero, rfl, fun nonzero => absurd rfl nonzero,
    fun _ member => absurd member List.not_mem_nil⟩

/-- In every run of careful steps, with any overrides, `key_override_task` registers only
triggers that are down, and a trigger that it has registered stays down until it is
unregistered. -/
theorem registered_triggers_held (table : Table World) (host : Host World) (world : World)
    {events : List Event}
    (careful : Along (advance table host) (fun board event => ∀ board' ∈ board,
      Careful table host board' event) (start world) events)
    {earlier : List Event} (within : earlier <+: events) {board : Board World}
    (reached : run (advance table host) (start world) earlier = some board) :
    (∀ now trigger, board.firmware.taskTrigger now = some trigger → trigger ∈ board.held) ∧
      ∀ trigger ∈ board.registered, trigger ∈ board.held := by
  have keeps (state : Option (Board World)) (event : Event)
      (kept : ∀ board ∈ state, Held board)
      (careful : ∀ board ∈ state, Careful table host board event) :
      ∀ board ∈ advance table host state event, Held board := by
    intro following moves
    obtain ⟨board, is, moves⟩ := Option.bind_eq_some_iff.mp moves
    exact (kept board is).exec (careful board is) moves
  have begins : ∀ board ∈ start world, Held board := by
    rintro board ⟨⟩
    exact held_start world
  obtain ⟨later, rfl⟩ := within
  have along := ((along_append _ earlier later).mp careful).1
  have held : Held board := run_invariant keeps begins along board reached
  refine ⟨fun now trigger registers => ?_, held.registered⟩
  unfold State.taskTrigger at registers
  split at registers
  · next due =>
    obtain rfl := Option.some.inj registers
    rw [held.deferred due.1 due.2.2]
    exact held.last (held.deferred due.1 due.2.2 ▸ due.1)
  · cases registers

/-! ### A trigger that is lifted while the key overrides are off -/

/-- Shift and backspace send delete, with the default options. -/
def deleteKeyOverride : Override (BitVec 8) where
  trigger := 0x2A
  triggerMods := 0x22
  layers := 0xFFFFFFFF
  negativeModMask := 0
  suppressedMods := 0x22
  replacement := 0x4C
  options := 0x07
  customAction := none
  enabled := none

def deleteTable : Table (BitVec 8) where
  keyOverrides := [0]
  override _ := deleteKeyOverride

/-- A firmware of which only the real modifiers are seen. -/
def modifiers : Host (BitVec 8) where
  effectiveMods mods := mods
  setSuppressedOverrideMods _ mods := mods
  clearSuppressedOverrideMods mods := mods
  setWeakOverrideMods _ mods := mods
  clearWeakOverrideMods mods := mods
  addKey _ mods := mods
  delKey _ mods := mods
  registerCode _ mods := mods
  unregisterCode _ mods := mods
  registerCode16 _ mods := mods
  sendKeyboardReport mods := mods
  processAction keycode pressed mods := modsBehind mods keycode pressed

/-- Shift and backspace go down, and shift is lifted first. -/
def liftShift : List Event :=
  [.key 0 0xE1 0 true, .key 10 0x2A 0 true, .key 600 0xE1 0 false]

theorem lifted_shift_registers :
    (run (advance deleteTable modifiers) (start 0) (liftShift ++ [.task 700])).map
        (fun board => (board.registered, board.held)) = some ([0x2A], [0x2A]) ∧
      ∀ board, run (advance deleteTable modifiers) (start 0) (liftShift ++ [.task 700]) = some board →
        ∀ trigger ∈ board.registered, trigger ∈ board.held := by
  have careful : Along (advance deleteTable modifiers)
      (fun board event => ∀ board' ∈ board, Careful deleteTable modifiers board' event) (start 0)
      (liftShift ++ [.task 700]) := by
    decide +kernel
  exact ⟨by decide +kernel, fun board reached =>
    (registered_triggers_held deleteTable modifiers 0 careful List.prefix_rfl reached).2⟩

/-- The same, but the key overrides are turned off before backspace is lifted: backspace is
registered with no key down. -/
theorem lifted_trigger_registered :
    (run (advance deleteTable modifiers) (start 0)
        (liftShift ++ [.key 610 keyOverrideOff 0 true, .key 620 0x2A 0 false,
          .key 630 keyOverrideOff 0 false, .task 700])).map
      (fun board => (board.registered, board.held)) = some ([0x2A], []) := by
  decide +kernel

end QmkSonix.KeyOverride
