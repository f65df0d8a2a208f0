import QmkSonix.KeyOverride.Model

/-! The modifiers that key overrides suppress and add, `suppressed_mods` and `weak_override_mods`
of `action_util.c`, belong to the active override. -/

namespace QmkSonix.KeyOverride

open Lib

/-- `extract_mod_bits` -/
def extractModBits (code : BitVec 16) : BitVec 8 :=
  if 0x0100 ≤ code ∧ code ≤ 0x1FFF then
    let side : Nat := if code &&& 0x1000 ≠ 0 then 4 else 0
    let modBit (flag : BitVec 16) (left : BitVec 8) : BitVec 8 :=
      if code &&& flag ≠ 0 then left <<< side else 0
    modBit 0x0100 1 ||| modBit 0x0200 2 ||| modBit 0x0400 4 ||| modBit 0x0800 8
  else 0

/-- `suppressed_mods` and `weak_override_mods`, and the rest of the firmware -/
structure Overriding (Rest : Type*) where
  suppressedMods : BitVec 8 := 0
  weakOverrideMods : BitVec 8 := 0
  rest : Rest

/-- What changes the rest of the firmware, and may read the two variables -/
abbrev Effect (Rest : Type*) := BitVec 8 → BitVec 8 → Rest → Rest

def Overriding.change {Rest : Type*} (effect : Effect Rest) (world : Overriding Rest) :
    Overriding Rest :=
  { world with rest := effect world.suppressedMods world.weakOverrideMods world.rest }

/-- The functions that key overrides call, on the rest of the firmware -/
structure Surroundings (Rest : Type*) where
  effectiveMods : Rest → BitVec 8
  addKey : BitVec 16 → Effect Rest
  delKey : BitVec 16 → Effect Rest
  registerCode : BitVec 8 → Effect Rest
  unregisterCode : BitVec 8 → Effect Rest
  registerCode16 : BitVec 16 → Effect Rest
  sendKeyboardReport : Effect Rest
  processAction : BitVec 16 → Bool → Effect Rest

variable {Rest : Type*}

/-- The functions of `action_util.c` on the two variables, among those around them -/
def Surroundings.host (around : Surroundings Rest) : Host (Overriding Rest) where
  effectiveMods world := around.effectiveMods world.rest
  setSuppressedOverrideMods mods world := { world with suppressedMods := mods }
  clearSuppressedOverrideMods world := { world with suppressedMods := 0 }
  setWeakOverrideMods replacement world :=
    { world with weakOverrideMods := extractModBits replacement }
  clearWeakOverrideMods world := { world with weakOverrideMods := 0 }
  addKey keycode := Overriding.change (around.addKey keycode)
  delKey keycode := Overriding.change (around.delKey keycode)
  registerCode code := Overriding.change (around.registerCode code)
  unregisterCode code := Overriding.change (around.unregisterCode code)
  registerCode16 keycode := Overriding.change (around.registerCode16 keycode)
  sendKeyboardReport := Overriding.change around.sendKeyboardReport
  processAction keycode pressed := Overriding.change (around.processAction keycode pressed)

/-- The two variables are the same. -/
def SameMods (world other : Overriding Rest) : Prop :=
  other.suppressedMods = world.suppressedMods ∧ other.weakOverrideMods = world.weakOverrideMods

/-- Overrides whose custom actions do not touch the two variables -/
structure TidyTable (Rest : Type*) extends Table (Overriding Rest) where
  tidy : ∀ pointer action, (override pointer).customAction = some action →
    ∀ activated world, SameMods world (action activated world).1

/-- A key event, a command, or a call of `key_override_task` -/
inductive Happening where
  | key (now : BitVec 32) (keycode : BitVec 16) (layer : Nat) (pressed : Bool)
  | on
  | off (now : BitVec 32)
  | toggle (now : BitVec 32)
  | task (now : BitVec 32)

section Happenings

variable {World : Type*} (table : Table World) (host : Host World)

/-- `key_override_toggle` -/
def toggle (s : State World) (now : BitVec 32) : State World :=
  if s.enabled then turnOff table host s now else { s with enabled := true }

/-- What a happening leaves, if it ever ends -/
def happen (s : State World) : Happening → Option (State World)
  | .key now keycode layer pressed =>
    (processKeyOverride table host s keycode layer pressed now).map fun processed =>
      if processed.2 then
        { processed.1 with world := host.processAction keycode pressed processed.1.world }
      else processed.1
  | .on => some { s with enabled := true }
  | .off now => some (turnOff table host s now)
  | .toggle now => some (toggle table host s now)
  | .task now => some (keyOverrideTask host s now)

end Happenings

/-- The variables are those of the active override, and zero without one. -/
def Clean (table : Table (Overriding Rest)) (s : State (Overriding Rest)) : Prop :=
  match s.activeOverride with
  | none => s.world.suppressedMods = 0 ∧ s.world.weakOverrideMods = 0
  | some pointer =>
    s.world.suppressedMods = (table.override pointer).suppressedMods ∧
      (s.world.weakOverrideMods = 0 ∨
        s.world.weakOverrideMods = extractModBits (table.override pointer).replacement)

section Steps

variable {table : TidyTable Rest} {around : Surroundings Rest} {s after : State (Overriding Rest)}

theorem SameMods.trans {world between other : Overriding Rest} (first : SameMods world between)
    (second : SameMods between other) : SameMods world other :=
  ⟨second.1.trans first.1, second.2.trans first.2⟩

theorem sameMods_change (effect : Effect Rest) (world : Overriding Rest) :
    SameMods world (world.change effect) := ⟨rfl, rfl⟩

theorem clean_of_active {table : Table (Overriding Rest)} {pointer : Nat}
    (active : s.activeOverride = some pointer)
    (suppressed : s.world.suppressedMods = (table.override pointer).suppressedMods)
    (weak : s.world.weakOverrideMods = 0 ∨
      s.world.weakOverrideMods = extractModBits (table.override pointer).replacement) :
    Clean table s := by
  unfold Clean
  rw [active]
  exact ⟨suppressed, weak⟩

/-- A key may be taken out of the report, or a code unregistered. -/
theorem sameMods_unregister (around : Surroundings Rest) (wanted : Bool) (keycode : BitVec 16)
    (code : BitVec 8) (world sent : Overriding Rest) (same : SameMods world sent) :
    SameMods world (if wanted then
      if isKey keycode then around.host.delKey keycode world
      else around.host.unregisterCode code sent
    else world) := by
  split_ifs
  · exact sameMods_change _ _
  · exact same.trans (sameMods_change _ _)
  · exact ⟨rfl, rfl⟩

/-- Nothing else decides whether a state is clean. -/
theorem Clean.congr {table : Table (Overriding Rest)} (clean : Clean table s)
    (active : after.activeOverride = s.activeOverride) (same : SameMods s.world after.world) :
    Clean table after := by
  unfold Clean
  rw [active, same.1, same.2]
  exact clean

theorem sameMods_fires (table : TidyTable Rest) (pointer : Nat) (activated : Bool) (modFree : BitVec 16)
    (world : Overriding Rest) :
    SameMods world ((table.override pointer).fires activated modFree world).1 := by
  unfold Override.fires
  cases custom : (table.override pointer).customAction with
  | none => exact ⟨rfl, rfl⟩
  | some action => exact table.tidy pointer action custom activated world

theorem schedule_world (s : State (Overriding Rest)) (keycode : BitVec 16) (trigger : Bool)
    (now : BitVec 32) : (scheduleDeferredRegister s keycode trigger now).world = s.world ∧
      (scheduleDeferredRegister s keycode trigger now).activeOverride = s.activeOverride := by
  unfold scheduleDeferredRegister
  split
  · exact ⟨rfl, rfl⟩
  · exact ⟨rfl, rfl⟩

/-- Without an active override nothing is suppressed or added. -/
structure Idle (s : State (Overriding Rest)) : Prop where
  none : s.activeOverride = none
  suppressed : s.world.suppressedMods = 0
  weak : s.world.weakOverrideMods = 0

theorem Idle.clean (idle : Idle s) (table : Table (Overriding Rest)) : Clean table s := by
  unfold Clean
  rw [idle.none]
  exact ⟨idle.suppressed, idle.weak⟩

theorem idle_clearActiveOverride (around : Surroundings Rest) (clean : Clean table.toTable s)
    (allowReregister : Bool) (now : BitVec 32) :
    Idle (clearActiveOverride table.toTable around.host s allowReregister now) := by
  unfold clearActiveOverride
  unfold Clean at clean
  cases active : s.activeOverride with
  | none =>
    rw [active] at clean
    exact ⟨active, clean.1, clean.2⟩
  | some pointer =>
    dsimp only
    generalize ((clearModsFrom _).setWidth 8).setWidth 16 = modFree
    have fired := sameMods_fires table pointer false modFree
      (around.host.clearWeakOverrideMods (around.host.clearSuppressedOverrideMods s.world))
    generalize Override.fires _ _ _ _ = result at fired ⊢
    have both := fired.trans (sameMods_unregister around result.2 modFree (modFree.setWidth 8)
      result.1 _ (sameMods_change around.sendKeyboardReport _))
    split
    · rw [(schedule_world _ _ _ _).1]
      exact ⟨rfl, both.1, both.2⟩
    · exact ⟨rfl, both.1, both.2⟩

/-- An activation sets the variables of its override. -/
theorem clean_activate (around : Surroundings Rest) (clean : Clean table.toTable s)
    (keycode : BitVec 16) (keyDown mod : Bool) (now : BitVec 32) (pointer : Nat) :
    Clean table.toTable (activate table.toTable around.host s keycode keyDown mod now pointer).1 := by
  have idle := idle_clearActiveOverride around clean false now
  unfold activate
  dsimp only
  generalize clearActiveOverride _ _ _ _ _ = cleared at idle ⊢
  have removed := sameMods_unregister around
    (!(decide ((table.override pointer).trigger = keycode) && keyDown) &&
      decide ((table.override pointer).trigger ≠ kcNo)) (table.override pointer).trigger
    ((table.override pointer).trigger.setWidth 8)
    (around.host.setSuppressedOverrideMods (table.override pointer).suppressedMods cleared.world)
    _ ⟨rfl, rfl⟩
  have fired := removed.trans
    (sameMods_fires table pointer true (clearModsFrom (table.override pointer).replacement) _)
  generalize Override.fires _ _ _ _ = result at fired ⊢
  have weak : result.1.weakOverrideMods = 0 := fired.2.trans idle.weak
  split_ifs
  · exact clean_of_active (schedule_world _ _ _ _).2 fired.1 (.inr rfl)
  · exact clean_of_active rfl fired.1 (.inr rfl)
  · exact clean_of_active rfl fired.1 (.inr rfl)
  · exact clean_of_active rfl fired.1 (.inl weak)

theorem clean_turnOff (around : Surroundings Rest) (clean : Clean table.toTable s)
    (now : BitVec 32) : Clean table.toTable (turnOff table.toTable around.host s now) :=
  (idle_clearActiveOverride around (s := { s with enabled := false }) clean false now).clean _

theorem clean_command (around : Surroundings Rest) (clean : Clean table.toTable s)
    {keycode : BitVec 16} {now : BitVec 32}
    (commands : command table.toTable around.host s keycode now = some after) :
    Clean table.toTable after := by
  unfold command at commands
  split_ifs at commands
  · obtain rfl := Option.some.inj commands
    exact clean_turnOff around clean now
  · obtain rfl := Option.some.inj commands
    exact clean
  · obtain rfl := Option.some.inj commands
    exact clean
  · obtain rfl := Option.some.inj commands
    exact clean_turnOff around clean now

theorem clean_track (clean : Clean table.toTable s) (keycode : BitVec 16) (keyDown : Bool)
    (now : BitVec 32) : Clean table.toTable (track s keycode keyDown now) := by
  unfold track
  split_ifs
  · exact clean
  · exact clean
  · exact clean
  · exact clean

/-- The five ways to be deactivated, or none -/
theorem clean_deactivate (around : Surroundings Rest) (clean : Clean table.toTable s)
    (keycode : BitVec 16) (keyDown : Bool) (mods : BitVec 8) (now : BitVec 32) :
    Clean table.toTable (deactivate table.toTable around.host s keycode keyDown mods now) := by
  have cleared (released : State (Overriding Rest)) (still : Clean table.toTable released)
      (allowReregister : Bool) : Clean table.toTable
        (clearActiveOverride table.toTable around.host released allowReregister now) :=
    (idle_clearActiveOverride around still allowReregister now).clean _
  unfold deactivate
  split
  · exact clean
  · dsimp only
    split_ifs
    · exact clean
    · exact cleared s clean true
    · exact cleared { s with triggerIsDown := false } clean false
    · exact cleared s clean false
    · exact clean
    · exact clean

theorem clean_tryActivatingOverride (around : Surroundings Rest) (clean : Clean table.toTable s)
    {keycode : BitVec 16} {layer : Nat} {keyDown mod : Bool} {activeMods : BitVec 8}
    {now : BitVec 32} {tried : (State (Overriding Rest) × Bool) × Bool}
    (tries : tryActivatingOverride table.toTable around.host s keycode layer keyDown mod activeMods
      now = some tried) : Clean table.toTable tried.1.1 := by
  unfold tryActivatingOverride at tries
  split at tries
  · obtain rfl := Option.some.inj tries
    exact clean_activate around clean keycode keyDown mod now _
  · split_ifs at tries
    obtain rfl := Option.some.inj tries
    exact clean

theorem clean_processKeyOverride (around : Surroundings Rest) (clean : Clean table.toTable s)
    {keycode : BitVec 16} {layer : Nat} {keyDown : Bool} {now : BitVec 32}
    {processed : State (Overriding Rest) × Bool}
    (processes : processKeyOverride table.toTable around.host s keycode layer keyDown now =
      some processed) : Clean table.toTable processed.1 := by
  unfold processKeyOverride at processes
  split at processes
  · next commanded commands =>
    obtain rfl := Option.some.inj processes
    split_ifs at commands
    exact clean_command around clean commands
  · have tracked := clean_track clean keycode keyDown now
    split_ifs at processes
    · obtain rfl := Option.some.inj processes
      exact clean
    · obtain ⟨tried, tries, rfl⟩ := Option.map_eq_some_iff.mp processes
      have found := clean_tryActivatingOverride around tracked tries
      have sent : Clean table.toTable (if tried.1.2 then tried.1.1
          else { tried.1.1 with world := around.host.sendKeyboardReport tried.1.1.world }) := by
        split_ifs
        · exact found
        · exact found.congr rfl (sameMods_change _ _)
      dsimp only
      split_ifs at sent ⊢
      · exact sent
      · exact sent
      · exact clean_deactivate around sent keycode keyDown _ now
      · exact clean_deactivate around sent keycode keyDown _ now
    · obtain rfl := Option.some.inj processes
      exact clean_deactivate around tracked keycode keyDown _ now

theorem clean_keyOverrideTask (around : Surroundings Rest) (clean : Clean table.toTable s)
    (now : BitVec 32) : Clean table.toTable (keyOverrideTask around.host s now) := by
  unfold keyOverrideTask
  split_ifs
  · exact clean
  · exact clean.congr rfl (sameMods_change _ _)
  · exact clean

theorem clean_happen (around : Surroundings Rest) (clean : Clean table.toTable s)
    {happening : Happening} (happens : happen table.toTable around.host s happening = some after) :
    Clean table.toTable after := by
  cases happening with
  | key now keycode layer pressed =>
    obtain ⟨processed, processes, rfl⟩ := Option.map_eq_some_iff.mp happens
    have kept := clean_processKeyOverride around clean processes
    split_ifs
    · exact kept.congr rfl (sameMods_change _ _)
    · exact kept
  | on =>
    obtain rfl := Option.some.inj happens
    exact clean
  | off now =>
    obtain rfl := Option.some.inj happens
    exact clean_turnOff around clean now
  | toggle now =>
    obtain rfl := Option.some.inj happens
    unfold toggle
    split_ifs
    · exact clean_turnOff around clean now
    · exact clean
  | task now =>
    obtain rfl := Option.some.inj happens
    exact clean_keyOverrideTask around clean now

end Steps

section Runs

/-- The next happening, if those before have ended -/
def proceed {World : Type*} (table : Table World) (host : Host World) (s : Option (State World))
    (happening : Happening) : Option (State World) :=
  s.bind fun s => happen table host s happening

/-- Behind every run of key events, commands and calls of the task, the modifiers are those of the
active override. -/
theorem clean_of_run (table : TidyTable Rest) (around : Surroundings Rest) (rest : Rest)
    (happenings : List Happening) (s : State (Overriding Rest))
    (ends : run (proceed table.toTable around.host) (some { world := { rest := rest } }) happenings =
      some s) : Clean table.toTable s := by
  refine run_keeps
    (fun state : Option (State (Overriding Rest)) => ∀ s ∈ state, Clean table.toTable s)
    ?_ ?_ happenings s ends
  · intro state happening clean after happens
    obtain ⟨before, rfl, happened⟩ := Option.bind_eq_some_iff.mp happens
    exact clean_happen around (clean before rfl) happened
  · rintro first ⟨⟩
    exact ⟨rfl, rfl⟩

/-- Shift and backspace send control and delete. -/
def deleteWord : TidyTable (BitVec 8) where
  keyOverrides := [0]
  override _ :=
    { trigger := 0x2A
      triggerMods := 0x22
      layers := 0xFFFFFFFF
      negativeModMask := 0
      suppressedMods := 0x22
      replacement := 0x014C
      options := 0x07
      customAction := none
      enabled := none }
  tidy := nofun

/-- Only the real modifiers are seen. -/
def realMods : Surroundings (BitVec 8) where
  effectiveMods mods := mods
  addKey _ _ _ mods := mods
  delKey _ _ _ mods := mods
  registerCode _ _ _ mods := mods
  unregisterCode _ _ _ mods := mods
  registerCode16 _ _ _ mods := mods
  sendKeyboardReport _ _ mods := mods
  processAction keycode pressed _ _ mods := modsBehind mods keycode pressed

theorem clean_while_active : ∃ s, run (proceed deleteWord.toTable realMods.host)
    (some { world := { rest := 0 } }) [.key 0 0xE1 0 true, .key 10 0x2A 0 true] = some s ∧
      (s.activeOverride, s.world.suppressedMods, s.world.weakOverrideMods) = (some 0, 0x22, 1) ∧
      Clean deleteWord.toTable s := by
  have seen : (run (proceed deleteWord.toTable realMods.host) (some { world := { rest := 0 } })
      [.key 0 0xE1 0 true, .key 10 0x2A 0 true]).map (fun s =>
        (s.activeOverride, s.world.suppressedMods, s.world.weakOverrideMods)) =
          some (some 0, 0x22, 1) := by
    decide +kernel
  obtain ⟨s, ends, active⟩ := Option.map_eq_some_iff.mp seen
  exact ⟨s, ends, active, clean_of_run deleteWord realMods 0 _ s ends⟩

end Runs

end QmkSonix.KeyOverride
