import QmkSonix.Lib.Run
import QmkSonix.Combo.Lookups

/-! A keyboard with combos: what `action_exec` and `combo_task` hand to tapping, and
the positions with which `keymaps` is looked up in a run. -/

namespace QmkSonix.Combo

open QmkSonix.Keyboard QmkSonix.Lib QmkSonix.Lib.Traced
open QmkSonix.Tapping (isNoEvent)

/-- The firmware as the combos see it: its state, and the trace so far. -/
structure Logged (World : Type) where
  statics : Statics World
  marks : List (Mark World) := []

/-- The positions with which `keymaps` was looked up. -/
def lookups {World : Type} (marks : List (Mark World)) : List KeyPos :=
  marks.filterMap fun
    | .lookup key => some key
    | _ => none

section Device

variable {World : Type} {cfg : Config} (build : Build) (fw : Firmware World)

/-- Run a program. -/
def Logged.perform {Value : Type} (logged : Logged World) (program : Prog World Value) :
    Logged World :=
  { statics := program.after logged.statics
    marks := logged.marks ++ program.trace logged.statics }

def host : Host (Logged World) where
  actionTappingProcess logged record := logged.perform (fw.actionTappingProcess build record)
  processComboEvent logged index pressed :=
    logged.perform (change fun world => fw.processComboEvent world index pressed)

/-- Run a program of the firmware around the combos. -/
def State.perform {Value : Type} (s : State cfg (Logged World)) (program : Prog World Value) :
    State cfg (Logged World) :=
  { s with world := s.world.perform program }

/-- `action_exec` for a key, at the time `now` of `timer_read`. -/
def actionExec (now : BitVec 16) (s : State cfg (Logged World)) (event : KeyEvent) :
    State cfg (Logged World) :=
  let begun := s.perform (change fun world => fw.actionExecBegins world event)
  let record : Record := { event := event }
  let asked := fw.getRecordKeycode record true
  let combos := processCombo (host build fw) now (begun.perform asked)
    (asked.value begun.world.statics) record
  if combos.2 then combos.1.perform (fw.actionTappingProcess build record) else combos.1

/-- `action_exec` for a TICK. -/
def tickExec (now : BitVec 16) (s : State cfg (Logged World)) : State cfg (Logged World) :=
  let event := tickEvent now
  let begun := s.perform (change fun world => fw.actionExecBegins world event)
  begun.perform (fw.actionTappingProcess build { event := event })

/-- An event of a key of the matrix, a TICK, a call of `combo_task`, or something
else of the firmware that runs in between. -/
inductive Input (build : Build) (World : Type) where
  | key (now : BitVec 16) (event : { event : KeyEvent // build.Inside event.key ∧
      isNoEvent event = false })
  | tick (now : BitVec 16)
  | comboTask (now : BitVec 16)
  | meanwhile (does : World → World)

def exec (s : State cfg (Logged World)) : Input build World → State cfg (Logged World)
  | .key now event => actionExec build fw now s event.val
  | .tick now => tickExec build fw now s
  | .comboTask now => comboTask (host build fw) now s
  | .meanwhile does => s.perform (change does)

/-- The statics as they are initialised. -/
def initial (cfg : Config) (world : World) : State cfg (Logged World) :=
  { world := { statics := { world := world } } }

end Device

section Combos

variable {cfg : Config} {World : Type*} {host : Host World} {build : Build} {Fine : World → Prop}
  {s : State cfg World}

/-- A key in the buffer has its position in the matrix until a combo takes it. -/
structure Buffered (build : Build) (Fine : World → Prop) (s : State cfg World) : Prop where
  fine : Fine s.world
  queued : ∀ qrecord ∈ s.keyBuffer, qrecord.comboIndex = none → Sited build qrecord.record

/-- What the combos call keeps a condition. -/
structure Admits (build : Build) (Fine : World → Prop) (host : Host World) : Prop where
  forwards : ∀ world record, Fine world → Sited build record →
    Fine (host.actionTappingProcess world record)
  events : ∀ world index pressed, Fine world → Fine (host.processComboEvent world index pressed)

theorem Buffered.of_eq {t : State cfg World} (buffered : Buffered build Fine s)
    (keys : t.keyBuffer = s.keyBuffer) (world : t.world = s.world) : Buffered build Fine t :=
  ⟨world ▸ buffered.fine, keys ▸ buffered.queued⟩

theorem Buffered.update (buffered : Buffered build Fine s) (index : Nat)
    (change : Progress cfg.stateBits → Progress cfg.stateBits) :
    Buffered build Fine (s.update index change) :=
  buffered.of_eq rfl rfl

theorem Buffered.clearCombos (buffered : Buffered build Fine s) :
    Buffered build Fine (clearCombos s) :=
  buffered.of_eq rfl rfl

theorem Buffered.dropFrom (buffered : Buffered build Fine s) (comboIndex steps i : Nat) :
    Buffered build Fine (dropFrom comboIndex steps i s) := by
  induction steps generalizing i with
  | zero => exact buffered
  | succ steps ih =>
    unfold Combo.dropFrom
    split
    · exact buffered
    split
    · split <;> exact buffered.of_eq rfl rfl
    · exact ih _

theorem Buffered.dropOverlaps (buffered : Buffered build Fine s) (comboIndex steps i : Nat) :
    Buffered build Fine (dropOverlaps comboIndex steps i s).1 := by
  induction steps generalizing i s with
  | zero => exact buffered
  | succ steps ih =>
    unfold Combo.dropOverlaps
    split
    · exact buffered
    extract_lets buffered'
    split
    · exact ih buffered _
    · next drop _ =>
      have disabled : Buffered build Fine (disableCombo s drop) := buffered.update _ _
      have dropped : Buffered build Fine { disableCombo s drop with
          comboBufferRead := cfg.incrementMod s.comboBufferRead } := disabled.of_eq rfl rfl
      split
      · exact disabled
      split
      · exact ih dropped _
      · exact ih disabled _

theorem Buffered.pressComboKey (buffered : Buffered build Fine s) (now : BitVec 16)
    (comboIndex keyIndex keyCount : Nat) :
    Buffered build Fine (pressComboKey now s comboIndex keyIndex keyCount) := by
  unfold Combo.pressComboKey
  extract_lets source pressed
  have down : Buffered build Fine pressed := by
    unfold pressed
    split
    · exact buffered
    · exact buffered.of_eq rfl rfl
  split
  · unfold readyCombo
    split
    · exact down.update _ _
    extract_lets dropped
    have left : Buffered build Fine dropped.1 := down.dropOverlaps _ _ _
    split
    · exact left
    · exact left.of_eq rfl rfl
  · exact down

theorem Buffered.releaseCombo (admits : Admits build Fine host) (buffered : Buffered build Fine s)
    (now : BitVec 16) (index : Nat) : Buffered build Fine (releaseCombo host now s index) := by
  unfold Combo.releaseCombo
  extract_lets keycode world
  have fine : Fine world := by
    unfold world
    split
    · next coded => exact admits.forwards _ _ buffered.fine (.inl coded)
    · exact admits.events _ _ _ buffered.fine
  have released : Buffered build Fine { s with world := world } := ⟨fine, buffered.queued⟩
  exact released.update _ _

theorem Admits.dumpKey (admits : Admits build Fine host) {world : World} (fine : Fine world)
    {qrecord : QueuedRecord}
    (queued : qrecord.comboIndex = none → Sited build qrecord.record) :
    Fine (dumpKey host world qrecord) := by
  unfold Combo.dumpKey
  split
  · exact fine
  split
  · split
    · exact admits.events _ _ _ fine
    · next coded => exact admits.forwards _ _ fine (.inl coded)
  · next single => exact admits.forwards _ _ fine (queued single)

theorem Buffered.dumpKeyBuffer (admits : Admits build Fine host) (buffered : Buffered build Fine s) :
    Buffered build Fine (dumpKeyBuffer host s) := by
  refine ⟨?_, fun _ member => (by cases member)⟩
  have dumps (keys : List QueuedRecord) (world : World) (fine : Fine world)
      (queued : ∀ qrecord ∈ keys, qrecord.comboIndex = none → Sited build qrecord.record) :
      Fine (keys.foldl (dumpKey host) world) := by
    induction keys generalizing world with
    | nil => exact fine
    | cons qrecord rest ih =>
      obtain ⟨first, later⟩ := List.forall_mem_cons.mp queued
      exact ih _ (admits.dumpKey fine first) later
  exact dumps _ _ buffered.fine buffered.queued

theorem queued_applyToKeys {bits : Nat} (combo : Chord) (comboIndex : Nat) (state : BitVec bits)
    {keys : List QueuedRecord}
    (queued : ∀ qrecord ∈ keys, qrecord.comboIndex = none → Sited build qrecord.record) :
    ∀ qrecord ∈ (applyToKeys combo comboIndex state keys).1,
      qrecord.comboIndex = none → Sited build qrecord.record := by
  induction keys generalizing state with
  | nil => exact queued
  | cons qrecord rest ih =>
    obtain ⟨first, later⟩ := List.forall_mem_cons.mp queued
    unfold applyToKeys
    split
    · exact List.forall_mem_cons.mpr ⟨first, ih _ later⟩
    · extract_lets down record
      split
      · exact List.forall_mem_cons.mpr ⟨fun single => (by cases single), later⟩
      · exact List.forall_mem_cons.mpr ⟨first, ih _ later⟩

theorem Buffered.applyCombo (buffered : Buffered build Fine s) (comboIndex : Nat) :
    Buffered build Fine (applyCombo s comboIndex) := by
  unfold Combo.applyCombo
  split
  · exact buffered
  extract_lets applied marked activated
  have marks : Buffered build Fine marked :=
    ⟨buffered.fine, queued_applyToKeys _ _ _ buffered.queued⟩
  have activates : Buffered build Fine activated := by
    unfold activated
    split
    · exact marks.update _ _
    · exact marks
  exact activates.dropFrom _ _ _

theorem Buffered.applyFrom (buffered : Buffered build Fine s) (steps i : Nat) :
    Buffered build Fine (applyFrom steps i s) := by
  induction steps generalizing i s with
  | zero => exact buffered
  | succ steps ih =>
    unfold Combo.applyFrom
    split
    · exact buffered
    · exact ih (buffered.applyCombo _) _

theorem Buffered.applyCombos (admits : Admits build Fine host) (buffered : Buffered build Fine s) :
    Buffered build Fine (applyCombos host s) :=
  ((buffered.applyFrom _ _).dumpKeyBuffer admits).clearCombos

theorem Buffered.releaseComboKey (admits : Admits build Fine host)
    (buffered : Buffered build Fine s) (now : BitVec 16) (comboIndex keyIndex keyCount : Nat) :
    Buffered build Fine (releaseComboKey host now s comboIndex keyIndex keyCount).1 := by
  unfold Combo.releaseComboKey
  extract_lets combo left
  have leaves : Buffered build Fine left.1 := by
    unfold left
    split
    · split
      · exact buffered.dropFrom _ _ _
      · exact buffered
    split
    · exact buffered.releaseCombo admits _ _
    split <;> exact buffered
  exact leaves.of_eq rfl rfl

theorem Buffered.processCombosFrom (admits : Admits build Fine host)
    (buffered : Buffered build Fine s) (now keycode : BitVec 16) (record : Record)
    (indices : List Nat) :
    Buffered build Fine (processCombosFrom host now keycode record indices s).1 := by
  induction indices generalizing s with
  | nil => exact buffered
  | cons index rest ih =>
    refine ih ?_
    unfold processSingleCombo
    split
    · exact buffered
    split
    · exact buffered.pressComboKey _ _ _ _
    · exact buffered.releaseComboKey admits _ _ _ _

theorem Buffered.comboDisable (admits : Admits build Fine host) (buffered : Buffered build Fine s) :
    Buffered build Fine (comboDisable host s) := by
  refine Buffered.dumpKeyBuffer admits ?_
  exact buffered.of_eq rfl rfl

theorem Buffered.settleKey (admits : Admits build Fine host) (buffered : Buffered build Fine s)
    (now keycode : BitVec 16) {record : Record} (sited : Sited build record) (isComboKey : Bool) :
    Buffered build Fine (settleKey host now s keycode record isComboKey) := by
  unfold Combo.settleKey
  split
  · refine ⟨buffered.fine, ?_⟩
    intro qrecord member
    dsimp only at member
    split at member
    · rcases List.mem_append.mp member with old | new
      · exact buffered.queued qrecord old
      · rw [List.mem_singleton.mp new]
        exact fun _ => sited
    · exact buffered.queued qrecord member
  split
  · exact buffered.applyCombos admits
  · exact (buffered.dumpKeyBuffer admits).of_eq rfl rfl

/-- `process_combo` keeps what the calls that it makes keep. -/
theorem Buffered.processCombo (admits : Admits build Fine host) (buffered : Buffered build Fine s)
    (now keycode : BitVec 16) {record : Record} (sited : Sited build record) :
    Buffered build Fine (processCombo host now s keycode record).1 := by
  unfold Combo.processCombo
  split
  · exact buffered.of_eq rfl rfl
  split
  · exact buffered.comboDisable admits
  split
  · unfold comboToggle
    split
    · exact buffered.comboDisable admits
    · exact buffered.of_eq rfl rfl
  · exact (buffered.processCombosFrom admits _ _ _ _).settleKey admits _ _ sited _

theorem Buffered.comboTask (admits : Admits build Fine host) (buffered : Buffered build Fine s)
    (now : BitVec 16) : Buffered build Fine (comboTask host now s) := by
  unfold Combo.comboTask
  split
  · split
    · exact (buffered.applyCombos admits).of_eq rfl rfl
    · exact (buffered.dumpKeyBuffer admits).of_eq rfl rfl
  · exact buffered

end Combos

section Runs

variable {World : Type} {cfg : Config} {build : Build} {fw : Firmware World}

/-- The marks so far break both measures, or neither and all is ready. -/
def Sound (build : Build) (fw : Firmware World) (logged : Logged World) : Prop :=
  ((∀ mark ∈ logged.marks, LooksInside build mark) ∧ (∀ mark ∈ logged.marks, Calm build fw mark) ∧
    Ready build logged.statics) ∨
    (¬(∀ mark ∈ logged.marks, LooksInside build mark) ∧
      ¬∀ mark ∈ logged.marks, Calm build fw mark)

theorem Sound.perform {Value : Type} {logged : Logged World} (sound : Sound build fw logged)
    {program : Prog World Value}
    (settles : ∀ s, Ready build s → Settles build fw (fun _ after => Ready build after) program s) :
    Sound build fw (logged.perform program) := by
  unfold Sound Logged.perform
  simp only [List.forall_mem_append]
  rcases sound with ⟨inside, calm, ready⟩ | ⟨outside, stirred⟩
  · rcases settles _ ready with ⟨keepsInside, keepsCalm, ready⟩ | ⟨breaksInside, breaksCalm⟩
    · exact .inl ⟨⟨inside, keepsInside⟩, ⟨calm, keepsCalm⟩, ready⟩
    · exact .inr ⟨fun keeps => breaksInside keeps.2, fun keeps => breaksCalm keeps.2⟩
  · exact .inr ⟨fun keeps => outside keeps.1, fun keeps => stirred keeps.1⟩

theorem admits_host : Admits build (Sound build fw) (host build fw) where
  forwards _ _ sound sited :=
    sound.perform fun _ ready => settles_actionTappingProcess (.inl sited) ready
  events _ _ _ sound := sound.perform fun _ ready => settles_change _ ready

/-- The invariant of a keyboard with combos. -/
abbrev Kept (build : Build) (fw : Firmware World) (s : State cfg (Logged World)) : Prop :=
  Buffered build (Sound build fw) s

theorem Kept.perform {s : State cfg (Logged World)} (kept : Kept build fw s) {Value : Type}
    {program : Prog World Value}
    (settles : ∀ s, Ready build s → Settles build fw (fun _ after => Ready build after) program s) :
    Kept build fw (s.perform program) :=
  ⟨kept.fine.perform settles, kept.queued⟩

theorem Kept.exec {s : State cfg (Logged World)} (kept : Kept build fw s)
    (input : Input build World) : Kept build fw (exec build fw s input) := by
  cases input with
  | comboTask now => exact kept.comboTask admits_host now
  | meanwhile does => exact kept.perform fun _ ready => settles_change _ ready
  | tick now =>
    have begun : Kept build fw (s.perform (change fun world =>
      fw.actionExecBegins world (tickEvent now))) :=
        kept.perform fun _ ready => settles_change _ ready
    have offered : Offered build { event := tickEvent now } := .inr ⟨rfl, rfl, rfl⟩
    exact begun.perform fun _ ready => settles_actionTappingProcess offered ready
  | key now event =>
    obtain ⟨event, inside, isEvent⟩ := event
    have sited : Sited build { event := event } := .inr inside
    change Kept build fw (actionExec build fw now s event)
    unfold actionExec
    extract_lets begun record asked combos
    have begins : Kept build fw begun := kept.perform fun _ ready => settles_change _ ready
    have asks : Kept build fw (begun.perform asked) :=
      begins.perform fun _ ready => settles_getRecordKeycode sited ready _
    have combined : Kept build fw combos.1 := asks.processCombo admits_host _ _ sited
    split
    · exact combined.perform fun _ ready => settles_actionTappingProcess (.inl sited) ready
    · exact combined

theorem kept_initial (cfg : Config) (build : Build) (fw : Firmware World) (world : World) :
    Kept build fw (initial cfg world) :=
  ⟨.inl ⟨fun _ member => (by cases member), fun _ member => (by cases member),
    sited_noRecord, fun _ member => (by cases member)⟩, fun _ member => (by cases member)⟩

theorem forall_lookups {marks : List (Mark World)} :
    (∀ key ∈ lookups marks, build.Inside key) ↔ ∀ mark ∈ marks, LooksInside build mark := by
  induction marks with
  | nil => simp [lookups]
  | cons mark rest ih =>
    rw [List.forall_mem_cons, ← ih]
    cases mark <;> simp [lookups, LooksInside]

/-- `keymaps` is looked up inside of the matrix in a run exactly when no call of the
run is of a kind that looks up a position outside of it. -/
theorem lookups_inside_iff (cfg : Config) (build : Build) (fw : Firmware World) (world : World)
    (inputs : List (Input build World)) :
    let marks := (run (exec build fw) (initial cfg world) inputs).world.marks
    (∀ key ∈ lookups marks, build.Inside key) ↔ ∀ mark ∈ marks, Calm build fw mark := by
  have keeps (s : State cfg (Logged World)) (input : Input build World) (kept : Kept build fw s)
      (_ : True) : Kept build fw (exec build fw s input) := kept.exec input
  have kept : Kept build fw (run (exec build fw) (initial cfg world) inputs) :=
    run_invariant keeps (kept_initial cfg build fw world) (along_of_forall (fun _ _ => trivial) _ _)
  intro marks
  rw [forall_lookups]
  rcases kept.fine with ⟨inside, calm, -⟩ | ⟨outside, stirred⟩
  · exact iff_of_true inside calm
  · exact iff_of_false outside stirred

/-- A keyboard of two letters, with a combo of both that is a mod-tap key. -/
def letters : Firmware Unit where
  layerSwitchGetAction _ key := if key.col = 0 then 0x0004 else 0x0005
  actionForKeycode _ keycode := if keycode = 0x6129 then 0x2129 else keycode
  storeOrGetAction world _ key := (if key.col = 0 then 0x0004 else 0x0005, world)
  pressedKeycode world key := (if key.col = 0 then 0x0004 else 0x0005, world)
  cachedKeycode _ key := if key.col = 0 then 0x0004 else 0x0005
  processRecordQuantum world _ _ := (true, world)
  postProcessRecordQuantum world _ _ := world
  tapHint world _ := world
  perform world _ _ := world
  retroTap world _ _ _ := world
  getIgnoreModTapInterrupt _ _ _ := false
  isOneshotLayerActive _ := false
  oneshotPressed _ := false
  oneshotDisable _ := false
  clearOneshotLayerState world := world
  oneshotLayerOn world := world
  oneshotLayerOff world := world
  clearKeyboard world := world
  getTappingTerm _ _ _ := 200
  getPermissiveHold _ _ _ := false
  getHoldOnOtherKeyPress _ _ _ := false
  getTappingForceHold _ _ _ := false
  actionExecBegins world _ := world
  processComboEvent world _ _ := world

def twoKeys : Build := { matrixRows := 1, matrixCols := 2 }

theorem letters_end : comboEnd ∉ [(0x0004 : BitVec 16), 0x0005] := by decide

def letterChord : Config where
  keyCombos := [{ keys := [0x0004, 0x0005], keycode := 0x6129, ends := letters_end }]

/-- Both letters are pressed, and the term of the combo ends. -/
def chordPressed : List (Input twoKeys Unit) :=
  [.key 1 ⟨{ key := { row := 0, col := 0 }, pressed := true, time := 1 }, by decide⟩,
    .key 3 ⟨{ key := { row := 0, col := 1 }, pressed := true, time := 3 }, by decide⟩,
    .comboTask 60]

/-- The tap hint of the combo looks up its pseudo position. -/
theorem combo_key_pos_looked_up :
    let marks := (run (exec twoKeys letters) (initial letterChord ()) chordPressed).world.marks
    comboKeyPos ∈ lookups marks ∧ ¬∀ key ∈ lookups marks, twoKeys.Inside key := by
  have looked : comboKeyPos ∈ lookups
      (run (exec twoKeys letters) (initial letterChord ()) chordPressed).world.marks := by decide
  exact ⟨looked, fun inside => absurd (inside comboKeyPos looked) (by decide)⟩

end Runs

end QmkSonix.Combo
