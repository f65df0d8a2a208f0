import QmkSonix.Combo.Tapping

/-! The positions with which `action_tapping_process` looks up `keymaps`: a call
looks up one outside of the matrix exactly when it is of one of a few kinds. -/

namespace QmkSonix.Combo

open QmkSonix.Keyboard QmkSonix.Lib QmkSonix.Lib.Traced
open QmkSonix.Tapping (Action isNoEvent isReleased isTapAction)

variable {World : Type} (build : Build) (fw : Firmware World)

/-- `is_tap_record`, without its look-up. -/
def Firmware.tapRecord (world : World) (record : Record) : Bool :=
  isTapAction (if record.keycode ≠ 0 then fw.actionForKeycode world record.keycode
    else fw.layerSwitchGetAction world record.key)

/-- The release of a key that was pressed before the tapping key, inside its term. -/
def releasesEarlier (s : Statics World) (keyp : Record) : Prop :=
  s.isTappingPressed ∧ s.tappingKey.tap.count = 0 ∧ fw.isWithinTerm s keyp.event ∧
    ¬(s.isTappingRecord keyp && !keyp.pressed) ∧ ¬fw.nestedHold s keyp ∧
    (isReleased keyp.event && !s.waitingBufferTyped keyp.event)

/-- A record without keycode while the tapping key is held and counted as a tap. -/
def asksWhileTapped (s : Statics World) (keyp : Record) : Prop :=
  s.isTappingPressed ∧ s.tappingKey.tap.count ≠ 0 ∧ ¬(s.isTappingRecord keyp && !keyp.pressed) ∧
    keyp.keycode = 0

/-- The press of a tap key with no tapping key. -/
def startsTapping (s : Statics World) (keyp : Record) : Prop :=
  ¬s.isTappingPressed ∧ ¬s.isTappingReleased ∧ keyp.pressed ∧ fw.tapRecord s.world keyp

/-- `process_tapping` looks up a record that it is given outside of the matrix. -/
def Escapes (s : Statics World) (keyp : Record) : Prop :=
  ¬build.Inside keyp.key ∧
    (releasesEarlier fw s keyp ∨ asksWhileTapped s keyp ∨ startsTapping fw s keyp)

/-- `process_action` asks for the keycode of a record outside of the matrix. -/
def AsksOutside (record : Record) (action : Action) : Prop :=
  ¬build.Inside record.key ∧
    (build.ignoreModTapInterruptPerKey ∧ Firmware.isModTapPress record action ∨
      build.retroTappingPerKey ∧ Firmware.isRetroTap record action)

/-- Look-ups stay inside the matrix. -/
def LooksInside : Mark World → Prop
  | .lookup key => build.Inside key
  | _ => True

/-- Calls are not of the kinds that look up a position outside. -/
def Calm : Mark World → Prop
  | .lookup _ => True
  | .processTapping s keyp => ¬Escapes build fw s keyp
  | .processAction record action => ¬AsksOutside build record action

/-- A record has a keycode of its own or lies inside the matrix. -/
def Sited (record : Record) : Prop := record.keycode ≠ 0 ∨ build.Inside record.key

/-- What may be handed to `action_tapping_process`: such a record, or a TICK. -/
def Offered (record : Record) : Prop :=
  Sited build record ∨
    (record.keycode = 0 ∧ record.key = { row := 255, col := 255 } ∧ record.pressed = false)

/-- The tapping key and all that waits has a keycode or lies inside the matrix. -/
structure Ready (s : Statics World) : Prop where
  tappingKey : Sited build s.tappingKey
  waiting : ∀ record ∈ s.waitingBuffer, Sited build record

section Primitives

variable {Value : Type} {allowed : Mark World → Prop} {s : Statics World}
  {post : Value → Statics World → Prop}

@[simp] theorem value_getState : (getState : Prog World (Statics World)).value s = s := rfl

@[simp] theorem after_getState : (getState : Prog World (Statics World)).after s = s := rfl

@[simp] theorem after_mark (access : Mark World) : (mark access).after s = s := rfl

@[simp] theorem after_modify (change : Statics World → Statics World) :
    (modify change).after s = change s := rfl

@[simp] theorem respects_mark (access : Mark World) :
    Respects allowed (mark access) s ↔ allowed access := by
  simp [Respects, Traced.trace, mark]

@[simp] theorem respects_getState : Respects allowed (getState : Prog World (Statics World)) s := by
  simp [Respects, Traced.trace, getState]

@[simp] theorem respects_modify (change : Statics World → Statics World) :
    Respects allowed (modify change) s := by
  simp [Respects, Traced.trace, modify]

@[simp] theorem respects_ask (reads : World → Value) : Respects allowed (ask reads) s := by
  simp [Respects, Traced.trace, ask]

@[simp] theorem respects_call (does : World → Value × World) : Respects allowed (call does) s := by
  simp [Respects, Traced.trace, call]

end Primitives

/-- A program breaks both measures, or keeps both and meets a condition. -/
abbrev Settles {Value : Type} (post : Value → Statics World → Prop) (program : Prog World Value)
    (s : Statics World) : Prop :=
  Agrees (LooksInside build) (Calm build fw) post program s

section Rules

variable {build fw} {Value : Type} {s : Statics World}

theorem settles_getState :
    Settles build fw (fun value after => value = s ∧ after = s) getState s :=
  .inl ⟨respects_getState, respects_getState, rfl, rfl⟩

theorem settles_modify (change : Statics World → Statics World) :
    Settles build fw (fun _ after => after = change s) (modify change) s :=
  .inl ⟨respects_modify change, respects_modify change, rfl⟩

theorem settles_ask (reads : World → Value) :
    Settles build fw (fun value after => value = reads s.world ∧ after = s) (ask reads) s :=
  .inl ⟨respects_ask reads, respects_ask reads, rfl, rfl⟩

theorem Ready.world (ready : Ready build s) (world : World) :
    Ready build { s with world := world } :=
  ⟨ready.tappingKey, ready.waiting⟩

theorem settles_call (does : World → Value × World) (ready : Ready build s) :
    Settles build fw (fun _ after => Ready build after) (call does) s :=
  .inl ⟨respects_call does, respects_call does, ready.world _⟩

theorem settles_change (does : World → World) (ready : Ready build s) :
    Settles build fw (fun _ after => Ready build after) (change does) s :=
  .inl ⟨respects_modify _, respects_modify _, ready.world _⟩

/-- A mark that keeps both measures. -/
theorem settles_mark {access : Mark World} (looks : LooksInside build access)
    (calm : Calm build fw access) :
    Settles build fw (fun _ after => after = s) (mark access) s :=
  .inl ⟨(respects_mark _).mpr looks, (respects_mark _).mpr calm, rfl⟩

theorem settles_lookup {key : KeyPos} (inside : build.Inside key) :
    Settles build fw (fun _ after => after = s) (mark (.lookup key)) s :=
  settles_mark inside trivial

end Rules

section Records

variable {build fw} {s : Statics World} {record : Record} {action : Action}

theorem inside_origin : build.Inside { row := 0, col := 0 } := ⟨build.rowed, build.coled⟩

theorem sited_noRecord : Sited build noRecord := .inr inside_origin

theorem Sited.inside (sited : Sited build record) (plain : record.keycode = 0) :
    build.Inside record.key :=
  sited.resolve_left fun coded => coded plain

theorem Offered.sited (offered : Offered build record) (event : isNoEvent record.event = false) :
    Sited build record := by
  rcases offered with sited | ⟨_, tick, _⟩
  · exact sited
  · have noEvent : isNoEvent record.event = true := by
      have key : record.event.key = { row := 255, col := 255 } := tick
      simp [isNoEvent, key]
    rw [noEvent] at event
    contradiction

theorem Offered.sited_of_pressed (offered : Offered build record) (pressed : record.pressed = true) :
    Sited build record := by
  rcases offered with sited | ⟨_, _, released⟩
  · exact sited
  · rw [pressed] at released
    contradiction

theorem settles_getEventKeycode {event : KeyEvent} (inside : build.Inside event.key)
    (ready : Ready build s) (updateLayerCache : Bool) :
    Settles build fw (fun _ after => Ready build after)
      (fw.getEventKeycode event updateLayerCache) s := by
  unfold Firmware.getEventKeycode
  refine (settles_lookup inside).bind ?_
  rintro _ _ rfl
  split
  · exact settles_call _ ready
  · refine (settles_ask _).mono ?_
    rintro _ _ ⟨-, rfl⟩
    exact ready

theorem settles_getRecordKeycode (sited : Sited build record) (ready : Ready build s)
    (updateLayerCache : Bool) :
    Settles build fw (fun _ after => Ready build after)
      (fw.getRecordKeycode record updateLayerCache) s := by
  unfold Firmware.getRecordKeycode
  split
  · exact agrees_pure ready
  · next plain =>
    exact settles_getEventKeycode (sited.inside (not_not.mp plain)) ready updateLayerCache

/-- A keycode that is not kept in the layer cache leaves the state as it is. -/
theorem settles_askedKeycode (sited : Sited build record) :
    Settles build fw (fun _ after => after = s) (fw.getRecordKeycode record false) s := by
  unfold Firmware.getRecordKeycode
  split
  · exact agrees_pure rfl
  · next plain =>
    unfold Firmware.getEventKeycode
    refine (settles_lookup (sited.inside (not_not.mp plain))).bind ?_
    rintro _ _ rfl
    rw [Bool.and_false, if_neg Bool.false_ne_true]
    exact (settles_ask _).mono fun _ _ holds => holds.2

theorem settles_tappingKeycode (ready : Ready build s) (asked : Bool) :
    Settles build fw (fun _ after => after = s) (fw.tappingKeycode asked) s := by
  unfold Firmware.tappingKeycode
  refine settles_getState.bind ?_
  rintro _ _ ⟨rfl, rfl⟩
  split
  · refine (settles_askedKeycode ready.tappingKey).bind ?_
    rintro _ _ rfl
    exact agrees_pure rfl
  · exact agrees_pure rfl

theorem settles_withinTappingTerm (ready : Ready build s) (event : KeyEvent) :
    Settles build fw (fun value after => value = fw.isWithinTerm s event ∧ after = s)
      (fw.withinTappingTerm build event) s := by
  unfold Firmware.withinTappingTerm
  refine (settles_tappingKeycode ready _).bind ?_
  rintro _ _ rfl
  refine settles_getState.bind ?_
  rintro _ _ ⟨rfl, rfl⟩
  exact agrees_pure ⟨rfl, rfl⟩

theorem settles_lookUpAction {key : KeyPos} (inside : build.Inside key) :
    Settles build fw
      (fun value after => value = fw.layerSwitchGetAction s.world key ∧ after = s)
      (fw.lookUpAction key) s := by
  unfold Firmware.lookUpAction
  refine (settles_lookup inside).bind ?_
  rintro _ _ rfl
  exact settles_ask _

theorem settles_isTapRecord (sited : Sited build record) :
    Settles build fw (fun value after => value = fw.tapRecord s.world record ∧ after = s)
      (fw.isTapRecord record) s := by
  unfold Firmware.isTapRecord Firmware.tapRecord Firmware.switchedAction
  split
  · refine (settles_ask _).bind ?_
    rintro _ _ ⟨rfl, rfl⟩
    exact agrees_pure ⟨rfl, rfl⟩
  · next plain =>
    refine (settles_lookUpAction (sited.inside (not_not.mp plain))).bind ?_
    rintro _ _ ⟨rfl, rfl⟩
    exact agrees_pure ⟨rfl, rfl⟩

end Records

section Actions

variable {build fw} {s : Statics World} {record : Record} {action : Action}
  {again : Record → Prog World Record}

/-- What is left of a record has its keycode or lies inside, and all is ready. -/
abbrev Leaves (build : Build) (left : Record) (after : Statics World) : Prop :=
  Sited build left ∧ Ready build after

theorem settles_modTapKeycode (ready : Ready build s)
    (asked : build.ignoreModTapInterruptPerKey = true → build.Inside record.key) :
    Settles build fw (fun _ after => Ready build after) (fw.modTapKeycode build record) s := by
  unfold Firmware.modTapKeycode
  split
  · next perKey => exact settles_getEventKeycode (asked perKey) ready _
  · exact agrees_pure ready

/-- What is left of a record is where it was, or inside the matrix. -/
def Near (build : Build) (record left : Record) : Prop :=
  Sited build left ∧ (left.key = record.key ∨ build.Inside left.key)

theorem settles_leaveRecord (sited : Sited build record) (ready : Ready build s)
    (calm : ¬AsksOutside build record action) :
    Settles build fw (fun left after => Near build record left ∧ Ready build after)
      (fw.leaveRecord build record action) s := by
  unfold Firmware.leaveRecord
  split
  · next modTap =>
    have asked (perKey : build.ignoreModTapInterruptPerKey = true) : build.Inside record.key := by
      by_contra outside
      exact calm ⟨outside, .inl ⟨perKey, modTap⟩⟩
    refine (settles_modTapKeycode ready asked).bind ?_
    intro keycode after ready
    refine (settles_ask _).bind ?_
    rintro _ _ ⟨rfl, rfl⟩
    refine agrees_pure ⟨?_, ready⟩
    split <;> exact ⟨sited, .inl rfl⟩
  · refine agrees_pure ⟨?_, ready⟩
    split
    · exact ⟨sited_noRecord, .inr inside_origin⟩
    · exact ⟨sited, .inl rfl⟩

theorem settles_retroTapping {left : Record} (ready : Ready build s)
    (near : Near build record left) (calm : ¬AsksOutside build record action) :
    Settles build fw (fun _ after => Ready build after)
      (fw.retroTapping build record left action) s := by
  unfold Firmware.retroTapping
  split
  · next retro =>
    rw [Bool.and_eq_true] at retro
    have inside : build.Inside left.key := by
      by_contra outside
      have same : left.key = record.key := near.2.resolve_right outside
      exact calm ⟨same ▸ outside, .inr retro⟩
    refine (settles_getEventKeycode inside ready _).bind ?_
    intro keycode after ready
    exact settles_change _ ready
  · exact agrees_pure ready

theorem settles_releaseOneshot {left : Record}
    (again_settles : ∀ record s, Sited build record → Ready build s →
      Settles build fw (Leaves build) (again record) s)
    (doReleaseOneshot : Bool) (sited : Sited build left) (ready : Ready build s) :
    Settles build fw (Leaves build) (fw.releaseOneshot again doReleaseOneshot left) s := by
  unfold Firmware.releaseOneshot
  refine (settles_ask _).bind ?_
  rintro pressed _ ⟨-, rfl⟩
  split
  · refine (settles_change _ ready).bind ?_
    intro _ after ready
    have release := again_settles { left with event := { left.event with pressed := false } } after
      sited ready
    refine release.bind ?_
    rintro left after ⟨sited, ready⟩
    refine (settles_change _ ready).bind ?_
    intro _ after ready
    exact agrees_pure ⟨sited, ready⟩
  · exact agrees_pure ⟨sited, ready⟩

theorem inside_of_getEventKeycode {event : KeyEvent} {updateLayerCache : Bool}
    (respects : Respects (LooksInside build) (fw.getEventKeycode event updateLayerCache) s) :
    build.Inside event.key := by
  simp only [Firmware.getEventKeycode, respects_bind, respects_mark] at respects
  exact respects.1

theorem leaveRecord_of_retroTap (retro : Firmware.isRetroTap record action = true) :
    fw.leaveRecord build record action = pure record := by
  simp only [Firmware.isRetroTap, Bool.and_eq_true, Bool.not_eq_true', decide_eq_true_eq] at retro
  obtain ⟨⟨-, released⟩, untapped⟩ := retro
  have noPress : Firmware.isModTapPress record action = false := by
    simp [Firmware.isModTapPress, released]
  have noReset : Tapping.Firmware.resetsTap record.toKeyRecord action = false := by
    simp [Tapping.Firmware.resetsTap, untapped]
  simp [Firmware.leaveRecord, noPress, noReset]

/-- An action that asks for a keycode outside of the matrix looks up a position
outside of it. -/
theorem processAction_asks (asks : AsksOutside build record action) :
    ¬Respects (LooksInside build) (fw.processAction build again record action) s := by
  intro respects
  obtain ⟨outside, ⟨perKey, modTap⟩ | ⟨perKey, retro⟩⟩ := asks
  · simp only [Firmware.processAction, respects_bind] at respects
    obtain ⟨-, -, -, -, leaves, -⟩ := respects
    simp only [Firmware.leaveRecord, modTap, ↓reduceIte, respects_bind, Firmware.modTapKeycode,
      perKey] at leaves
    exact outside (inside_of_getEventKeycode leaves.1)
  · simp only [Firmware.processAction, leaveRecord_of_retroTap retro, respects_bind, value_pure]
      at respects
    obtain ⟨-, -, -, -, -, -, taps, -⟩ := respects
    simp only [Firmware.retroTapping, perKey, retro, Bool.and_self, ↓reduceIte, respects_bind]
      at taps
    exact outside (inside_of_getEventKeycode taps.1)

theorem settles_processAction
    (again_settles : ∀ record s, Sited build record → Ready build s →
      Settles build fw (Leaves build) (again record) s)
    (sited : Sited build record) (ready : Ready build s) :
    Settles build fw (Leaves build) (fw.processAction build again record action) s := by
  by_cases asks : AsksOutside build record action
  · refine .inr ⟨processAction_asks asks, ?_⟩
    intro respects
    simp only [Firmware.processAction, respects_bind, respects_mark] at respects
    exact respects.1 asks
  have called : Settles build fw (fun _ after => after = s) (mark (.processAction record action)) s :=
    settles_mark trivial asks
  unfold Firmware.processAction
  refine called.bind ?_
  rintro _ _ rfl
  refine (settles_ask _).bind ?_
  rintro uses _ ⟨-, rfl⟩
  refine (settles_change _ ready).bind ?_
  intro _ after ready
  refine (settles_ask _).bind ?_
  rintro doReleaseOneshot _ ⟨-, rfl⟩
  refine (settles_leaveRecord sited ready asks).bind ?_
  rintro left after ⟨near, ready⟩
  refine (settles_change _ ready).bind ?_
  intro _ after ready
  refine (settles_retroTapping ready near asks).bind ?_
  intro _ after ready
  exact settles_releaseOneshot again_settles doReleaseOneshot near.1 ready

theorem settles_storedAction (sited : Sited build record) (ready : Ready build s) :
    Settles build fw (fun _ after => Ready build after) (fw.storedAction record) s := by
  unfold Firmware.storedAction
  split
  · refine (settles_ask _).mono ?_
    rintro _ _ ⟨-, rfl⟩
    exact ready
  · next plain =>
    refine (settles_lookup (sited.inside (not_not.mp plain))).bind ?_
    rintro _ _ rfl
    exact settles_call _ ready

/-- `process_record` for a record that is processed by its own calls in the same
way. -/
theorem settles_processRecordBody
    (again_settles : ∀ record s, Sited build record → Ready build s →
      Settles build fw (Leaves build) (again record) s)
    (sited : Sited build record) (ready : Ready build s) :
    Settles build fw (Leaves build) (fw.processRecordBody build again record) s := by
  unfold Firmware.processRecordBody
  split
  · exact agrees_pure ⟨sited, ready⟩
  refine (settles_getRecordKeycode sited ready _).bind ?_
  intro keycode after ready
  refine (settles_call _ ready).bind ?_
  intro passOn after ready
  split
  · unfold Firmware.processRecordHandler
    refine Agrees.bind ((settles_storedAction sited ready).bind ?_ :
      Settles build fw (Leaves build) _ after) ?_
    · intro action after ready
      exact settles_processAction again_settles sited ready
    rintro left after ⟨sited, ready⟩
    refine (settles_getRecordKeycode sited ready _).bind ?_
    intro keycode after ready
    refine (settles_change _ ready).bind ?_
    intro _ after ready
    exact agrees_pure ⟨sited, ready⟩
  · refine (settles_change _ ready).bind ?_
    intro _ after ready
    exact agrees_pure ⟨sited, ready⟩

theorem settles_processRecord (sited : Sited build record) (ready : Ready build s) :
    Settles build fw (Leaves build) (fw.processRecord build record) s := by
  refine settles_processRecordBody ?_ sited ready
  intro record s sited ready
  refine settles_processRecordBody ?_ sited ready
  intro record s sited ready
  exact agrees_pure ⟨sited, ready⟩

end Actions

section Tapping

variable {build fw} {s : Statics World} {keyp : Record}

/-- The verdict is on a record that is sited like the one given, and all is ready. -/
abbrev Judges (build : Build) (keyp : Record) (verdict : Record × Bool) (after : Statics World) :
    Prop :=
  (Sited build keyp → Sited build verdict.1) ∧ Offered build verdict.1 ∧ Ready build after

theorem settles_consume (offered : Offered build keyp) (ready : Ready build s) :
    Settles build fw (Judges build keyp) (fw.consume build keyp) s := by
  unfold Firmware.consume
  cases event : isNoEvent keyp.event with
  | true =>
    unfold Firmware.processRecord Firmware.processRecordBody
    rw [if_pos event]
    exact agrees_pure ⟨id, offered, ready⟩
  | false =>
    refine (settles_processRecord (offered.sited event) ready).bind ?_
    rintro left after ⟨sited, ready⟩
    exact agrees_pure ⟨fun _ => sited, .inl sited, ready⟩

theorem settles_processTappingKey (ready : Ready build s) :
    Settles build fw (fun _ after => Ready build after) (fw.processTappingKey build) s := by
  unfold Firmware.processTappingKey
  refine settles_getState.bind ?_
  rintro _ s ⟨rfl, rfl⟩
  refine (settles_processRecord ready.tappingKey ready).bind ?_
  rintro left after ⟨sited, ready⟩
  refine (settles_modify _).mono ?_
  rintro _ _ rfl
  exact ⟨sited, ready.waiting⟩

theorem settles_tapOnce (ready : Ready build s) :
    Settles build fw (fun _ after => Ready build after) (fw.tapOnce build) s := by
  unfold Firmware.tapOnce
  refine (settles_modify _).bind ?_
  rintro _ _ rfl
  exact settles_processTappingKey ⟨ready.tappingKey, ready.waiting⟩

theorem settles_endTapping (ready : Ready build s) :
    Settles build fw (fun _ after => Ready build after) (fw.endTapping build) s := by
  unfold Firmware.endTapping
  refine (settles_processTappingKey ready).bind ?_
  intro _ after ready
  refine (settles_modify _).mono ?_
  rintro _ _ rfl
  exact ⟨sited_noRecord, ready.waiting⟩

theorem settles_isTapRelease (ready : Ready build s) (waiting : Record) :
    Settles build fw (fun _ after => after = s) (fw.isTapRelease build waiting) s := by
  unfold Firmware.isTapRelease
  refine settles_getState.bind ?_
  rintro _ s ⟨rfl, rfl⟩
  split
  · exact (settles_withinTappingTerm ready _).mono fun _ _ holds => holds.2
  · exact agrees_pure rfl

theorem settles_scanTap (ready : Ready build s) {waiting : List Record}
    (sited : ∀ record ∈ waiting, Sited build record) :
    Settles build fw (fun counted after => after = s ∧
      ∀ records, counted = some records → ∀ record ∈ records, Sited build record)
      (fw.scanTap build waiting) s := by
  induction waiting with
  | nil => exact agrees_pure ⟨rfl, fun _ found => (by cases found)⟩
  | cons record rest ih =>
    obtain ⟨first, later⟩ := List.forall_mem_cons.mp sited
    unfold Firmware.scanTap
    refine (settles_isTapRelease ready record).bind ?_
    rintro found _ rfl
    split
    · refine agrees_pure ⟨rfl, ?_⟩
      rintro _ ⟨⟩
      exact List.forall_mem_cons.mpr ⟨first, later⟩
    · refine (ih later).bind ?_
      rintro counted _ ⟨rfl, counts⟩
      refine agrees_pure ⟨rfl, ?_⟩
      intro records found
      obtain ⟨others, rfl, rfl⟩ := Option.map_eq_some_iff.mp found
      exact List.forall_mem_cons.mpr ⟨first, counts others rfl⟩

theorem settles_waitingBufferScanTap (ready : Ready build s) :
    Settles build fw (fun _ after => Ready build after) (fw.waitingBufferScanTap build) s := by
  unfold Firmware.waitingBufferScanTap
  refine settles_getState.bind ?_
  rintro _ s ⟨rfl, rfl⟩
  split
  · exact agrees_pure ready
  refine (settles_scanTap ready ready.waiting).bind ?_
  rintro counted _ ⟨rfl, counts⟩
  cases counted with
  | none => exact agrees_pure ready
  | some records =>
    refine (settles_modify _).bind ?_
    rintro _ _ rfl
    exact settles_tapOnce ⟨ready.tappingKey, counts records rfl⟩

theorem settles_startTapping (sited : Sited build keyp) (ready : Ready build s) :
    Settles build fw (fun _ after => Ready build after) (fw.startTapping build keyp) s := by
  unfold Firmware.startTapping
  refine (settles_modify _).bind ?_
  rintro _ _ rfl
  exact settles_waitingBufferScanTap ⟨sited, ready.waiting⟩

theorem Ready.interrupt (ready : Ready build s) : Ready build s.interrupt :=
  ⟨ready.tappingKey, ready.waiting⟩

theorem settles_processUnresolved (offered : Offered build keyp) (ready : Ready build s)
    (pressed : s.isTappingPressed = true) (untapped : s.tappingKey.tap.count = 0)
    (within : fw.isWithinTerm s keyp.event = true) (calm : ¬Escapes build fw s keyp) :
    Settles build fw (Judges build keyp) (fw.processUnresolved build keyp) s := by
  unfold Firmware.processUnresolved
  refine settles_getState.bind ?_
  rintro _ s ⟨rfl, rfl⟩
  split
  · refine (settles_tapOnce ready).bind ?_
    intro _ after ready
    refine settles_getState.bind ?_
    rintro _ s ⟨rfl, rfl⟩
    exact agrees_pure ⟨id, offered, ready⟩
  next other =>
  split
  · refine (settles_endTapping ready).bind ?_
    intro _ after ready
    exact agrees_pure ⟨id, offered, ready⟩
  next unnested =>
  split
  · next early =>
    have inside : build.Inside keyp.key := by
      by_contra outside
      exact calm ⟨outside, .inl ⟨pressed, untapped, within, other, unnested, early⟩⟩
    refine (settles_lookUpAction inside).bind ?_
    rintro action _ ⟨-, rfl⟩
    split
    · exact agrees_pure ⟨id, offered, ready⟩
    · exact settles_consume offered ready
  split
  · refine (settles_modify _).bind ?_
    rintro _ _ rfl
    split
    · refine (settles_endTapping ready.interrupt).bind ?_
      intro _ after ready
      exact agrees_pure ⟨id, offered, ready⟩
    · exact agrees_pure ⟨id, offered, ready.interrupt⟩
  · exact agrees_pure ⟨id, offered, ready⟩

/-- The tapping key's own release has its keycode and its position. -/
theorem Ready.sited_own (ready : Ready build s) (own : s.isTappingRecord keyp = true) :
    Sited build keyp := by
  simp only [Statics.isTappingRecord, Statics.isTappingKey, Bool.and_eq_true,
    decide_eq_true_eq] at own
  obtain ⟨⟨-, key⟩, keycode⟩ := own
  have sited := ready.tappingKey
  unfold Sited at *
  rwa [key, keycode] at sited

theorem settles_releaseLastTap (ready : Ready build s) (other : Record) :
    Settles build fw (fun _ after => Ready build after) (fw.releaseLastTap build s other) s := by
  unfold Firmware.releaseLastTap
  split
  · have sited : Sited build (Firmware.lastTapRelease s other) := ready.tappingKey
    refine (settles_processRecord sited ready).bind ?_
    rintro _ after ⟨-, ready⟩
    exact agrees_pure ready
  · exact agrees_pure ready

theorem settles_processTapped (ready : Ready build s) (pressed : s.isTappingPressed = true)
    (tapped : s.tappingKey.tap.count ≠ 0) (calm : ¬Escapes build fw s keyp) (within : Bool) :
    Settles build fw (Judges build keyp) (fw.processTapped build within keyp) s := by
  unfold Firmware.processTapped
  refine settles_getState.bind ?_
  rintro _ s ⟨rfl, rfl⟩
  split
  · next own =>
    rw [Bool.and_eq_true] at own
    have sited : Sited build { keyp with tap := s.tappingKey.tap } := ready.sited_own own.1
    refine (settles_processRecord sited ready).bind ?_
    rintro left after ⟨sited, ready⟩
    refine (settles_modify _).bind ?_
    rintro _ _ rfl
    refine agrees_pure ⟨fun _ => sited, .inl sited, ?_, ready.waiting⟩
    dsimp only
    split
    · exact sited
    · exact sited_noRecord
  next other =>
  have sited : Sited build keyp := by
    by_contra unsited
    obtain ⟨plain, outside⟩ := not_or.mp unsited
    exact calm ⟨outside, .inr (.inl ⟨pressed, tapped, other, not_not.mp plain⟩)⟩
  refine (settles_isTapRecord sited).bind ?_
  rintro taps s ⟨-, rfl⟩
  split
  · refine (settles_releaseLastTap ready keyp).bind ?_
    intro _ after ready
    refine (settles_startTapping sited ready).bind ?_
    intro _ after ready
    exact agrees_pure ⟨id, .inl sited, ready⟩
  · exact settles_consume (.inl sited) ready

theorem settles_processReleased (offered : Offered build keyp) (ready : Ready build s) :
    Settles build fw (Judges build keyp) (fw.processReleased build keyp) s := by
  unfold Firmware.processReleased
  refine settles_getState.bind ?_
  rintro _ s ⟨rfl, rfl⟩
  split
  · next pressed =>
    have sited := offered.sited_of_pressed pressed
    split
    · split
      · refine Agrees.bind (settles_processRecord (?_ : Sited build _) ready) ?_
        · exact sited
        rintro left after ⟨sited, ready⟩
        refine (settles_modify _).bind ?_
        rintro _ _ rfl
        exact agrees_pure ⟨fun _ => sited, .inl sited, sited, ready.waiting⟩
      · refine (settles_modify _).bind ?_
        rintro _ _ rfl
        exact agrees_pure ⟨id, offered, sited, ready.waiting⟩
    · refine (settles_isTapRecord sited).bind ?_
      rintro taps s ⟨-, rfl⟩
      split
      · refine (settles_startTapping sited ready).bind ?_
        intro _ after ready
        exact agrees_pure ⟨id, offered, ready⟩
      · refine (settles_modify _).bind ?_
        rintro _ _ rfl
        exact settles_consume offered ready.interrupt
  · exact settles_consume offered ready

theorem settles_processNotTapping (offered : Offered build keyp) (ready : Ready build s)
    (idle : ¬s.isTappingPressed ∧ ¬s.isTappingReleased) (calm : ¬Escapes build fw s keyp) :
    Settles build fw (Judges build keyp) (fw.processNotTapping build keyp) s := by
  unfold Firmware.processNotTapping
  split
  · next pressed =>
    have sited := offered.sited_of_pressed pressed
    refine (settles_isTapRecord sited).bind ?_
    rintro taps s ⟨isTap, rfl⟩
    split
    · next starts =>
      have inside : build.Inside keyp.key := by
        by_contra outside
        exact calm ⟨outside, .inr (.inr ⟨idle.1, idle.2, pressed, isTap ▸ starts⟩)⟩
      refine (settles_modify _).bind ?_
      rintro _ _ rfl
      have taken : Ready build { s with tappingKey := keyp } := ⟨sited, ready.waiting⟩
      refine Agrees.bind (?_ : Settles build fw (fun _ after => Ready build after)
        (fw.processRecordTapHint keyp) _) ?_
      · unfold Firmware.processRecordTapHint
        refine (settles_lookUpAction inside).bind ?_
        rintro action _ ⟨-, rfl⟩
        exact settles_change _ taken
      · intro _ after ready
        refine (settles_waitingBufferScanTap ready).bind ?_
        intro _ after ready
        exact agrees_pure ⟨id, offered, ready⟩
    · exact settles_consume offered ready
  · exact settles_consume offered ready

theorem inside_of_lookUpAction {key : KeyPos}
    (respects : Respects (LooksInside build) (fw.lookUpAction key) s) : build.Inside key := by
  simp only [Firmware.lookUpAction, respects_bind, respects_mark] at respects
  exact respects.1

theorem inside_of_isTapRecord (plain : keyp.keycode = 0)
    (respects : Respects (LooksInside build) (fw.isTapRecord keyp) s) : build.Inside keyp.key := by
  simp only [Firmware.isTapRecord, Firmware.switchedAction, plain, ne_eq, not_true_eq_false,
    ↓reduceIte, respects_bind] at respects
  exact inside_of_lookUpAction respects.1

/-- `process_tapping` looks up a record outside of the matrix. -/
theorem processTapping_escapes (offered : Offered build keyp) (ready : Ready build s)
    (escapes : Escapes build fw s keyp) :
    ¬Respects (LooksInside build) (fw.processTapping build keyp) s := by
  intro respects
  simp only [Firmware.processTapping, respects_bind, value_getState, after_getState, after_mark]
    at respects
  obtain ⟨-, -, asked, respects⟩ := respects
  have same : (fw.tappingKeycode build.tappingPerKey).after s = s :=
    (settles_tappingKeycode ready _).holds asked
  rw [same] at respects
  obtain ⟨outside, escapes⟩ := escapes
  rcases escapes with ⟨pressed, untapped, within, other, unnested, early⟩ |
    ⟨pressed, tapped, other, plain⟩ | ⟨unpressed, unreleased, pressed, isTap⟩
  · simp only [pressed, ↓reduceIte, respects_bind] at respects
    have term : (fw.withinTappingTerm build keyp.event).value s = fw.isWithinTerm s keyp.event ∧
        (fw.withinTappingTerm build keyp.event).after s = s :=
      (settles_withinTappingTerm ready _).holds respects.1
    simp only [term.1, term.2, untapped, within, ↓reduceIte, Firmware.processUnresolved,
      respects_bind, value_getState, after_getState, other, unnested, early,
      Bool.false_eq_true] at respects
    exact outside (inside_of_lookUpAction respects.2.2.1)
  · simp only [pressed, ↓reduceIte, respects_bind] at respects
    have term : (fw.withinTappingTerm build keyp.event).value s = fw.isWithinTerm s keyp.event ∧
        (fw.withinTappingTerm build keyp.event).after s = s :=
      (settles_withinTappingTerm ready _).holds respects.1
    simp only [term.1, term.2, tapped, ↓reduceIte, Firmware.processTapped,
      respects_bind, value_getState, after_getState, other, Bool.false_eq_true] at respects
    exact outside (inside_of_isTapRecord plain respects.2.2.1)
  · have sited := offered.sited_of_pressed pressed
    simp only [unpressed, unreleased, pressed, ↓reduceIte, respects_bind, Bool.false_eq_true,
      Firmware.processNotTapping] at respects
    have taps : (fw.isTapRecord keyp).value s = fw.tapRecord s.world keyp ∧
        (fw.isTapRecord keyp).after s = s := (settles_isTapRecord sited).holds respects.1
    simp only [taps.1, taps.2, isTap, ↓reduceIte, respects_bind, after_modify,
      Firmware.processRecordTapHint] at respects
    exact outside (inside_of_lookUpAction respects.2.2.1.1)

theorem settles_processTapping (offered : Offered build keyp) (ready : Ready build s) :
    Settles build fw (Judges build keyp) (fw.processTapping build keyp) s := by
  by_cases escapes : Escapes build fw s keyp
  · refine .inr ⟨processTapping_escapes offered ready escapes, ?_⟩
    intro respects
    simp only [Firmware.processTapping, respects_bind, respects_mark] at respects
    exact respects.2.1 escapes
  have called : Settles build fw (fun _ after => after = s) (mark (.processTapping s keyp)) s :=
    settles_mark trivial escapes
  unfold Firmware.processTapping
  refine settles_getState.bind ?_
  rintro _ s ⟨rfl, rfl⟩
  refine called.bind ?_
  rintro _ _ rfl
  refine (settles_tappingKeycode ready _).bind ?_
  rintro _ _ rfl
  split
  · next pressed =>
    refine (settles_withinTappingTerm ready _).bind ?_
    rintro within _ ⟨isWithin, rfl⟩
    split
    · next untapped =>
      split
      · next inTerm =>
        exact settles_processUnresolved offered ready pressed untapped (isWithin ▸ inTerm) escapes
      · refine (settles_endTapping ready).bind ?_
        intro _ after ready
        exact agrees_pure ⟨id, offered, ready⟩
    · next tapped => exact settles_processTapped ready pressed tapped escapes within
  next unpressed =>
  split
  · refine (settles_withinTappingTerm ready _).bind ?_
    rintro within _ ⟨-, rfl⟩
    split
    · exact settles_processReleased offered ready
    · refine (settles_modify _).bind ?_
      rintro _ _ rfl
      exact agrees_pure ⟨id, offered, sited_noRecord, ready.waiting⟩
  · next unreleased =>
    exact settles_processNotTapping offered ready ⟨unpressed, unreleased⟩ escapes

theorem Ready.waitingBufferEnq (ready : Ready build s) {record : Record}
    (offered : Offered build record) : Ready build (fw.waitingBufferEnq s record) := by
  unfold Firmware.waitingBufferEnq
  split
  · exact ready
  next event =>
  split
  · exact ⟨sited_noRecord, fun _ member => (by cases member)⟩
  · refine ⟨ready.tappingKey, ?_⟩
    intro waiting member
    rcases List.mem_append.mp member with old | new
    · exact ready.waiting waiting old
    · rw [List.mem_singleton.mp new]
      exact offered.sited (Bool.not_eq_true _ ▸ event)

theorem settles_drain (ready : Ready build s) (steps : Nat) :
    Settles build fw (fun _ after => Ready build after) (fw.drain build steps) s := by
  induction steps generalizing s with
  | zero => exact agrees_pure ready
  | succ steps ih =>
    unfold Firmware.drain
    refine settles_getState.bind ?_
    rintro _ s ⟨rfl, rfl⟩
    cases waits : s.waitingBuffer with
    | nil => exact agrees_pure ready
    | cons waiting rest =>
      have sited : Sited build waiting := ready.waiting waiting (by simp [waits])
      refine (settles_processTapping (.inl sited) ready).bind ?_
      rintro verdict after ⟨keeps, -, ready⟩
      split
      · refine (settles_modify _).bind ?_
        rintro _ _ rfl
        exact ih ⟨ready.tappingKey, fun record member =>
          ready.waiting record (List.mem_of_mem_tail member)⟩
      · refine (settles_modify _).mono ?_
        rintro _ _ rfl
        refine ⟨ready.tappingKey, List.forall_mem_cons.mpr ⟨keeps sited, ?_⟩⟩
        exact fun record member => ready.waiting record (List.mem_of_mem_tail member)

theorem settles_actionTappingProcess (offered : Offered build keyp) (ready : Ready build s) :
    Settles build fw (fun _ after => Ready build after) (fw.actionTappingProcess build keyp) s := by
  unfold Firmware.actionTappingProcess
  refine (settles_processTapping offered ready).bind ?_
  rintro verdict after ⟨-, offered, ready⟩
  refine (settles_modify _).bind ?_
  rintro _ _ rfl
  refine settles_getState.bind ?_
  rintro _ s ⟨rfl, rfl⟩
  refine settles_drain ?_ _
  split
  · exact ready
  · exact ready.waitingBufferEnq offered

end Tapping

end QmkSonix.Combo
