import QmkSonix.Rgblight.Modes

/-! Blinking layers: what one running blink does to its layer, and the runs in which no
blink is started while another one is running. -/

namespace QmkSonix.Rgblight

open QmkSonix.Lib

variable {cfg : Config}

section Layers

/-- What the layers and blinks consist of. -/
def State.layers (s : State cfg) :
    BitVec cfg.maskWidth × BitVec cfg.maskWidth × Byte × BitVec 16 × BitVec 16 :=
  (s.enabledLayerMask, s.blinkingLayerMask, s.timesRemaining, s.repeatTimer, s.dur)

theorem eeconfigUpdate_layers (s : State cfg) :
    (eeconfigUpdateRgblightCurrent s).layers = s.layers := by
  unfold eeconfigUpdateRgblightCurrent
  split <;> rfl

theorem sethsv_layers (s : State cfg) (hue sat val : Byte) (write : Bool) :
    (rgblightSethsvEepromHelper s hue sat val write).layers = s.layers := by
  unfold rgblightSethsvEepromHelper
  split
  · dsimp only
    split
    · exact eeconfigUpdate_layers _
    · rfl
  · rfl

/-- A change of the mode does not touch the layers. -/
theorem modeHelper_layers (s : State cfg) (mode : Byte) (write : Bool) :
    (rgblightModeEepromHelper s mode write).layers = s.layers := by
  have timed (t : State cfg) : (if cfg.isStaticEffect t.config.modeByte = true then
      rgblightTimerDisable t else rgblightTimerEnable t).layers = t.layers := by
    unfold rgblightTimerEnable rgblightTimerDisable
    split <;> rfl
  unfold rgblightModeEepromHelper
  split
  · rw [sethsv_layers, timed]
    split
    · exact eeconfigUpdate_layers _
    · rfl
  · rfl

theorem layer_eq_twoPow (layer : Nat) :
    (1 : BitVec cfg.maskWidth) <<< layer = BitVec.twoPow cfg.maskWidth layer :=
  (BitVec.twoPow_eq _ _).symm

/-- A layer's bit in a mask. -/
theorem getLsbD_layer {layer : Nat} (inside : layer < cfg.maskWidth) (other : Nat) :
    ((1 : BitVec cfg.maskWidth) <<< layer).getLsbD other = decide (other = layer) := by
  rw [layer_eq_twoPow, BitVec.getLsbD_twoPow]
  simp [inside, eq_comm]

theorem layer_ne_zero {layer : Nat} (inside : layer < cfg.maskWidth) :
    ((1 : BitVec cfg.maskWidth) <<< layer) ≠ 0 := by
  intro zero
  have bit := getLsbD_layer inside layer
  rw [zero] at bit
  simp at bit

theorem layer_injective {layer other : Nat} (inside : layer < cfg.maskWidth)
    (same : (1 : BitVec cfg.maskWidth) <<< layer = (1 : BitVec cfg.maskWidth) <<< other) : other = layer := by
  have bit := getLsbD_layer inside layer
  rw [same, layer_eq_twoPow, BitVec.getLsbD_twoPow] at bit
  simp only [decide_true, Bool.and_eq_true, decide_eq_true_eq] at bit
  exact bit.2

/-- `rgblight_set_layer_state` sets one bit, and touches nothing else of the layers. -/
theorem setLayerState_spec (s : State cfg) {layer : Nat} (inside : layer < cfg.maskWidth)
    (enabled : Bool) :
    let t := rgblightSetLayerState s layer enabled
    (∀ other, t.enabledLayerMask.getLsbD other =
        if other = layer then enabled else s.enabledLayerMask.getLsbD other) ∧
      t.blinkingLayerMask = s.blinkingLayerMask ∧ t.timesRemaining = s.timesRemaining ∧
      t.dur = s.dur := by
  intro t
  obtain ⟨mask, isMask⟩ : ∃ mask, mask = (if enabled then
        s.enabledLayerMask ||| (1 : BitVec cfg.maskWidth) <<< layer
      else s.enabledLayerMask &&& ~~~((1 : BitVec cfg.maskWidth) <<< layer)) := ⟨_, rfl⟩
  have layers : t.layers = ({ s with enabledLayerMask := mask } : State cfg).layers := by
    rw [isMask]
    show (rgblightSetLayerState s layer enabled).layers = _
    unfold rgblightSetLayerState
    dsimp only
    split
    · rfl
    · exact modeHelper_layers _ _ _
  obtain ⟨enabledMask, blinking, times, -, dur⟩ :
      t.enabledLayerMask = mask ∧ t.blinkingLayerMask = s.blinkingLayerMask ∧
        t.timesRemaining = s.timesRemaining ∧ t.repeatTimer = s.repeatTimer ∧ t.dur = s.dur := by
    simpa [State.layers] using layers
  refine ⟨fun other => ?_, blinking, times, dur⟩
  rw [enabledMask, isMask]
  cases enabled with
  | true =>
    rw [if_pos rfl, BitVec.getLsbD_or, getLsbD_layer inside]
    by_cases same : other = layer <;> simp [same]
  | false =>
    rw [if_neg Bool.false_ne_true, BitVec.getLsbD_and, BitVec.getLsbD_not, getLsbD_layer inside]
    by_cases same : other = layer
    · simp [same]
    · by_cases small : other < cfg.maskWidth
      · simp [same, small]
      · simp [same, small, BitVec.getLsbD_of_ge _ _ (Nat.le_of_not_lt small)]

end Layers

section Blinking

/-- The blink of one layer is running: the remaining count is odd while the layer is on. -/
structure Running (layer : Nat) (s : State cfg) : Prop where
  mask : s.blinkingLayerMask = (1 : BitVec cfg.maskWidth) <<< layer
  left : 0 < s.timesRemaining.toNat
  lit : s.enabledLayerMask.getLsbD layer = decide (s.timesRemaining.toNat % 2 = 1)

variable {s : State cfg} {layer : Nat}

theorem blinkLayer_other {clock : Nat → BitVec 16} {other : Nat}
    (still : s.blinkingLayerMask.getLsbD other = false) : blinkLayer clock s other = s := by
  simp [blinkLayer, still]

/-- What a round of the loop does to the layer that blinks. -/
theorem blinkLayer_spec (inside : layer < cfg.maskWidth) (running : Running layer s)
    (clock : Nat → BitVec 16) :
    let t := blinkLayer clock s layer
    t.blinkingLayerMask = s.blinkingLayerMask ∧
      t.timesRemaining.toNat = s.timesRemaining.toNat - 1 ∧
      ∀ other, t.enabledLayerMask.getLsbD other = if other = layer then
        decide (s.timesRemaining.toNat % 2 ≠ 1) else s.enabledLayerMask.getLsbD other := by
  intro t
  have bit : s.blinkingLayerMask.getLsbD layer = true := by
    rw [running.mask, getLsbD_layer inside]
    simp
  have left : (0 : Byte) < s.timesRemaining := running.left
  obtain ⟨bits, blinking, times, -⟩ :=
    setLayerState_spec s inside (decide (s.timesRemaining.toNat % 2 ≠ 1))
  have isT : t = { rgblightSetLayerState s layer (decide (s.timesRemaining.toNat % 2 ≠ 1)) with
      timesRemaining := (rgblightSetLayerState s layer
        (decide (s.timesRemaining.toNat % 2 ≠ 1))).timesRemaining - 1
      repeatTimer := clock layer + (rgblightSetLayerState s layer
        (decide (s.timesRemaining.toNat % 2 ≠ 1))).dur } := if_pos ⟨bit, left⟩
  rw [isT]
  refine ⟨blinking, ?_, bits⟩
  have positive := running.left
  have small := s.timesRemaining.isLt
  show (_ - 1 : Byte).toNat = _
  rw [times, BitVec.toNat_sub]
  have one : (1 : Byte).toNat = 1 := rfl
  rw [one]
  omega

/-- The loop visits only the layer that blinks. -/
theorem foldl_blinkLayer (inside : layer < cfg.maskWidth) (running : Running layer s)
    (clock : Nat → BitVec 16) {layers : List Nat} (distinct : layers.Nodup)
    (member : layer ∈ layers) : layers.foldl (blinkLayer clock) s = blinkLayer clock s layer := by
  have still (t : State cfg) (mask : t.blinkingLayerMask = (1 : BitVec cfg.maskWidth) <<< layer) {rest : List Nat}
      (absent : layer ∉ rest) : rest.foldl (blinkLayer clock) t = t := by
    induction rest with
    | nil => rfl
    | cons first rest ih =>
      obtain ⟨apart, later⟩ := List.ne_and_not_mem_of_not_mem_cons absent
      have off : t.blinkingLayerMask.getLsbD first = false := by
        rw [mask, getLsbD_layer inside]
        simpa using apart.symm
      rw [List.foldl_cons, blinkLayer_other off, ih later]
  induction layers with
  | nil => cases member
  | cons first rest ih =>
    obtain ⟨absent, distinct⟩ := List.nodup_cons.mp distinct
    rw [List.foldl_cons]
    by_cases here : layer = first
    · subst here
      exact still _ ((blinkLayer_spec inside running clock).1.trans running.mask) absent
    · have off : s.blinkingLayerMask.getLsbD first = false := by
        rw [running.mask, getLsbD_layer inside]
        simpa using Ne.symm here
      rw [blinkLayer_other off]
      exact ih distinct (List.mem_of_ne_of_mem here member)

/-- A task waits, or moves the blink on by one. -/
theorem task_running (inside : layer < cfg.maskWidth) (member : layer < cfg.maxLayers)
    (running : Running layer s) (now : BitVec 16) (clock : Nat → BitVec 16) :
    let t := rgblightTask s now clock
    t = s ∨ (t.blinkingLayerMask = (if s.timesRemaining.toNat = 1 then 0 else
        (1 : BitVec cfg.maskWidth) <<< layer) ∧
      t.timesRemaining.toNat = s.timesRemaining.toNat - 1 ∧
      ∀ other, t.enabledLayerMask.getLsbD other = if other = layer then
        decide (s.timesRemaining.toNat % 2 ≠ 1) else s.enabledLayerMask.getLsbD other) := by
  intro t
  by_cases due : s.blinkingLayerMask ≠ 0 ∧ timerExpired now s.repeatTimer = true
  · obtain ⟨mask, times, bits⟩ := blinkLayer_spec inside running clock
    have looped := foldl_blinkLayer inside running clock List.nodup_range (List.mem_range.mpr member)
    have isT : t = if (blinkLayer clock s layer).timesRemaining = 0 then
        { blinkLayer clock s layer with blinkingLayerMask := 0 } else blinkLayer clock s layer := by
      show rgblightBlinkLayerRepeatHelper s now clock = _
      rw [rgblightBlinkLayerRepeatHelper, if_pos due, looped]
    have zero : (blinkLayer clock s layer).timesRemaining = 0 ↔ s.timesRemaining.toNat = 1 := by
      have positive := running.left
      rw [← BitVec.toNat_inj, times]
      have nothing : (0 : Byte).toNat = 0 := rfl
      rw [nothing]
      omega
    right
    by_cases last : s.timesRemaining.toNat = 1
    · rw [isT, if_pos (zero.mpr last), if_pos last]
      exact ⟨rfl, times, bits⟩
    · rw [isT, if_neg fun none => last (zero.mp none), if_neg last]
      exact ⟨mask.trans running.mask, times, bits⟩
  · left
    exact if_neg due

end Blinking

/-- A blink call on some layer, or a task. -/
inductive BlinkEvent (cfg : Config) where
  | blink (layer : Fin cfg.maxLayers) (durationMs : BitVec 16) (times : Byte) (now : BitVec 16)
  | task (now : BitVec 16) (clock : Nat → BitVec 16)

namespace BlinkEvent

def event : BlinkEvent cfg → Event cfg
  | blink layer duration times now => .blinkLayerRepeat layer duration times now
  | task now clock => .task now clock

def exec (s : State cfg) (event : BlinkEvent cfg) : State cfg := Rgblight.exec s event.event

/-- A blink is started when none is running, or anew on the same layer when that has been
turned on for the last time. It is to happen between 1 and 127 times. -/
def allowed (s : State cfg) : BlinkEvent cfg → Prop
  | blink layer _ times _ => (1 ≤ times.toNat ∧ times.toNat ≤ 127) ∧
      (s.blinkingLayerMask = 0 ∨
        s.blinkingLayerMask = (1 : BitVec cfg.maskWidth) <<< layer.val ∧ s.timesRemaining.toNat ≤ 1)
  | task _ _ => True

instance (s : State cfg) : ∀ event, Decidable (allowed s event)
  | blink _ _ _ _ => inferInstanceAs (Decidable (_ ∧ _))
  | task _ _ => isTrue trivial

/-- A call that blinks this layer. -/
def blinks (layer : Nat) : BlinkEvent cfg → Bool
  | blink other _ _ _ => other.val = layer
  | task _ _ => false

end BlinkEvent

/-- The bit of a layer goes on. -/
def lights (layer : Nat) (earlier later : State cfg) : Nat :=
  if earlier.enabledLayerMask.getLsbD layer = false ∧ later.enabledLayerMask.getLsbD layer = true
  then 1 else 0

/-- How often a layer goes on until no layer blinks any more or a blink of it is started
anew, and whether that happens. -/
def relit (layer : Nat) : State cfg → List (BlinkEvent cfg) → Nat × Bool
  | s, [] => (0, s.blinkingLayerMask = 0)
  | s, event :: rest =>
    if s.blinkingLayerMask = 0 ∨ event.blinks layer = true then (0, true)
    else
      let later := relit layer (event.exec s) rest
      (lights layer s (event.exec s) + later.1, later.2)

section Runs

variable {s : State cfg}

theorem width_ge (few : cfg.maxLayers ≤ 32) {layer : Nat} (member : layer < cfg.maxLayers) :
    layer < cfg.maskWidth := by
  unfold Config.maskWidth
  split
  · omega
  · split <;> omega

/-- A blink call starts the blink of its layer. -/
theorem blink_running (few : cfg.maxLayers ≤ 32) (layer : Fin cfg.maxLayers)
    (duration : BitVec 16) (times : Byte) (now : BitVec 16)
    (allows : (BlinkEvent.blink layer duration times now).allowed s) :
    let t := (BlinkEvent.blink layer duration times now).exec s
    Running layer t ∧ t.timesRemaining.toNat = 2 * times.toNat - 1 ∧
      ∀ other, t.enabledLayerMask.getLsbD other =
        if other = layer then true else s.enabledLayerMask.getLsbD other := by
  intro t
  have inside := width_ge few layer.isLt
  obtain ⟨⟨low, high⟩, free⟩ := allows
  obtain ⟨bits, blinking, remaining, -⟩ := setLayerState_spec
    { s with timesRemaining := times * 2, dur := duration } inside true
  have left : t.timesRemaining.toNat = 2 * times.toNat - 1 := by
    show (_ - 1 : Byte).toNat = _
    rw [remaining]
    have one : (1 : Byte).toNat = 1 := rfl
    have two : (2 : Byte).toNat = 2 := rfl
    rw [BitVec.toNat_sub, BitVec.toNat_mul, one, two]
    omega
  have mask : t.blinkingLayerMask = (1 : BitVec cfg.maskWidth) <<< layer.val := by
    show _ ||| _ = _
    rw [blinking]
    rcases free with none | ⟨same, -⟩
    · rw [none]
      exact BitVec.zero_or
    · rw [same, BitVec.or_self]
  refine ⟨⟨mask, by omega, ?_⟩, left, bits⟩
  have lit : t.enabledLayerMask.getLsbD layer = true := by
    rw [show t.enabledLayerMask.getLsbD layer = _ from bits layer, if_pos rfl]
  rw [lit, left, eq_comm, decide_eq_true_eq]
  omega

/-- The rest of a blink turns its layer on every second time. -/
theorem relit_running (few : cfg.maxLayers ≤ 32) {layer : Nat} (member : layer < cfg.maxLayers)
    (running : Running layer s) {events : List (BlinkEvent cfg)}
    (along : Along BlinkEvent.exec BlinkEvent.allowed s events) :
    (relit layer s events).1 ≤ s.timesRemaining.toNat / 2 ∧
      ((relit layer s events).2 = true →
        (relit layer s events).1 = s.timesRemaining.toNat / 2) := by
  have inside := width_ge few member
  induction events generalizing s with
  | nil =>
    have busy : ¬s.blinkingLayerMask = 0 := running.mask ▸ layer_ne_zero inside
    exact ⟨Nat.zero_le _, fun ended => absurd (of_decide_eq_true ended) busy⟩
  | cons event rest ih =>
    have busy : ¬s.blinkingLayerMask = 0 := running.mask ▸ layer_ne_zero inside
    cases event with
    | blink other duration times now =>
      -- Only a call on the same layer is allowed, when the layer is on for the last time.
      obtain ⟨⟨-, free⟩, -⟩ := along
      obtain ⟨same, last⟩ := free.resolve_left busy
      have here : other.val = layer := layer_injective inside (running.mask.symm.trans same)
      have ended : relit layer s (.blink other duration times now :: rest) = (0, true) :=
        if_pos (Or.inr (decide_eq_true here))
      rw [ended]
      simp only
      omega
    | task now clock =>
      obtain ⟨-, later⟩ := along
      have goes : relit layer s (.task now clock :: rest) =
          (lights layer s (BlinkEvent.exec s (.task now clock)) +
            (relit layer (BlinkEvent.exec s (.task now clock)) rest).1,
            (relit layer (BlinkEvent.exec s (.task now clock)) rest).2) := by
        have waits : ¬(s.blinkingLayerMask = 0 ∨
            (BlinkEvent.task now clock : BlinkEvent cfg).blinks layer = true) :=
          not_or.mpr ⟨busy, Bool.false_ne_true⟩
        exact if_neg waits
      rw [goes]
      have positive := running.left
      rcases task_running inside member running now clock with waits | ⟨mask, times, bits⟩
      · have same : BlinkEvent.exec s (.task now clock) = s := waits
        have still : lights layer s s = 0 := by simp [lights]
        rw [same] at later ⊢
        rw [still, Nat.zero_add]
        exact ih running later
      · obtain ⟨t, isT⟩ : ∃ t, t = BlinkEvent.exec s (.task now clock) := ⟨_, rfl⟩
        have lit : lights layer s t = if s.timesRemaining.toNat % 2 = 1 then 0 else 1 := by
          have after : t.enabledLayerMask.getLsbD layer =
              decide (s.timesRemaining.toNat % 2 ≠ 1) := by
            rw [isT]
            exact (bits layer).trans (if_pos rfl)
          rw [lights, running.lit, after]
          by_cases odd : s.timesRemaining.toNat % 2 = 1 <;> simp [odd]
        rw [← isT, lit]
        rw [← isT] at later
        have left : t.timesRemaining.toNat = s.timesRemaining.toNat - 1 := by
          rw [isT]
          exact times
        by_cases last : s.timesRemaining.toNat = 1
        · have none : t.blinkingLayerMask = 0 := by
            rw [isT]
            exact mask.trans (if_pos last)
          have ended : (relit layer t rest).1 = 0 := by
            cases rest with
            | nil => rfl
            | cons next others => rw [relit, if_pos (Or.inl none)]
          rw [ended, last]
          exact ⟨le_refl 0, fun _ => rfl⟩
        · have next : Running layer t := by
            refine ⟨?_, by omega, ?_⟩
            · rw [isT]
              exact mask.trans (if_neg last)
            · rw [left, isT]
              refine (bits layer).trans ((if_pos rfl).trans (decide_eq_decide.mpr ?_))
              omega
          obtain ⟨most, exactly⟩ := ih next later
          rw [left] at most exactly
          refine ⟨?_, fun ended => ?_⟩
          · split <;> simp only <;> omega
          · have done := exactly ended
            split <;> simp only <;> omega

/-- No layer that was off at the start is on, except for the one whose blink is running. -/
def Tidy (start s : State cfg) : Prop :=
  (s.blinkingLayerMask = 0 ∧ ∀ other, start.enabledLayerMask.getLsbD other = false →
      s.enabledLayerMask.getLsbD other = false) ∨
    ∃ layer < cfg.maxLayers, Running layer s ∧ ∀ other, other ≠ layer →
      start.enabledLayerMask.getLsbD other = false → s.enabledLayerMask.getLsbD other = false

theorem tidy_step (few : cfg.maxLayers ≤ 32) {start s : State cfg} (tidy : Tidy start s)
    {event : BlinkEvent cfg} (allows : event.allowed s) : Tidy start (event.exec s) := by
  cases event with
  | blink layer duration times now =>
    obtain ⟨running, -, bits⟩ := blink_running few layer duration times now allows
    refine Or.inr ⟨layer, layer.isLt, running, fun other apart off => ?_⟩
    rw [bits other, if_neg apart]
    rcases tidy with ⟨-, before⟩ | ⟨old, member, oldRunning, before⟩
    · exact before other off
    · have busy : ¬s.blinkingLayerMask = 0 :=
        oldRunning.mask ▸ layer_ne_zero (width_ge few member)
      have same := (allows.2.resolve_left busy).1
      have here := layer_injective (width_ge few member) (oldRunning.mask.symm.trans same)
      exact before other (fun equal => apart (equal.trans here.symm)) off
  | task now clock =>
    rcases tidy with ⟨none, before⟩ | ⟨layer, member, running, before⟩
    · have waits : BlinkEvent.exec s (.task now clock) = s := by
        show rgblightBlinkLayerRepeatHelper s now clock = s
        simp [rgblightBlinkLayerRepeatHelper, none]
      rw [waits]
      exact Or.inl ⟨none, before⟩
    · have inside := width_ge few member
      rcases task_running inside member running now clock with waits | ⟨mask, times, bits⟩
      · have same : BlinkEvent.exec s (.task now clock) = s := waits
        rw [same]
        exact Or.inr ⟨layer, member, running, before⟩
      · have others (other : Nat) (apart : other ≠ layer)
            (off : start.enabledLayerMask.getLsbD other = false) :
            (BlinkEvent.exec s (.task now clock)).enabledLayerMask.getLsbD other = false :=
          (bits other).trans ((if_neg apart).trans (before other apart off))
        by_cases last : s.timesRemaining.toNat = 1
        · refine Or.inl ⟨mask.trans (if_pos last), fun other off => ?_⟩
          by_cases here : other = layer
          · refine (bits other).trans ((if_pos here).trans ?_)
            simp [last]
          · exact others other here off
        · have positive := running.left
          refine Or.inr ⟨layer, member, ⟨mask.trans (if_neg last), ?_, ?_⟩, others⟩
          · rw [show (BlinkEvent.exec s (.task now clock)).timesRemaining.toNat = _ from times]
            omega
          · rw [show (BlinkEvent.exec s (.task now clock)).timesRemaining.toNat = _ from times]
            refine (bits layer).trans ((if_pos rfl).trans (decide_eq_decide.mpr ?_))
            omega

/-- In a run from any state in which no layer blinks, whose blinks are started one after the
other, the layers that were off are off whenever no layer blinks, and a blink call turns
its layer on as often as it says, never more often and, once it has ended, not less. -/
theorem blinks_end_off (few : cfg.maxLayers ≤ 32) (start : State cfg)
    (idle : start.blinkingLayerMask = 0) (events : List (BlinkEvent cfg))
    (along : Along BlinkEvent.exec BlinkEvent.allowed start events) :
    (∀ cut, let s := run BlinkEvent.exec start (events.take cut)
      s.blinkingLayerMask = 0 → ∀ layer, start.enabledLayerMask.getLsbD layer = false →
        s.enabledLayerMask.getLsbD layer = false) ∧
      ∀ before layer duration times now after,
        events = before ++ .blink layer duration times now :: after →
        let s := (BlinkEvent.blink layer duration times now).exec (run BlinkEvent.exec start before)
        s.enabledLayerMask.getLsbD layer = true ∧ 1 + (relit layer s after).1 ≤ times.toNat ∧
          ((relit layer s after).2 = true → 1 + (relit layer s after).1 = times.toNat) := by
  constructor
  · intro cut s none layer off
    have earlier : Along BlinkEvent.exec BlinkEvent.allowed start (events.take cut) := by
      rw [← List.take_append_drop cut events, along_append] at along
      exact along.1
    have keeps (t : State cfg) (event : BlinkEvent cfg) (tidy : Tidy start t)
        (allows : event.allowed t) : Tidy start (BlinkEvent.exec t event) :=
      tidy_step few tidy allows
    have tidy : Tidy start s :=
      run_invariant keeps (Or.inl ⟨idle, fun _ off => off⟩) earlier
    rcases tidy with ⟨-, offs⟩ | ⟨other, member, running, -⟩
    · exact offs layer off
    · exact absurd (running.mask.symm.trans none) (layer_ne_zero (width_ge few member))
  · rintro before layer duration times now after rfl s
    rw [along_append] at along
    obtain ⟨allows, later⟩ := along.2
    obtain ⟨running, left, bits⟩ := blink_running few layer duration times now allows
    have least := allows.1.1
    have half : (2 * times.toNat - 1) / 2 = times.toNat - 1 := by omega
    have relights := relit_running few layer.isLt running later
    rw [left, half] at relights
    obtain ⟨most, exactly⟩ : (relit layer s after).1 ≤ times.toNat - 1 ∧
      ((relit layer s after).2 = true → (relit layer s after).1 = times.toNat - 1) := relights
    refine ⟨?_, ?_, fun ended => ?_⟩
    · exact (bits layer).trans (if_pos rfl)
    · omega
    · have done := exactly ended
      omega

/-- Two layers without any effects. -/
def plainLights : Config where
  effects _ := false
  maxLayers := 2

/-- Layer 1 blinks twice in a run of its own, with a task after every 50 ms. -/
theorem blink_twice :
    let start := powerOn plainLights true 0
    let events : List (BlinkEvent plainLights) := [.blink (1 : Fin 2) 50 2 0, .task 50 fun _ => 50,
      .task 100 fun _ => 100, .task 150 fun _ => 150]
    let s := run BlinkEvent.exec start events
    s.blinkingLayerMask = 0 ∧ s.enabledLayerMask.getLsbD 1 = false := by
  intro start events s
  have ends := blinks_end_off (by decide) start rfl events (by decide +kernel)
  have none : s.blinkingLayerMask = 0 := by decide +kernel
  exact ⟨none, ends.1 4 none 1 (by decide +kernel)⟩

/-- Two layers blink once each at the same time. The first one uses up the count that they
share, and the second one stays on. -/
theorem overlapping_blinks_break :
    let start := powerOn plainLights true 0
    let s := run BlinkEvent.exec start
      [.blink (0 : Fin 2) 50 1 0, .blink (1 : Fin 2) 50 1 10, .task 60 fun _ => 60]
    s.blinkingLayerMask = 0 ∧ start.enabledLayerMask.getLsbD 1 = false ∧
      s.enabledLayerMask.getLsbD 1 = true := by
  decide +kernel

end Runs

end QmkSonix.Rgblight
