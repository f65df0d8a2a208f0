import QmkSonix.RgbMatrix.Idle

/-! What the driver is told to show frame by frame: the matrix goes dark, and an effect that
is new starts with `init`. -/

namespace QmkSonix.RgbMatrix

open QmkSonix.Lib

variable {cfg : Config} {Scratch : Type*} (fx : Effects cfg Scratch)

section Watching

/-- The effect that a task computes, and the setting that goes with it -/
def State.shown (state : State cfg Scratch) : Byte × Byte :=
  (state.effect, state.enable.setWidth 8)

/-- What `rgb_task_flush` has recorded last -/
def State.last (state : State cfg Scratch) : Byte × Byte := (state.lastEffect, state.lastEnable)

/-- How much of a cycle from `STARTING` to `SYNCING` has passed with every task computing
`RGB_MATRIX_NONE`. -/
inductive Cycle where
  | none
  | begun
  | whole
  deriving DecidableEq, Repr

/-- What has been seen of the tasks so far: what the last one computed, whether the effect has
changed since a frame was last rendered, and the cycle. -/
structure Watch where
  seen : Option (Byte × Byte) := none
  changed : Bool := false
  cycle : Cycle := .none
  deriving DecidableEq, Repr

/-- The effect has changed since a frame was last rendered, now or before. -/
def Watch.changesTo (watch : Watch) (effect : Byte) : Bool :=
  watch.changed || watch.seen.any fun seen => seen.1 ≠ effect

/-- A task is seen, with the state behind its timers and the phase that it leaves. -/
def Watch.task (watch : Watch) (timed : State cfg Scratch) (phase : TaskState) : Watch where
  seen := some timed.shown
  changed := watch.changesTo timed.effect && timed.taskState ≠ .rendering
  cycle :=
    if timed.effect ≠ 0 then .none
    else
      match watch.cycle with
      | .none => if timed.taskState = .starting then .begun else .none
      | .begun => if phase = .syncing then .whole else .begun
      | .whole => .whole

/-- A matrix that is watched. -/
structure Watched (cfg : Config) (Scratch : Type*) where
  state : State cfg Scratch
  watch : Watch := {}

def watchedStep (watched : Watched cfg Scratch) (event : Event) : Watched cfg Scratch where
  state := step fx watched.state event
  watch :=
    match event with
    | .task reads =>
      watched.watch.task (rgbTaskTimers watched.state reads) (step fx watched.state event).taskState
    | _ => watched.watch

/-- Behind a whole cycle without an effect the driver shows nothing, and a frame that is the
first to be rendered since the effect has changed gets `init`. -/
def Shows (watched : Watched cfg Scratch) (event : Event) : Prop :=
  ((watchedStep fx watched event).watch.cycle = .whole →
    (watchedStep fx watched event).state.flushed = setColorAll cfg .off) ∧
  match event with
  | .task reads =>
    (rgbTaskTimers watched.state reads).taskState = .rendering →
      watched.watch.changesTo (rgbTaskTimers watched.state reads).effect = true →
      (step fx watched.state event).effectParams.init = true
  | _ => True

/-- A flush finds the effect that its frame was rendered with, and the effect and its setting
do not change to those of the last flush. -/
def Steady (watched : Watched cfg Scratch) : Event → Prop
  | .task reads =>
    let timed := rgbTaskTimers watched.state reads
    (timed.taskState = .flushing → watched.watch.seen.map Prod.fst = some timed.effect) ∧
      (watched.watch.seen ≠ some timed.shown → timed.shown ≠ timed.last)
  | _ => True

instance (watched : Watched cfg Scratch) (event : Event) : Decidable (Steady watched event) :=
  match event with
  | .task _ => inferInstanceAs (Decidable ((_ → _) ∧ (_ → _)))
  | .key _ _ _ _ | .toggle | .enable | .disable | .mode _ | .step | .stepReverse | .flags _ =>
    isTrue trivial

end Watching

section Phases

/-- What rendering leaves: only a dark frame goes to `FLUSHING` without an effect, and only
one without `init` goes on to `SYNCING`. -/
structure Rendered (state after : State cfg Scratch) : Prop where
  last : after.last = state.last
  flushed : after.flushed = state.flushed
  init : after.effectParams.init = state.renderInit state.effect
  phase : after.taskState = .rendering ∨ after.taskState = .flushing ∨
    after.taskState = .syncing ∧ state.effect = 0 ∧ state.renderInit state.effect = false
  dark : after.taskState = .flushing → state.effect = 0 → after.colors = setColorAll cfg .off

theorem rendered_none {state : State cfg Scratch} (none : state.effect = 0) :
    Rendered state (rgbTaskRender fx state state.effect) := by
  have other : ¬ (0 : Byte) = 255 := by decide
  rw [none]
  unfold rgbTaskRender
  simp only [if_neg other, runEffect, if_true, rgbMatrixNone, Bool.false_eq_true, if_false,
    decide_true, Bool.and_true]
  have init : (state.prepared 0).effectParams.init = state.renderInit 0 := rfl
  rw [init]
  cases fresh : state.renderInit 0 with
  | true =>
    exact ⟨rfl, rfl, by rw [none, fresh], .inr (.inl rfl), fun _ _ => rfl⟩
  | false =>
    exact ⟨rfl, rfl, by rw [none, fresh], .inr (.inr ⟨rfl, none, by rw [none, fresh]⟩),
      fun flushing => nomatch flushing⟩

theorem rendered_some {state : State cfg Scratch} (rendering : state.taskState = .rendering)
    (some : state.effect ≠ 0) : Rendered state (rgbTaskRender fx state state.effect) := by
  unfold rgbTaskRender
  dsimp only
  split
  · exact ⟨rfl, rfl, rfl, .inr (.inl rfl), fun _ none => absurd none some⟩
  · refine ⟨rfl, rfl, rfl, ?_, fun _ none => absurd none some⟩
    dsimp only
    split
    · exact .inl rendering
    · simp only [some, decide_false, Bool.and_false, Bool.false_eq_true, if_false, true_or, or_true]

theorem rendered_runPhase {state : State cfg Scratch} (rendering : state.taskState = .rendering)
    (reads : Reads) : Rendered state (runPhase fx state reads) := by
  unfold runPhase
  rw [rendering]
  dsimp only
  by_cases none : state.effect = 0
  · rw [if_pos none]
    exact rendered_none fx none
  · rw [if_neg none]
    obtain ⟨last, flushed, init, phase, -⟩ := rendered_some fx rendering none
    exact ⟨last, flushed, init, phase, fun _ zero => absurd zero none⟩

end Phases

section Invariant

/-- What steps under `Steady` keep. -/
structure Kept (watched : Watched cfg Scratch) : Prop where
  /-- A flush without an effect has shown nothing. -/
  recorded : watched.state.lastEffect = 0 → watched.state.flushed = setColorAll cfg .off
  /-- A frame that waits for its flush was rendered by the last task. -/
  pending : watched.state.taskState = .flushing → ∃ shown, watched.watch.seen = some shown ∧
    (shown.1 = 0 → watched.state.colors = setColorAll cfg .off)
  begun : watched.watch.cycle = .begun → watched.state.taskState ≠ .syncing
  whole : watched.watch.cycle = .whole → watched.state.flushed = setColorAll cfg .off
  /-- A change that no frame was rendered for is one from what was flushed last. -/
  changed : watched.watch.changed = true → watched.state.taskState ≠ .flushing ∧
    ∃ shown, watched.watch.seen = some shown ∧ shown ≠ watched.state.last

/-- An event between the tasks at most starts the frame again. -/
structure Restarts (state after : State cfg Scratch) : Prop where
  last : after.last = state.last
  flushed : after.flushed = state.flushed
  colors : after.colors = state.colors
  phase : after.taskState = state.taskState ∨ after.taskState = .starting

theorem restarts_setMode (state : State cfg Scratch) (mode : Byte) :
    Restarts state (setMode state mode) := by
  unfold setMode
  split
  · exact ⟨rfl, rfl, rfl, .inl rfl⟩
  · exact ⟨rfl, rfl, rfl, .inr rfl⟩

theorem kept_of_restarts {watched : Watched cfg Scratch} (kept : Kept watched)
    {after : State cfg Scratch} (restarts : Restarts watched.state after) :
    Kept { state := after, watch := watched.watch } := by
  obtain ⟨last, flushed, colors, phase⟩ := restarts
  have lastEffect : after.lastEffect = watched.state.lastEffect := congrArg Prod.fst last
  refine ⟨fun none => ?_, fun flushing => ?_, fun begun => ?_, fun whole => ?_, fun changed => ?_⟩
  · rw [flushed]
    exact kept.recorded (lastEffect ▸ none)
  · have before : watched.state.taskState = .flushing := by
      rcases phase with same | starts
      · rw [← same]
        exact flushing
      · rw [starts] at flushing
        cases flushing
    rw [colors]
    exact kept.pending before
  · rcases phase with same | starts
    · rw [same]
      exact kept.begun begun
    · rw [starts]
      exact fun other => nomatch other
  · rw [flushed]
    exact kept.whole whole
  · obtain ⟨waits, shown⟩ := kept.changed changed
    rw [last]
    refine ⟨?_, shown⟩
    rcases phase with same | starts
    · rw [same]
      exact waits
    · rw [starts]
      exact fun other => nomatch other

variable {fx}

theorem cycle_begun {watch : Watch} {timed : State cfg Scratch} {phase : TaskState}
    (begun : (watch.task timed phase).cycle = .begun) :
    timed.taskState = .starting ∨ phase ≠ .syncing := by
  unfold Watch.task at begun
  dsimp only at begun
  split at begun
  · cases begun
  · split at begun
    · split at begun
      · rename_i starts
        exact .inl starts
      · cases begun
    · split at begun
      · cases begun
      · rename_i goesOn
        exact .inr goesOn
    · cases begun

theorem cycle_whole {watch : Watch} {timed : State cfg Scratch} {phase : TaskState}
    (whole : (watch.task timed phase).cycle = .whole) :
    timed.effect = 0 ∧ (watch.cycle = .whole ∨ watch.cycle = .begun ∧ phase = .syncing) := by
  unfold Watch.task at whole
  dsimp only at whole
  split at whole
  · cases whole
  · rename_i dark
    refine ⟨not_not.mp dark, ?_⟩
    split at whole
    · split at whole <;> cases whole
    · rename_i begun
      split at whole
      · rename_i ends
        exact .inr ⟨begun, ends⟩
      · cases whole
    · rename_i already
      exact .inl already

/-- A changed effect is not the one flushed last, and no flush comes before its frame. -/
theorem fresh_of_changes {watched : Watched cfg Scratch} {reads : Reads} (kept : Kept watched)
    (steady : Steady watched (.task reads))
    (changes : watched.watch.changesTo (rgbTaskTimers watched.state reads).effect = true) :
    watched.state.taskState ≠ .flushing ∧
      (rgbTaskTimers watched.state reads).shown ≠ watched.state.last := by
  obtain ⟨flushes, moves⟩ := steady
  simp only [Watch.changesTo, Bool.or_eq_true] at changes
  rcases changes with earlier | now
  · obtain ⟨waits, shown, seen, other⟩ := kept.changed earlier
    refine ⟨waits, ?_⟩
    by_cases same : watched.watch.seen = some (rgbTaskTimers watched.state reads).shown
    · rw [seen, Option.some.injEq] at same
      rw [← same]
      exact other
    · exact moves same
  · obtain ⟨shown, seen, differs⟩ := (Option.any_eq_true _ _).mp now
    have other : shown.1 ≠ (rgbTaskTimers watched.state reads).effect := of_decide_eq_true differs
    rw [seen] at flushes moves
    refine ⟨fun flushing => other (Option.some.inj (flushes flushing)), moves fun same => ?_⟩
    exact other (congrArg Prod.fst (Option.some.inj same))

/-- What holds behind a task of a frame that is not flushed yet. -/
theorem kept_of_unflushed {watched : Watched cfg Scratch} {reads : Reads} (kept : Kept watched)
    (steady : Steady watched (.task reads))
    (last : (step fx watched.state (.task reads)).last = watched.state.last)
    (flushed : (step fx watched.state (.task reads)).flushed = watched.state.flushed)
    (pending : (step fx watched.state (.task reads)).taskState = .flushing →
      watched.state.taskState = .rendering ∧
      ((rgbTaskTimers watched.state reads).effect = 0 →
        (step fx watched.state (.task reads)).colors = setColorAll cfg .off))
    (started : watched.state.taskState = .starting →
      (step fx watched.state (.task reads)).taskState = .rendering)
    (ended : (step fx watched.state (.task reads)).taskState = .syncing →
      watched.state.taskState = .syncing ∨ watched.state.lastEffect = 0) :
    Kept (watchedStep fx watched (.task reads)) := by
  have lastEffect : (step fx watched.state (.task reads)).lastEffect = watched.state.lastEffect :=
    congrArg Prod.fst last
  refine ⟨fun none => ?_, fun flushing => ?_, fun begun => ?_, fun whole => ?_, fun changed => ?_⟩
  · exact flushed.trans (kept.recorded (lastEffect ▸ none))
  · exact ⟨_, rfl, (pending flushing).2⟩
  · rcases cycle_begun begun with starts | goesOn
    · have renders := started starts
      simp only [watchedStep, renders]
      exact fun other => nomatch other
    · exact goesOn
  · rw [show (watchedStep fx watched (.task reads)).state.flushed = watched.state.flushed from flushed]
    rcases (cycle_whole whole).2 with already | ⟨begun, ends⟩
    · exact kept.whole already
    · rcases ended ends with before | none
      · exact absurd before (kept.begun begun)
      · exact kept.recorded none
  · have parts : watched.watch.changesTo (rgbTaskTimers watched.state reads).effect = true ∧
        (rgbTaskTimers watched.state reads).taskState ≠ .rendering := by
      simpa [watchedStep, Watch.task] using changed
    obtain ⟨-, fresh⟩ := fresh_of_changes kept steady parts.1
    refine ⟨fun flushing => parts.2 (pending flushing).1, _, rfl, ?_⟩
    exact fun same => fresh (same.trans last)

/-- What holds behind a flush: it shows what the last task has rendered. -/
theorem kept_of_flush {watched : Watched cfg Scratch} {reads : Reads} (kept : Kept watched)
    (steady : Steady watched (.task reads)) (flushing : watched.state.taskState = .flushing) :
    Kept (watchedStep fx watched (.task reads)) := by
  have after : step fx watched.state (.task reads) =
      rgbTaskFlush (rgbTaskTimers watched.state reads)
        (rgbTaskTimers watched.state reads).effect := by
    have phase : (rgbTaskTimers watched.state reads).taskState = .flushing := flushing
    simp only [step, rgbMatrixTask, runPhase, phase]
  obtain ⟨shown, seen, dark⟩ := kept.pending flushing
  have same : shown.1 = (rgbTaskTimers watched.state reads).effect := by
    have found := steady.1 flushing
    rw [seen] at found
    exact Option.some.inj found
  have flushed (none : (rgbTaskTimers watched.state reads).effect = 0) :
      (step fx watched.state (.task reads)).flushed = setColorAll cfg .off := by
    rw [after]
    exact dark (same.trans none)
  have ends : (step fx watched.state (.task reads)).taskState = .syncing := by
    rw [after]
    rfl
  refine ⟨fun none => flushed ?_, fun waits => ?_, fun begun => ?_, fun whole => ?_, fun changed => ?_⟩
  · rw [show (watchedStep fx watched (.task reads)).state.lastEffect =
      (rgbTaskTimers watched.state reads).effect from congrArg State.lastEffect after] at none
    exact none
  · rw [show (watchedStep fx watched (.task reads)).state.taskState = .syncing from ends] at waits
    cases waits
  · rcases cycle_begun begun with starts | goesOn
    · have phase : watched.state.taskState = .starting := starts
      rw [flushing] at phase
      cases phase
    · exact absurd ends goesOn
  · exact flushed (cycle_whole whole).1
  · have changes : watched.watch.changesTo (rgbTaskTimers watched.state reads).effect = true := by
      have parts : watched.watch.changesTo (rgbTaskTimers watched.state reads).effect = true ∧
          (rgbTaskTimers watched.state reads).taskState ≠ .rendering := by
        simpa [watchedStep, Watch.task] using changed
      exact parts.1
    exact absurd flushing (fresh_of_changes kept steady changes).1

/-- A steady step keeps what is kept. -/
theorem kept_step (watched : Watched cfg Scratch) (event : Event) (kept : Kept watched)
    (steady : Steady watched event) : Kept (watchedStep fx watched event) := by
  cases event with
  | task reads =>
    cases phase : watched.state.taskState with
    | starting =>
      have after : step fx watched.state (.task reads) =
          rgbTaskStart (rgbTaskTimers watched.state reads) := by
        have phase : (rgbTaskTimers watched.state reads).taskState = .starting := phase
        simp only [step, rgbMatrixTask, runPhase, phase]
      have renders : (step fx watched.state (.task reads)).taskState = .rendering := by
        rw [after]
        rfl
      refine kept_of_unflushed kept steady (by rw [after]; rfl) (by rw [after]; rfl) ?_
        (fun _ => renders) ?_
      · intro waits
        rw [renders] at waits
        cases waits
      · intro ends
        rw [renders] at ends
        cases ends
    | rendering =>
      have rendering : (rgbTaskTimers watched.state reads).taskState = .rendering := phase
      obtain ⟨last, flushed, -, phases, dark⟩ := rendered_runPhase fx rendering reads
      refine kept_of_unflushed kept steady last flushed (fun waits => ⟨phase, dark waits⟩) ?_ ?_
      · intro starts
        rw [phase] at starts
        cases starts
      · intro ends
        right
        rcases phases with goesOn | waits | ⟨-, none, old⟩
        · exact absurd (goesOn.symm.trans ends) (by decide)
        · exact absurd (waits.symm.trans ends) (by decide)
        · have same : (rgbTaskTimers watched.state reads).effect = watched.state.lastEffect := by
            simp only [State.renderInit, Bool.or_eq_false_iff, decide_eq_false_iff_not, ne_eq,
              not_not] at old
            exact old.1
          rw [← same, none]
    | flushing => exact kept_of_flush kept steady phase
    | syncing =>
      have after : step fx watched.state (.task reads) =
          rgbTaskSync (rgbTaskTimers watched.state reads) reads.sync := by
        have phase : (rgbTaskTimers watched.state reads).taskState = .syncing := phase
        simp only [step, rgbMatrixTask, runPhase, phase]
      refine kept_of_unflushed kept steady ?_ ?_ ?_ ?_ fun _ => .inl phase
      · rw [after, rgbTaskSync]
        split <;> rfl
      · rw [after, rgbTaskSync]
        split <;> rfl
      · intro waits
        rw [after, rgbTaskSync] at waits
        split at waits
        · cases waits
        · exact absurd (phase.symm.trans waits) (by decide)
      · intro starts
        rw [phase] at starts
        cases starts
  | key row column pressed master =>
    refine kept_of_restarts kept ?_
    simp only [step, processRgbMatrix]
    split
    · exact ⟨rfl, rfl, rfl, .inl rfl⟩
    · exact ⟨rfl, rfl, rfl, .inl rfl⟩
  | toggle => exact kept_of_restarts kept ⟨rfl, rfl, rfl, .inr rfl⟩
  | enable =>
    refine kept_of_restarts kept ⟨rfl, rfl, rfl, ?_⟩
    simp only [step, enable]
    split
    · exact .inr rfl
    · exact .inl rfl
  | disable =>
    refine kept_of_restarts kept ⟨rfl, rfl, rfl, ?_⟩
    simp only [step, disable]
    split
    · exact .inl rfl
    · exact .inr rfl
  | mode mode => exact kept_of_restarts kept (restarts_setMode _ mode)
  | step => exact kept_of_restarts kept (restarts_setMode _ _)
  | stepReverse => exact kept_of_restarts kept (restarts_setMode _ _)
  | flags flags => exact kept_of_restarts kept ⟨rfl, rfl, rfl, .inl rfl⟩

/-- A steady step shows what it should. -/
theorem shows_step (watched : Watched cfg Scratch) (event : Event) (kept : Kept watched)
    (steady : Steady watched event) : Shows fx watched event := by
  refine ⟨(kept_step watched event kept steady).whole, ?_⟩
  cases event with
  | task reads =>
    intro rendering changes
    obtain ⟨-, fresh⟩ := fresh_of_changes kept steady changes
    have init : (step fx watched.state (.task reads)).effectParams.init =
        (rgbTaskTimers watched.state reads).renderInit (rgbTaskTimers watched.state reads).effect :=
      (rendered_runPhase fx rendering reads).init
    rw [init, State.renderInit, Bool.or_eq_true, decide_eq_true_iff, decide_eq_true_iff]
    by_contra both
    rw [not_or, not_ne_iff, not_ne_iff] at both
    exact fresh (Prod.ext both.1 both.2)
  | _ => trivial

theorem kept_init (stored : Option Settings) (scratch : Scratch) (colors flushed : Colors cfg) :
    Kept ({ state := rgbMatrixInit cfg stored scratch colors flushed } : Watched cfg Scratch) where
  recorded := fun none => absurd (show (255 : Byte) = 0 from none) (by decide)
  pending := fun flushing => nomatch flushing
  begun := fun begun => nomatch begun
  whole := fun whole => nomatch whole
  changed := fun changed => nomatch changed

end Invariant

/-- In every run of steady steps the driver shows nothing behind each whole cycle without an
effect, and the first frame behind each change of the effect gets `init`. -/
theorem steady_shows (stored : Option Settings) (scratch : Scratch) (colors flushed : Colors cfg)
    (events : List Event)
    (along : Along (watchedStep fx) Steady
      { state := rgbMatrixInit cfg stored scratch colors flushed } events) :
    Along (watchedStep fx) (Shows fx)
      { state := rgbMatrixInit cfg stored scratch colors flushed } events :=
  along_imp kept_step shows_step (kept_init stored scratch colors flushed) along

/-- The timeout passes between two frames, and the matrix goes dark with the next one. -/
theorem idle_board_goes_dark :
    Along (watchedStep boardEffects) (Shows boardEffects)
      { state := rgbMatrixInit board none () (fun _ => .off) fun _ => .off }
      [.task ⟨20, 20, 20⟩, .task ⟨21, 21, 21⟩, .task ⟨22, 22, 22⟩, .task ⟨23, 23, 23⟩,
        .task ⟨1100, 1100, 1100⟩, .task ⟨1101, 1101, 1101⟩, .task ⟨1102, 1102, 1102⟩,
        .task ⟨1103, 1103, 1103⟩] :=
  steady_shows boardEffects none () _ _ _ (by decide)

/-- The timeout passes between the rendering of a frame and its flush. The frame stays on the
driver, since the flush has recorded that nothing is shown. -/
theorem timeout_before_flush_breaks :
    ¬ Along (watchedStep boardEffects) (Shows boardEffects)
      { state := rgbMatrixInit board none () (fun _ => .off) fun _ => .off }
      [.task ⟨990, 990, 990⟩, .task ⟨995, 995, 995⟩, .task ⟨1000, 1000, 1000⟩,
        .task ⟨1001, 1001, 1001⟩, .task ⟨1020, 1020, 1020⟩, .task ⟨1021, 1021, 1021⟩,
        .task ⟨1022, 1022, 1022⟩] := by
  rintro ⟨-, -, -, -, -, -, ⟨dark, -⟩, -⟩
  exact absurd (dark (by decide)) (by decide)

end QmkSonix.RgbMatrix
