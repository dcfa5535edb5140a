import SeekableArchive.Proofs.EngineCalls

/-!
# The protocol of the calls

What engine and sink may be called with is decided by what they have been called with so
far.  `Takes` says which call may come in which phase, and which phase comes next: an engine
gets its settings, then it is called, and what it gives out is offered to the sink before
anything else happens; once the table has begun the engine is done, and once the table has
been taken the sink may be closed.  No phase leads back to an earlier stage.  From this
follow, one by one, the rules in `Protocol`, which speak of the events alone.
-/

namespace SeekableArchive

namespace Event

/-- A setting that the engine is given, accepted or not. -/
def setting? : Event → Option Setting
  | engineConfigured setting _ => some setting
  | _ => none

def acceptedSetting? : Event → Option Setting
  | engineConfigured setting true => some setting
  | _ => none

end Event

/-- The rules that the calls of engine and sink keep. -/
structure Protocol (settings : List Setting) (table : Bytes) (events : List Event) : Prop where
  settings_in_order : events.filterMap Event.setting? <+: settings
  /-- Before its first call the engine has accepted all settings, and after it it gets none. -/
  settings_come_first {before after : List Event} {mode : FlushMode} {input : Bytes} {room : Nat}
    {answer : Option EngineStep} :
    events = before ++ .engineCalled mode input room answer :: after →
      before.filterMap Event.acceptedSetting? = settings ∧ after.filterMap Event.setting? = []
  completing_takes_nothing {before after : List Event} {input : Bytes} {room : Nat}
    {answer : Option EngineStep} :
    events = before ++ .engineCalled .complete input room answer :: after → input = []
  /-- After a completing call that leaves something the next call is a completing one. -/
  completing_goes_on {before between after : List Event} {input input' : Bytes}
    {room room' : Nat} {step : EngineStep} {mode : FlushMode} {answer : Option EngineStep} :
    events = before ++ .engineCalled .complete input room (some step) ::
      (between ++ .engineCalled mode input' room' answer :: after) →
        0 < step.remaining → between.filterMap Event.call? = [] → mode = .complete
  /-- What the engine gives out is offered at once and in one piece. -/
  output_is_offered {before after : List Event} {mode : FlushMode} {input : Bytes} {room : Nat}
    {step : EngineStep} :
    events = before ++ .engineCalled mode input room (some step) :: after → step.output ≠ [] →
      ∃ accepted later, after = .sinkOffered step.output accepted :: later
  /-- Nothing else is offered before the next call. -/
  offers_between_calls {before between after : List Event} {mode mode' : FlushMode}
    {input input' : Bytes} {room room' : Nat} {answer answer' : Option EngineStep} :
    events = before ++ .engineCalled mode input room answer ::
      (between ++ .engineCalled mode' input' room' answer' :: after) →
        between.filterMap Event.call? = [] →
          between.filterMap Event.offered? =
            (Event.engineCalled mode input room answer).output?.toList
  offers_are_not_empty {data : Bytes} {accepted : Option Nat} :
    .sinkOffered data accepted ∈ events → data ≠ []
  /-- An offer that is not what the engine has just given out is a piece of the table, and the
  engine is not called after it. -/
  table_ends_calls {before after : List Event} {data : Bytes} {accepted : Option Nat} :
    events = before ++ .sinkOffered data accepted :: after →
      (∀ front mode input room step,
        before = front ++ [.engineCalled mode input room (some step)] → step.output ≠ data) →
          after.filterMap Event.call? = []
  /-- A sink is closed once, after the table has been accepted, and then left alone. -/
  close_comes_last {before after : List Event} {succeeded : Bool} :
    events = before ++ .sinkClosed succeeded :: after →
      (∃ front pieces, before = front ++ pieces ∧
        front.filterMap Event.offered? = front.filterMap Event.output? ∧
        pieces.filterMap Event.call? = [] ∧ (∀ event ∈ pieces, event.isRefusal = false) ∧
        pieces.flatMap Event.stored = table) ∧
      (∀ again, .sinkClosed again ∉ before ++ after) ∧
      after.filterMap Event.offered? = [] ∧ after.filterMap Event.call? = []

/-! ## Phases -/

/-- How far the calls have come. -/
inductive Phase
  | unborn
  /-- The engine is still to be given these settings. -/
  | setting (due : List Setting)
  /-- The engine may be called, but only to complete the frame if it has begun to. -/
  | ready (ending : Bool)
  /-- The sink is to be offered what the engine has given out. -/
  | owing (chunk : Bytes) (ending : Bool)
  /-- So much of the table is still to be offered. -/
  | table (left : Bytes)
  | ended
deriving DecidableEq

namespace Phase

/-- The phase after an answer of the engine. -/
def after (chunk : Bytes) (ending : Bool) : Phase :=
  if chunk = [] then ready ending else owing chunk ending

def stage : Phase → Nat
  | unborn => 0
  | setting _ => 1
  | ready _ => 2
  | owing _ _ => 2
  | table _ => 3
  | ended => 4

/-- The settings that are still to be given. -/
def due (settings : List Setting) : Phase → List Setting
  | unborn => settings
  | setting due => due
  | _ => []

/-- What the engine has given out and the sink has not been offered. -/
def owed : Phase → List Bytes
  | owing chunk _ => [chunk]
  | _ => []

def isEnding : Phase → Bool
  | ready ending => ending
  | owing _ ending => ending
  | _ => false

/-- What of the table may be offered. -/
def left (whole : Bytes) : Phase → Option Bytes
  | ready false => some whole
  | table left => some left
  | _ => none

@[simp] theorem stage_after (chunk : Bytes) (ending : Bool) : (after chunk ending).stage = 2 := by
  rw [after]
  split <;> rfl

@[simp] theorem due_after (settings : List Setting) (chunk : Bytes) (ending : Bool) :
    (after chunk ending).due settings = [] := by
  rw [after]
  split <;> rfl

theorem owed_after (chunk : Bytes) (ending : Bool) :
    (after chunk ending).owed = if chunk = [] then [] else [chunk] := by
  rw [after]
  split <;> rfl

@[simp] theorem isEnding_after (chunk : Bytes) (ending : Bool) :
    (after chunk ending).isEnding = ending := by
  rw [after]
  split <;> rfl

end Phase

open Phase

/-- Whether the call has begun to complete the frame and is not done with it. -/
def EngineStep.unfinishedIn (step : EngineStep) (mode : FlushMode) : Bool :=
  mode = .complete ∧ 0 < step.remaining

/-- Which event may come in which phase, and the phase that it leads to. -/
inductive Takes (settings : List Setting) (table : Bytes) : Phase → Event → Phase → Prop
  | created : Takes settings table .unborn .engineCreated (.setting settings)
  | uncreated : Takes settings table .unborn .engineCreationFailed .ended
  | configured {setting : Setting} {due : List Setting} :
      Takes settings table (.setting (setting :: due)) (.engineConfigured setting true)
        (.setting due)
  | rejected {setting : Setting} {due : List Setting} :
      Takes settings table (.setting (setting :: due)) (.engineConfigured setting false) .ended
  | opened : Takes settings table (.setting []) .sinkOpened (.ready false)
  | unopened : Takes settings table (.setting []) .sinkOpeningFailed .ended
  | called {ending : Bool} {mode : FlushMode} {input : Bytes} {room : Nat} {step : EngineStep}
      (hmode : ending = true → mode = .complete) (hinput : mode = .complete → input = []) :
      Takes settings table (.ready ending) (.engineCalled mode input room (some step))
        (.after step.output (step.unfinishedIn mode))
  | failed {ending : Bool} {mode : FlushMode} {input : Bytes} {room : Nat}
      (hmode : ending = true → mode = .complete) (hinput : mode = .complete → input = []) :
      Takes settings table (.ready ending) (.engineCalled mode input room none) .ended
  | delivered {chunk : Bytes} {ending : Bool} {accepted : Option Nat} (hchunk : chunk ≠ [])
      (htaken : (Event.sinkOffered chunk accepted).isRefusal = false) :
      Takes settings table (.owing chunk ending) (.sinkOffered chunk accepted) (.ready ending)
  | undelivered {chunk : Bytes} {ending : Bool} {accepted : Option Nat} (hchunk : chunk ≠ []) :
      Takes settings table (.owing chunk ending) (.sinkOffered chunk accepted) .ended
  | piece {phase : Phase} {chunk rest : Bytes} {accepted : Option Nat}
      (hleft : phase.left table = some (chunk ++ rest)) (hchunk : chunk ≠ [])
      (htaken : (Event.sinkOffered chunk accepted).isRefusal = false) :
      Takes settings table phase (.sinkOffered chunk accepted) (.table rest)
  | lastPiece {phase : Phase} {chunk rest : Bytes} {accepted : Option Nat}
      (hleft : phase.left table = some (chunk ++ rest)) (hchunk : chunk ≠ []) :
      Takes settings table phase (.sinkOffered chunk accepted) .ended
  | closed {succeeded : Bool} : Takes settings table (.table []) (.sinkClosed succeeded) .ended
  | logged {phase : Phase} {record : LogRecord} (h : phase.owed = []) :
      Takes settings table phase (.logged record) phase
  | sinkReleased {phase : Phase} (h : phase.owed = []) :
      Takes settings table phase .sinkReleased .ended
  | engineReleased {phase : Phase} (h : phase.owed = []) :
      Takes settings table phase .engineReleased .ended

/-- The events may come one after the other. -/
inductive Passes (settings : List Setting) (table : Bytes) :
    Phase → List Event → Phase → Prop
  | nil {phase : Phase} : Passes settings table phase [] phase
  | cons {phase phase' phase'' : Phase} {event : Event} {events : List Event}
      (hfirst : Takes settings table phase event phase')
      (hrest : Passes settings table phase' events phase'') :
      Passes settings table phase (event :: events) phase''

variable {settings : List Setting} {table : Bytes} {phase phase' : Phase} {event : Event}
  {events : List Event}

theorem eq_of_left {whole left : Bytes} (h : phase.left whole = some left) :
    phase = .ready false ∨ phase = .table left := by
  cases phase with
  | ready ending =>
      cases ending with
      | false => exact .inl rfl
      | true => cases h
  | table left' =>
      cases h
      exact .inr rfl
  | _ => cases h

namespace Takes

/-- No event leads back to an earlier stage. -/
theorem stage_le (h : Takes settings table phase event phase') :
    phase.stage ≤ phase'.stage := by
  cases h with
  | called =>
      rw [Phase.stage_after]
      exact Nat.le_refl 2
  | piece hleft | lastPiece hleft =>
      rcases eq_of_left hleft with rfl | rfl <;> simp [Phase.stage]
  | sinkReleased | engineReleased => cases phase <;> simp [Phase.stage]
  | logged => exact Nat.le_refl _
  | _ => simp [Phase.stage]

theorem stage_of_setting {setting : Setting} (h : Takes settings table phase event phase')
    (hevent : event.setting? = some setting) : phase.stage = 1 := by
  cases h <;> first | rfl | cases hevent

theorem stage_of_call {call : EngineCall} (h : Takes settings table phase event phase')
    (hevent : event.call? = some call) : phase.stage = 2 := by
  cases h <;> first | rfl | cases hevent

theorem stage_of_offer {data : Bytes} (h : Takes settings table phase event phase')
    (hevent : event.offered? = some data) : phase.stage ≤ 3 ∧ data ≠ [] := by
  cases h with
  | delivered hchunk | undelivered hchunk =>
      cases hevent
      exact ⟨by simp [Phase.stage], hchunk⟩
  | piece hleft hchunk | lastPiece hleft hchunk =>
      cases hevent
      refine ⟨?_, hchunk⟩
      rcases eq_of_left hleft with rfl | rfl <;> simp [Phase.stage]
  | _ => cases hevent

theorem stage_of_close {succeeded : Bool}
    (h : Takes settings table phase (.sinkClosed succeeded) phase') :
    phase = .table [] ∧ phase' = .ended := by
  cases h
  exact ⟨rfl, rfl⟩

/-- An engine is given the settings that are due, up to the first that it rejects. -/
theorem due_isPrefix (h : Takes settings table phase event phase') :
    event.setting?.toList ++ phase'.due settings <+: phase.due settings := by
  cases h with
  | created | configured | logged => exact List.prefix_refl _
  | rejected => exact List.prefix_append _ _
  | called =>
      rw [Phase.due_after]
      exact List.nil_prefix
  | _ => exact List.nil_prefix

/-- Until the table begins, no setting has been rejected. -/
theorem due_eq (h : Takes settings table phase event phase') (hstage : phase'.stage ≤ 2) :
    event.acceptedSetting?.toList ++ phase'.due settings = phase.due settings := by
  cases h with
  | called => exact Phase.due_after settings _ _
  | created | configured | opened | delivered | logged => rfl
  | _ => simp [Phase.stage] at hstage

/-- Until the table begins, what is offered is what is owed. -/
theorem owed_eq (h : Takes settings table phase event phase') (hstage : phase'.stage ≤ 2) :
    event.offered?.toList ++ phase'.owed = phase.owed ++ event.output?.toList := by
  cases h with
  | @called ending mode input room step _ _ =>
      rw [Phase.owed_after]
      by_cases hsilent : step.output = []
      · simp [Event.offered?, Event.output?, Phase.owed, hsilent]
      · simp [Event.offered?, Event.output?, Phase.owed, hsilent]
  | created | configured | opened | delivered => rfl
  | logged howed => simp [Event.offered?, Event.output?, howed]
  | _ => simp [Phase.stage] at hstage

/-- Only a call of the engine begins or ends the completion of a frame. -/
theorem isEnding_eq (h : Takes settings table phase event phase') (hcall : event.call? = none)
    (hstage : phase'.stage ≤ 2) : phase'.isEnding = phase.isEnding := by
  cases h with
  | called => cases hcall
  | created | configured | opened | delivered | logged => rfl
  | _ => simp [Phase.stage] at hstage

/-- While the table is offered all of it is taken. -/
theorem left_eq {left left' : Bytes}
    (h : Takes settings table (.table left) event (.table left')) :
    event.isRefusal = false ∧ left = event.stored ++ left' := by
  generalize hphase' : Phase.table left' = phase' at h
  cases h with
  | piece hleft hchunk htaken =>
      cases hphase'
      cases hleft
      exact ⟨htaken, by rw [Event.stored_of_taken rfl htaken]⟩
  | logged =>
      cases hphase'
      exact ⟨rfl, rfl⟩
  | _ => cases hphase'

theorem exists_call {chunk : Bytes} {ending : Bool}
    (h : Takes settings table phase event (.owing chunk ending)) :
    ∃ mode input room step,
      event = .engineCalled mode input room (some step) ∧ step.output = chunk := by
  generalize hphase' : Phase.owing chunk ending = phase' at h
  cases h with
  | @called ending' mode input room step _ _ =>
      rw [Phase.after] at hphase'
      split at hphase'
      · cases hphase'
      · cases hphase'
        exact ⟨mode, input, room, step, rfl, rfl⟩
  | logged howed =>
      rw [← hphase'] at howed
      cases howed
  | _ => cases hphase'

theorem of_owing {chunk : Bytes} {ending : Bool}
    (h : Takes settings table (.owing chunk ending) event phase') :
    ∃ accepted, event = .sinkOffered chunk accepted := by
  cases h with
  | @delivered _ _ accepted | @undelivered _ _ accepted => exact ⟨accepted, rfl⟩
  | piece hleft | lastPiece hleft => cases hleft
  | logged howed | sinkReleased howed | engineReleased howed => cases howed

theorem owed_of_call {call : EngineCall} (h : Takes settings table phase event phase')
    (hevent : event.call? = some call) : phase.owed = [] := by
  cases h <;> first | rfl | cases hevent

theorem first_piece {left : Bytes} (h : Takes settings table phase event (.table left))
    (hstage : phase.stage ≤ 2) :
    phase = .ready false ∧ event.call? = none ∧ event.isRefusal = false ∧
      table = event.stored ++ left := by
  generalize hphase' : Phase.table left = phase' at h
  cases h with
  | piece hleft hchunk htaken =>
      cases hphase'
      rcases eq_of_left hleft with rfl | rfl
      · refine ⟨rfl, rfl, htaken, ?_⟩
        rw [Event.stored_of_taken rfl htaken]
        exact Option.some.inj hleft
      · simp [Phase.stage] at hstage
  | called =>
      rw [Phase.after] at hphase'
      split at hphase' <;> cases hphase'
  | logged =>
      rw [← hphase'] at hstage
      simp [Phase.stage] at hstage
  | _ => cases hphase'

end Takes

theorem eq_table_of_stage (h : phase.stage = 3) : ∃ left, phase = .table left := by
  cases phase with
  | table left => exact ⟨left, rfl⟩
  | _ => simp [Phase.stage] at h

theorem filterMap_cons_toList {α β : Type} (view : α → Option β) (a : α) (l : List α) :
    (a :: l).filterMap view = (view a).toList ++ l.filterMap view := by
  cases hview : view a <;> simp [hview]

/-- Without calls nothing is given out. -/
theorem outputs_eq_nil (h : events.filterMap Event.call? = []) :
    events.filterMap Event.output? = [] := by
  rw [List.filterMap_eq_nil_iff] at h ⊢
  intro event hevent
  cases event with
  | engineCalled => cases h _ hevent
  | _ => rfl

namespace Passes

theorem stage_le (h : Passes settings table phase events phase') :
    phase.stage ≤ phase'.stage := by
  induction h with
  | nil => exact Nat.le_refl _
  | cons hfirst _ ih => exact Nat.le_trans hfirst.stage_le ih

theorem append {more : List Event} {phase'' : Phase}
    (h : Passes settings table phase events phase')
    (hmore : Passes settings table phase' more phase'') :
    Passes settings table phase (events ++ more) phase'' := by
  induction h with
  | nil => exact hmore
  | cons hfirst _ ih => exact .cons hfirst (ih hmore)

theorem append_iff {more : List Event} :
    Passes settings table phase (events ++ more) phase' ↔
      ∃ middle, Passes settings table phase events middle ∧
        Passes settings table middle more phase' := by
  constructor
  · intro h
    induction events generalizing phase with
    | nil => exact ⟨phase, .nil, h⟩
    | cons event events ih =>
        cases h with
        | cons hfirst hrest =>
            obtain ⟨middle, hevents, hmore⟩ := ih hrest
            exact ⟨middle, .cons hfirst hevents, hmore⟩
  · rintro ⟨middle, hevents, hmore⟩
    exact hevents.append hmore

theorem snoc (h : Passes settings table phase events phase') {phase'' : Phase}
    (hlast : Takes settings table phase' event phase'') :
    Passes settings table phase (events ++ [event]) phase'' :=
  h.append (.cons hlast .nil)

theorem split {before after : List Event}
    (h : Passes settings table phase (before ++ event :: after) phase') :
    ∃ found left, Passes settings table phase before found ∧
      Takes settings table found event left ∧ Passes settings table left after phase' := by
  obtain ⟨found, hbefore, hrest⟩ := append_iff.mp h
  cases hrest with
  | cons hevent hafter => exact ⟨found, _, hbefore, hevent, hafter⟩

/-- Every event comes in a phase of its own, between the first and the last one. -/
theorem exists_takes (h : Passes settings table phase events phase') (hevent : event ∈ events) :
    ∃ found left, Takes settings table found event left ∧ phase.stage ≤ found.stage ∧
      left.stage ≤ phase'.stage := by
  obtain ⟨before, after, rfl⟩ := List.append_of_mem hevent
  obtain ⟨found, left, hbefore, htakes, hafter⟩ := h.split
  exact ⟨found, left, htakes, hbefore.stage_le, hafter.stage_le⟩

/-- Events of which there are none at a stage. -/
theorem filterMap_eq_nil {α : Type} {view : Event → Option α}
    (h : Passes settings table phase events phase')
    (hview : ∀ {found left : Phase} {event : Event} {a : α},
      Takes settings table found event left → view event = some a →
        ¬ phase.stage ≤ found.stage) :
    events.filterMap view = [] := by
  rw [List.filterMap_eq_nil_iff]
  intro event hevent
  obtain ⟨found, left, htakes, hstage, -⟩ := h.exists_takes hevent
  by_contra hsome
  obtain ⟨a, ha⟩ := Option.ne_none_iff_exists'.mp hsome
  exact hview htakes ha hstage

/-- Once the table has begun the engine is not called. -/
theorem no_calls (h : Passes settings table phase events phase') (hstage : 3 ≤ phase.stage) :
    events.filterMap Event.call? = [] :=
  h.filterMap_eq_nil fun htakes hcall => by
    rw [htakes.stage_of_call hcall]
    omega

theorem no_settings (h : Passes settings table phase events phase') (hstage : 2 ≤ phase.stage) :
    events.filterMap Event.setting? = [] :=
  h.filterMap_eq_nil fun htakes hsetting => by
    rw [htakes.stage_of_setting hsetting]
    omega

theorem no_offers (h : Passes settings table phase events phase') (hstage : 4 ≤ phase.stage) :
    events.filterMap Event.offered? = [] :=
  h.filterMap_eq_nil fun htakes hoffer => by
    have := (htakes.stage_of_offer hoffer).1
    omega

theorem settings_isPrefix (h : Passes settings table phase events phase') :
    events.filterMap Event.setting? <+: phase.due settings := by
  induction h with
  | nil => exact List.nil_prefix
  | cons hfirst _ ih =>
      rw [filterMap_cons_toList]
      exact ((List.prefix_append_right_inj _).mpr ih).trans hfirst.due_isPrefix

theorem accepted_eq (h : Passes settings table phase events phase') (hstage : phase'.stage = 2) :
    events.filterMap Event.acceptedSetting? = phase.due settings := by
  induction h with
  | @nil phase =>
      cases phase with
      | unborn | setting => cases hstage
      | _ => rfl
  | cons hfirst hrest ih =>
      rw [filterMap_cons_toList, ih hstage, hfirst.due_eq (hstage ▸ hrest.stage_le)]

/-- Until the table begins, what has been offered and what is owed is what was owed and what
has been given out. -/
theorem owed_eq (h : Passes settings table phase events phase') (hstage : phase'.stage ≤ 2) :
    events.filterMap Event.offered? ++ phase'.owed =
      phase.owed ++ events.filterMap Event.output? := by
  induction h with
  | nil => simp
  | cons hfirst hrest ih =>
      have howed := hfirst.owed_eq (Nat.le_trans hrest.stage_le hstage)
      rw [filterMap_cons_toList, filterMap_cons_toList, List.append_assoc, ih hstage,
        ← List.append_assoc, howed, List.append_assoc]

theorem isEnding_eq (h : Passes settings table phase events phase') (hstage : phase'.stage ≤ 2)
    (hcalls : events.filterMap Event.call? = []) : phase'.isEnding = phase.isEnding := by
  induction h with
  | nil => rfl
  | cons hfirst hrest ih =>
      rw [filterMap_cons_toList, List.append_eq_nil_iff, Option.toList_eq_nil_iff] at hcalls
      rw [ih hstage hcalls.2,
        hfirst.isEnding_eq hcalls.1 (Nat.le_trans hrest.stage_le hstage)]

/-- What is owed has been given out by the last event. -/
theorem exists_call_of_owing {chunk : Bytes} {ending : Bool}
    (h : Passes settings table phase events (.owing chunk ending)) (howed : phase.owed = []) :
    ∃ front mode input room step,
      events = front ++ [.engineCalled mode input room (some step)] ∧ step.output = chunk := by
  obtain rfl | ⟨front, event, rfl⟩ := List.eq_nil_or_concat' events
  · cases h
    cases howed
  · obtain ⟨found, left, -, htakes, hlast⟩ := h.split
    cases hlast
    obtain ⟨mode, input, room, step, rfl, hstep⟩ := htakes.exists_call
    exact ⟨front, mode, input, room, step, rfl, hstep⟩

theorem taken_of_table {left left' : Bytes}
    (h : Passes settings table (.table left) events (.table left')) :
    (∀ event ∈ events, event.isRefusal = false) ∧
      left = events.flatMap Event.stored ++ left' := by
  induction events generalizing left with
  | nil =>
      cases h
      exact ⟨by simp, rfl⟩
  | cons event events ih =>
      cases h with
      | @cons _ middle _ _ _ hfirst hrest =>
          obtain ⟨rest, rfl⟩ := eq_table_of_stage
            (Nat.le_antisymm hrest.stage_le hfirst.stage_le)
          obtain ⟨htaken, hleft⟩ := hfirst.left_eq
          obtain ⟨hall, hrest⟩ := ih hrest
          refine ⟨List.forall_mem_cons.mpr ⟨htaken, hall⟩, ?_⟩
          rw [hleft, List.flatMap_cons, List.append_assoc, ← hrest]

/-- The pieces of the table follow one another from the first one on. -/
theorem exists_first_piece {left : Bytes} (h : Passes settings table phase events (.table left))
    (hstage : phase.stage ≤ 2) :
    ∃ front pieces, events = front ++ pieces ∧ Passes settings table phase front (.ready false) ∧
      pieces.filterMap Event.call? = [] ∧ (∀ event ∈ pieces, event.isRefusal = false) ∧
      table = pieces.flatMap Event.stored ++ left := by
  induction events generalizing phase with
  | nil =>
      cases h
      simp [Phase.stage] at hstage
  | cons event events ih =>
      cases h with
      | @cons _ middle _ _ _ hfirst hrest =>
          by_cases hearly : middle.stage ≤ 2
          · obtain ⟨front, pieces, rfl, hfront, hpieces⟩ := ih hrest hearly
            exact ⟨event :: front, pieces, rfl, .cons hfirst hfront, hpieces⟩
          · -- From this event on the table is offered.
            obtain ⟨rest, rfl⟩ := eq_table_of_stage
              (Nat.le_antisymm hrest.stage_le (Nat.lt_of_not_le hearly))
            obtain ⟨rfl, hcall, htaken, hwhole⟩ := hfirst.first_piece hstage
            obtain ⟨hall, hrest'⟩ := hrest.taken_of_table
            refine ⟨[], event :: events, rfl, .nil, ?_,
              List.forall_mem_cons.mpr ⟨htaken, hall⟩, ?_⟩
            · rw [filterMap_cons_toList, hcall, hrest.no_calls (Nat.le_refl 3)]
              rfl
            · rw [List.flatMap_cons, List.append_assoc, ← hrest', hwhole]

/-- Before the end of the table the sink is not closed. -/
theorem not_closed_of_table {left : Bytes} (h : Passes settings table phase events (.table left))
    (succeeded : Bool) : .sinkClosed succeeded ∉ events := by
  intro hmem
  obtain ⟨found, left', hclose, -, hlate⟩ := h.exists_takes hmem
  rw [hclose.stage_of_close.2] at hlate
  exact absurd hlate (by simp [Phase.stage])

theorem not_closed_of_ended (h : Passes settings table .ended events phase')
    (succeeded : Bool) : .sinkClosed succeeded ∉ events := by
  intro hmem
  obtain ⟨found, left, hclose, hearly, -⟩ := h.exists_takes hmem
  rw [hclose.stage_of_close.1] at hearly
  exact absurd hearly (by decide)

/-! ## The rules -/

theorem protocol (h : Passes settings table .unborn events phase') (howed : phase'.owed = []) :
    Protocol settings table events where
  settings_in_order := h.settings_isPrefix
  settings_come_first hsplit := by
    subst hsplit
    obtain ⟨found, left, hbefore, hcall, hafter⟩ := h.split
    have hstage := hcall.stage_of_call rfl
    have hle := hcall.stage_le
    exact ⟨hbefore.accepted_eq hstage, hafter.no_settings (by omega)⟩
  completing_takes_nothing hsplit := by
    subst hsplit
    obtain ⟨found, left, -, hcall, -⟩ := h.split
    cases hcall with
    | called _ hinput | failed _ hinput => exact hinput rfl
  completing_goes_on hsplit hmore hcalls := by
    subst hsplit
    obtain ⟨found, left, -, hcall, hafter⟩ := h.split
    obtain ⟨found', left', hbetween, hnext, -⟩ := hafter.split
    have hending := hbetween.isEnding_eq (Nat.le_of_eq (hnext.stage_of_call rfl)) hcalls
    have hmust : left.isEnding = true := by
      cases hcall
      rw [Phase.isEnding_after]
      exact decide_eq_true ⟨rfl, hmore⟩
    rw [hmust] at hending
    cases hnext with
    | called hmode | failed hmode => exact hmode hending
  output_is_offered hsplit hloud := by
    subst hsplit
    obtain ⟨found, left, -, hcall, hafter⟩ := h.split
    cases hcall
    rw [Phase.after, if_neg hloud] at hafter
    cases hafter with
    | nil => cases howed
    | cons hfirst _ =>
        obtain ⟨accepted, rfl⟩ := hfirst.of_owing
        exact ⟨accepted, _, rfl⟩
  offers_between_calls hsplit hcalls := by
    subst hsplit
    obtain ⟨found, left, -, hcall, hafter⟩ := h.split
    obtain ⟨found', left', hbetween, hnext, -⟩ := hafter.split
    have hstage := Nat.le_of_eq (hnext.stage_of_call rfl)
    have hechoes := hbetween.owed_eq hstage
    have howes := hcall.owed_eq (Nat.le_trans hbetween.stage_le hstage)
    rw [outputs_eq_nil hcalls, hnext.owed_of_call rfl, List.append_nil, List.append_nil] at hechoes
    rw [hcall.owed_of_call rfl] at howes
    exact hechoes.trans howes
  offers_are_not_empty hmem := by
    obtain ⟨found, left, htakes, -⟩ := h.exists_takes hmem
    exact (htakes.stage_of_offer rfl).2
  table_ends_calls hsplit hunprompted := by
    subst hsplit
    obtain ⟨found, left, hbefore, hoffer, hafter⟩ := h.split
    cases hoffer with
    | delivered | undelivered =>
        obtain ⟨front, mode, input, room, step, hlast, hstep⟩ := hbefore.exists_call_of_owing rfl
        exact absurd hstep (hunprompted front mode input room step hlast)
    | piece => exact hafter.no_calls (Nat.le_refl 3)
    | lastPiece => exact hafter.no_calls (by decide)
  close_comes_last hsplit := by
    subst hsplit
    obtain ⟨found, left, hbefore, hclose, hafter⟩ := h.split
    obtain ⟨rfl, rfl⟩ := hclose.stage_of_close
    obtain ⟨front, pieces, hfront, hready, hcalls, htaken, htable⟩ :=
      hbefore.exists_first_piece (Nat.zero_le 2)
    have hechoes : front.filterMap Event.offered? = front.filterMap Event.output? := by
      simpa [Phase.owed] using hready.owed_eq (Nat.le_refl 2)
    rw [List.append_nil] at htable
    refine ⟨⟨front, pieces, hfront, hechoes, hcalls, htaken, htable.symm⟩, fun again => ?_,
      hafter.no_offers (Nat.le_refl 4), hafter.no_calls (by decide)⟩
    rw [List.mem_append, not_or]
    exact ⟨hbefore.not_closed_of_table again, hafter.not_closed_of_ended again⟩

end Passes

end SeekableArchive
