import SeekableArchive.Journal

/-!
# What flows through an engine

The answered calls in a journal fall into frames.  A call takes in the front of
its input and gives out its output; a completing call after which the engine
holds nothing more ends the frame.  `Journal.flows` groups the bytes accordingly,
and `Journal.stored` is what the sink has accepted.  Neither looks at the writer.
-/

namespace SeekableArchive

/-- What an engine has taken in and given out in one frame. -/
structure Flow where
  taken : Bytes := []
  given : Bytes := []
deriving DecidableEq

/-- The frames that an engine has ended, in order, and the one that is open. -/
structure Flows where
  ended : List Flow := []
  current : Flow := {}
deriving DecidableEq

namespace Flows

/-- The open frame takes in and gives out more. -/
def fill (flows : Flows) (taken given : Bytes) : Flows :=
  { flows with current := ⟨flows.current.taken ++ taken, flows.current.given ++ given⟩ }

def finish (flows : Flows) : Flows :=
  ⟨flows.ended ++ [flows.current], {}⟩

/-- The effect of a call that was answered by `step`. -/
def call (flows : Flows) (mode : FlushMode) (input : Bytes) (step : EngineStep) : Flows :=
  let filled := flows.fill (input.take step.consumed) step.output
  if mode = .complete ∧ step.remaining = 0 then filled.finish else filled

def note (flows : Flows) : Event → Flows
  | .engineCalled mode input _ (some step) => flows.call mode input step
  | _ => flows

/-- All frames, the open one last. -/
def all (flows : Flows) : List Flow :=
  flows.ended ++ [flows.current]

/-- Everything given out, frame after frame. -/
def given (flows : Flows) : Bytes :=
  (flows.ended.map Flow.given).flatten ++ flows.current.given

@[simp] theorem fill_fill (flows : Flows) (taken given taken' given' : Bytes) :
    (flows.fill taken given).fill taken' given' =
      flows.fill (taken ++ taken') (given ++ given') := by
  simp [fill]

@[simp] theorem ended_fill (flows : Flows) (taken given : Bytes) :
    (flows.fill taken given).ended = flows.ended := rfl

@[simp] theorem taken_fill (flows : Flows) (taken given : Bytes) :
    (flows.fill taken given).current.taken = flows.current.taken ++ taken := rfl

@[simp] theorem given_current_fill (flows : Flows) (taken given : Bytes) :
    (flows.fill taken given).current.given = flows.current.given ++ given := rfl

@[simp] theorem given_fill (flows : Flows) (taken given : Bytes) :
    (flows.fill taken given).given = flows.given ++ given := by
  simp [Flows.given, fill]

@[simp] theorem ended_finish (flows : Flows) :
    flows.finish.ended = flows.ended ++ [flows.current] := rfl

@[simp] theorem current_finish (flows : Flows) : flows.finish.current = {} := rfl

@[simp] theorem given_finish (flows : Flows) : flows.finish.given = flows.given := by
  simp [Flows.given, finish]

@[simp] theorem call_proceed (flows : Flows) (input : Bytes) (step : EngineStep) :
    flows.call .proceed input step = flows.fill (input.take step.consumed) step.output := by
  simp [call]

theorem call_complete_of_eq_zero (flows : Flows) {step : EngineStep} (h : step.remaining = 0) :
    flows.call .complete [] step = (flows.fill [] step.output).finish := by
  simp [call, h]

theorem call_complete_of_ne_zero (flows : Flows) {step : EngineStep} (h : step.remaining ≠ 0) :
    flows.call .complete [] step = flows.fill [] step.output := by
  simp [call, h]

end Flows

/-- The bytes that an event adds to a sink, as far as the sink's answer says. -/
def Event.stored : Event → Bytes
  | .sinkOffered data (some accepted) => data.take accepted
  | _ => []

namespace Journal

def flows (j : Journal) : Flows :=
  j.newestFirst.foldr (fun event flows => flows.note event) {}

def stored (j : Journal) : Bytes :=
  j.newestFirst.foldr (fun event bytes => bytes ++ event.stored) []

@[simp] theorem stored_empty : empty.stored = [] := rfl

@[simp] theorem stored_note (j : Journal) (event : Event) :
    (j.note event).stored = j.stored ++ event.stored := rfl

theorem stored_eq_flatMap (j : Journal) : j.stored = j.events.flatMap Event.stored := by
  obtain ⟨newestFirst⟩ := j
  induction newestFirst with
  | nil => rfl
  | cons event earlier ih =>
      change (Journal.note ⟨earlier⟩ event).stored = (Journal.note ⟨earlier⟩ event).events.flatMap _
      rw [stored_note, events_note, ih, List.flatMap_append, List.flatMap_singleton]

theorem stored_isPrefix {j j' : Journal} (h : j.events <+: j'.events) :
    j.stored <+: j'.stored := by
  obtain ⟨rest, hrest⟩ := h
  rw [stored_eq_flatMap, stored_eq_flatMap, ← hrest, List.flatMap_append]
  exact List.prefix_append _ _

end Journal

end SeekableArchive
