import SeekableArchive.Engine
import SeekableArchive.Journal.LogRecord
import SeekableArchive.Sink

/-!
# The journal

Every call that reaches an engine or a sink is noted in a journal together with
its answer, in the order of the calls, among them the log records.  Who holds
which resource, and what the sink was offered, are views of the journal.
-/

namespace SeekableArchive

inductive Event
  | engineCreated
  | engineCreationFailed
  | engineConfigured (setting : Setting) (accepted : Bool)
  /-- A call of the engine with its input and its room for output; no answer
  means that it failed. -/
  | engineCalled (mode : FlushMode) (input : Bytes) (room : Nat) (answer : Option EngineStep)
  | engineReleased
  | sinkOpened
  | sinkOpeningFailed
  /-- An offer to the sink and how many bytes it accepted, if any answer came. -/
  | sinkOffered (data : Bytes) (accepted : Option Nat)
  | sinkClosed (succeeded : Bool)
  | sinkReleased
  | logged (record : LogRecord)
deriving DecidableEq

structure Journal where
  newestFirst : List Event := []
deriving DecidableEq

namespace Journal

def empty : Journal := {}

def note (j : Journal) (event : Event) : Journal :=
  ⟨event :: j.newestFirst⟩

def events (j : Journal) : List Event :=
  j.newestFirst.reverse

@[simp] theorem events_empty : empty.events = [] := rfl

@[simp] theorem events_note (j : Journal) (event : Event) :
    (j.note event).events = j.events ++ [event] := by
  simp [events, note]

/-- What happened after an earlier state of the journal. -/
def since (j earlier : Journal) : List Event :=
  (j.newestFirst.take (j.newestFirst.length - earlier.newestFirst.length)).reverse

end Journal

namespace Event

def record? : Event → Option LogRecord
  | logged record => some record
  | _ => none

def offered? : Event → Option Bytes
  | sinkOffered data _ => some data
  | _ => none

end Event

/-- Milestones in the life of an engine and a sink. -/
inductive ResourceEvent
  | engineCreated
  | engineConfigured
  | engineReleased
  | sinkOpened
  | sinkClosed
  | sinkReleased
deriving DecidableEq

namespace ResourceEvent

def name : ResourceEvent → String
  | engineCreated => "EngineCreated"
  | engineConfigured => "EngineConfigured"
  | engineReleased => "EngineReleased"
  | sinkOpened => "SinkOpened"
  | sinkClosed => "SinkClosed"
  | sinkReleased => "SinkReleased"

def ofEvent? : Event → Option ResourceEvent
  | .engineCreated => some engineCreated
  | .engineConfigured _ accepted => if accepted then some engineConfigured else none
  | .engineReleased => some engineReleased
  | .sinkOpened => some sinkOpened
  | .sinkClosed succeeded => if succeeded then some sinkClosed else none
  | .sinkReleased => some sinkReleased
  | _ => none

def ofEvents (events : List Event) : List ResourceEvent :=
  events.filterMap ofEvent?

/-- Engines created and not released. -/
def enginesLive (milestones : List ResourceEvent) : Int :=
  milestones.count engineCreated - milestones.count engineReleased

/-- Sinks opened and not released. -/
def sinksLive (milestones : List ResourceEvent) : Int :=
  milestones.count sinkOpened - milestones.count sinkReleased

/-- Milestones of acquiring and releasing, without the settings. -/
def lifecycle (milestones : List ResourceEvent) : List ResourceEvent :=
  milestones.filter (· ≠ engineConfigured)

end ResourceEvent

/-- The number of offers to the sink that had any bytes in them. -/
def sinkWrites (events : List Event) : Nat :=
  (events.filterMap Event.offered?).countP (· ≠ [])

/-- An engine or a sink in use, with the journal in which its calls are noted. -/
structure Recorded (α : Type) where
  resource : α
  journal : Journal := .empty

namespace Recorded

variable {ε σ : Type}

def note {α : Type} (r : Recorded α) (event : Event) : Recorded α :=
  { r with journal := r.journal.note event }

def configure [Engine ε] (setting : Setting) : EStateM ArchiveError (Recorded ε) Unit :=
  fun r =>
    match Engine.configure setting r.resource with
    | .ok () e => .ok () ⟨e, r.journal.note (.engineConfigured setting true)⟩
    | .error error e => .error error ⟨e, r.journal.note (.engineConfigured setting false)⟩

def compress [Engine ε] (mode : FlushMode) (input : Bytes) (room : Nat) :
    EStateM ArchiveError (Recorded ε) EngineStep :=
  fun r =>
    match Engine.compress mode input room r.resource with
    | .ok step e => .ok step ⟨e, r.journal.note (.engineCalled mode input room (some step))⟩
    | .error error e => .error error ⟨e, r.journal.note (.engineCalled mode input room none)⟩

def write [Sink σ] (data : Bytes) : EStateM SinkError (Recorded σ) Nat :=
  fun r =>
    match Sink.write data r.resource with
    | .ok accepted s => .ok accepted ⟨s, r.journal.note (.sinkOffered data (some accepted))⟩
    | .error error s => .error error ⟨s, r.journal.note (.sinkOffered data none)⟩

def close [Sink σ] : EStateM SinkError (Recorded σ) Unit :=
  fun r =>
    match Sink.close r.resource with
    | .ok () s => .ok () ⟨s, r.journal.note (.sinkClosed true)⟩
    | .error error s => .error error ⟨s, r.journal.note (.sinkClosed false)⟩

/-- Offers are noted by being a sink again. -/
instance [Sink σ] : Sink (Recorded σ) where
  write := write
  close := close

end Recorded

end SeekableArchive
