import SeekableArchive.FrameLog
import SeekableArchive.Journal
import SeekableArchive.Stats
import SeekableArchive.Xxh64

/-!
# The state of an archive writer

A writer owns an engine, a sink and a frame log, and keeps a journal of its
calls.  An `Action` changes the writer and may stop early: with an error, or
unfinished, because a loop made as many engine calls as it may and the engine
had still not done what it was asked for.
-/

namespace SeekableArchive

inductive Status
  | usable
  /-- A write failed; nothing more is written. -/
  | poisoned
  /-- An operation is still waiting for the engine. -/
  | hung
  | closed
deriving DecidableEq

structure Writer (ε σ : Type) where
  sink : σ
  frameLog : FrameLog
  engine : ε
  /-- The hash of the open frame, as far as it is kept. -/
  hasher : Option Xxh64.Hasher := none
  pendingUncompressed : Nat := 0
  pendingCompressed : Nat := 0
  bytesIn : Nat := 0
  bytesOut : Nat := 0
  status : Status := .usable
  minFrameSize : Nat
  footerChunkSize : Nat
  /-- The most engine calls that one loop makes. -/
  callLimit : Nat
  journal : Journal

inductive Halt
  | failed (error : ArchiveError)
  | unfinished
deriving DecidableEq

abbrev Action (ε σ : Type) := EStateM Halt (Writer ε σ)

namespace Writer

variable {ε σ α : Type}

def frames (w : Writer ε σ) : Nat :=
  w.frameLog.size

def note (w : Writer ε σ) (event : Event) : Writer ε σ :=
  { w with journal := w.journal.note event }

/-- Lets go of the sink and then of the engine. -/
def release (w : Writer ε σ) : Writer ε σ :=
  { (w.note .sinkReleased).note .engineReleased with status := .closed }

def stats (w : Writer ε σ) : Stats :=
  if w.status = .closed then {}
  else {
    frames := w.frames
    bytesIn := w.bytesIn
    bytesOut := w.bytesOut
    pendingUncompressed := w.pendingUncompressed
    pendingCompressed := w.pendingCompressed }

/-- Whether the writer can no longer be written to. -/
def isPoisoned (w : Writer ε σ) : Bool :=
  w.status = .poisoned ∨ w.status = .closed

def describe (w : Writer ε σ) : String :=
  "ArchiveWriter \x7b min_frame_size: " ++ toString w.minFrameSize ++
    ", footer_chunk_size: " ++ toString w.footerChunkSize ++ ", .. \x7d"

end Writer

namespace Action

variable {ε σ α : Type}

def fail (error : ArchiveError) : Action ε σ α :=
  throw (.failed error)

def ofExcept : Except ArchiveError α → Action ε σ α
  | .ok a => pure a
  | .error error => fail error

def log (record : LogRecord) : Action ε σ Unit :=
  modify fun w => w.note (.logged record)

/-- Works on the engine; its calls go into the writer's journal. -/
def onEngine (act : EStateM ArchiveError (Recorded ε) α) : Action ε σ α := fun w =>
  match act ⟨w.engine, w.journal⟩ with
  | .ok a r => .ok a { w with engine := r.resource, journal := r.journal }
  | .error error r =>
      .error (.failed error) { w with engine := r.resource, journal := r.journal }

/-- Works on the sink; its calls go into the writer's journal. -/
def onSink (act : EStateM SinkError (Recorded σ) α) : Action ε σ α := fun w =>
  match act ⟨w.sink, w.journal⟩ with
  | .ok a r => .ok a { w with sink := r.resource, journal := r.journal }
  | .error error r =>
      .error (.failed (.sink error)) { w with sink := r.resource, journal := r.journal }

end Action

end SeekableArchive
