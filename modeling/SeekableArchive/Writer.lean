import SeekableArchive.Writer.Frames

/-!
# Archive writers

A writer is opened over an engine and a sink, takes writes, and is closed.  A
write that finds at least `minFrameSize` bytes in the open frame ends the frame
before it begins.  A failed write poisons the writer; closing a poisoned writer
lets go of everything and writes no seek table.
-/

namespace SeekableArchive

/-- Why a writer could not be opened, and what had been called until then. -/
structure OpeningFailure where
  error : ArchiveError
  journal : Journal
deriving DecidableEq

namespace Writer

variable {ε σ : Type}

/-- Gives the engine its settings in order, up to the first that it refuses. -/
def configureAll [Engine ε] : List Setting → EStateM ArchiveError (Recorded ε) Unit
  | [] => pure ()
  | setting :: settings => do
      Recorded.configure setting
      configureAll settings

/-- Opens a writer over an engine and a sink, each of which may fail to come
about.  The engine comes first and gets its settings before the sink is opened;
what was acquired before a failure is released again. -/
def openWith [Engine ε] [Sink σ] (config : Config) (engine : Except ArchiveError ε)
    (sink : Except SinkError σ) (callLimit : Nat) : Except OpeningFailure (Writer ε σ) :=
  match config.validate with
  | .error fault => .error ⟨.invalidConfig fault.message, .empty⟩
  | .ok () =>
      match engine with
      | .error error => .error ⟨error, Journal.empty.note .engineCreationFailed⟩
      | .ok e =>
          match configureAll config.settings ⟨e, Journal.empty.note .engineCreated⟩ with
          | .error error r => .error ⟨error, r.journal.note .engineReleased⟩
          | .ok () r =>
              match sink with
              | .error error =>
                  .error ⟨.sink error,
                    (r.journal.note .sinkOpeningFailed).note .engineReleased⟩
              | .ok s =>
                  .ok {
                    sink := s
                    frameLog := .empty config.checksums
                    engine := r.resource
                    hasher := if config.checksums then some .start else none
                    minFrameSize := config.minFrameSize
                    footerChunkSize := config.footerChunkSize
                    callLimit
                    journal := (r.journal.note .sinkOpened).note (.logged (.opened config)) }

variable [Engine ε] [Sink σ]

/-- Compresses `data` into the archive. -/
def write (w : Writer ε σ) (data : Bytes) : Except Halt Unit × Writer ε σ :=
  match w.status with
  | .closed => (.error (.failed .closed), w)
  | .poisoned => (.error (.failed .poisoned), w)
  | .hung => (.error .unfinished, w)
  | .usable =>
      match Action.accept data w with
      | .ok () w => (.ok (), w)
      | .error .unfinished w => (.error .unfinished, { w with status := .hung })
      | .error (.failed error) w =>
          (.error (.failed error),
            { w.note (.logged (.writeFailed error)) with status := .poisoned })

/-- Finishes the archive and lets go of sink and engine, whether or not that fails. -/
def close (w : Writer ε σ) : Except Halt Summary × Writer ε σ :=
  match w.status with
  | .closed => (.error (.failed .closed), w)
  | .poisoned =>
      (.error (.failed .poisoned), (w.note (.logged .closingPoisoned)).release)
  | .hung => (.error .unfinished, w)
  | .usable =>
      match Action.complete w with
      | .error .unfinished w => (.error .unfinished, { w with status := .hung })
      | .error (.failed error) w => (.error (.failed error), w.release)
      | .ok () w =>
          match Action.onSink Recorded.close w with
          | .error halt w => (.error halt, w.release)
          | .ok () w =>
              let summary := ⟨w.frames, w.bytesIn, w.bytesOut⟩
              (.ok summary,
                w.release.note (.logged (.closed w.frames w.bytesIn w.bytesOut)))

/-- Lets go of the writer without finishing the archive. -/
def abandon (w : Writer ε σ) : Writer ε σ :=
  if w.status = .closed then w
  else (w.note (.logged (.abandoned w.frames w.pendingUncompressed))).release

/-- Writes one payload after the other and answers what each write answered. -/
def writeAll (w : Writer ε σ) : List Bytes → List (Except Halt Unit) × Writer ε σ
  | [] => ([], w)
  | data :: rest =>
      let (answer, w) := w.write data
      let (answers, w) := w.writeAll rest
      (answer :: answers, w)

end Writer

end SeekableArchive
