import SeekableArchive.Config

/-!
# Log records

What the archive writer reports about itself while it works.  A record has a
severity, a message and named fields, and is written on one line.
-/

namespace SeekableArchive

inductive Severity
  | debug
  | info
  | warning
deriving DecidableEq

def Severity.name : Severity → String
  | .debug => "DEBUG"
  | .info => "INFO"
  | .warning => "WARN"

structure LogField where
  name : String
  value : String
deriving DecidableEq

inductive LogRecord
  | opened (config : Config)
  | frameEnded (frame compressed uncompressed : Nat)
  | tableWritten (frames : Nat)
  | closed (frames bytesIn bytesOut : Nat)
  | writeFailed (error : ArchiveError)
  /-- A poisoned writer is closed, so its archive stays without a table. -/
  | closingPoisoned
  | abandoned (frames pending : Nat)
deriving DecidableEq

namespace LogRecord

def severity : LogRecord → Severity
  | opened _ => .info
  | frameEnded _ _ _ => .debug
  | tableWritten _ => .debug
  | closed _ _ _ => .info
  | writeFailed _ => .warning
  | closingPoisoned => .warning
  | abandoned _ _ => .warning

def message : LogRecord → String
  | opened _ => "archive writer opened"
  | frameEnded _ _ _ => "frame ended"
  | tableWritten _ => "seek table written"
  | closed _ _ _ => "archive closed"
  | writeFailed _ => "archive write failed; writer poisoned"
  | closingPoisoned => "closing poisoned archive writer; seek table not written"
  | abandoned _ _ => "archive writer dropped without close; seek table not written"

def fields : LogRecord → List LogField
  | opened config =>
      [⟨"level", toString config.level⟩, ⟨"strategy", config.strategy.name⟩,
        ⟨"workers", toString config.workers⟩,
        ⟨"min_frame_size", toString config.minFrameSize⟩,
        ⟨"checksums", toString config.checksums⟩]
  | frameEnded frame compressed uncompressed =>
      [⟨"frame", toString frame⟩, ⟨"compressed", toString compressed⟩,
        ⟨"uncompressed", toString uncompressed⟩]
  | tableWritten frames => [⟨"frames", toString frames⟩]
  | closed frames bytesIn bytesOut =>
      [⟨"frames", toString frames⟩, ⟨"bytes_in", toString bytesIn⟩,
        ⟨"bytes_out", toString bytesOut⟩]
  | writeFailed error => [⟨"error", error.message⟩]
  | closingPoisoned => []
  | abandoned frames pending =>
      [⟨"frames", toString frames⟩, ⟨"pending", toString pending⟩]

/-- The message and those fields that `keep` admits. -/
def textWith (keep : LogField → Bool) (record : LogRecord) : String :=
  String.intercalate " " (record.message ::
    (record.fields.filter keep).map fun field => field.name ++ "=" ++ field.value)

def text (record : LogRecord) : String :=
  record.textWith fun _ => true

/-- The line of a record with only those fields that `keep` admits. -/
def lineWith (keep : LogField → Bool) (record : LogRecord) : String :=
  record.severity.name ++ " " ++ record.textWith keep

end LogRecord

end SeekableArchive
