import SeekableArchive.Archive
import SeekableArchive.CommandLine.Request
import SeekableArchive.Pack
import SeekableArchive.Text.Decimal

/-!
# Running the program

`run` carries out a command line in a working directory.  What the program says,
its log and its exit code are an `Outcome`; the directory comes back with the
archive in it.
-/

namespace SeekableArchive
namespace CommandLine

def versionText : String := "0.3.0"

structure LogLine where
  severity : Severity
  text : String
deriving DecidableEq

structure Outcome where
  /-- A program that is aborted has none. -/
  exitCode : Option Nat := some 0
  output : List String := []
  log : List LogLine := []
  errors : List String := []
deriving DecidableEq

def usage : List String :=
  ["Seekable zstd archive tools",
    "",
    "Usage: " ++ programName ++ " [OPTIONS] <COMMAND>",
    "",
    "Commands:",
    "  pack     Compress a file (or stdin) into a seekable archive",
    "  version  Show version information",
    "  help     Print this message or the help of the given subcommand(s)"]

namespace Stop

def outcome : Stop → Outcome
  | refused error => { exitCode := some 2, errors := ["error: " ++ error.message] }
  | nothingAsked => { exitCode := some 2, errors := usage }
  | help => { output := usage }
  | version => { output := [programName ++ " " ++ versionText] }

end Stop

/-- What is said about a finished archive. -/
def report (path : String) (summary : Summary) : List String :=
  ["✓ Archive written",
    "  Path: " ++ Text.quote path,
    "  Frames: " ++ toString summary.frames,
    "  Input: " ++ toString summary.bytesIn ++ " bytes",
    "  Output: " ++ toString summary.bytesOut ++ " bytes"] ++
  match summary.compressionRatio with
  | some ratio => ["  Ratio: " ++ Text.fixed 2 ratio ++ " (compressed / uncompressed)"]
  | none => []

/-- What is logged before packing begins. -/
def announcement (request : PackRequest) : LogLine :=
  let source := match request.input with
    | some path => Text.quote path
    | none => "stdin"
  ⟨.info, "Packing " ++ source ++ " into " ++ Text.quote request.output⟩

/-- The log lines of a journal; details are shown on request. -/
def logLines (verbose : Bool) (journal : Journal) : List LogLine :=
  ((journal.events.filterMap Event.record?).filter fun record =>
    verbose || record.severity ≠ .debug).map fun record =>
      ⟨record.severity, record.text⟩

/-- The exit code of a failed packing; one that runs out of memory is aborted. -/
def exitCodeOf : PackError → Option Nat
  | .chunkBuffer .capacityOverflow => some 101
  | .chunkBuffer .outOfMemory => none
  | _ => some 1

/-- What is said about a failed packing. -/
def complaint : PackError → String
  | .chunkBuffer failure => failure.message
  | error => "Error: " ++ error.inspect

def Outcome.ofPack {σ : Type} (request : PackRequest) (verbose : Bool) (run : PackRun σ) :
    Outcome :=
  let log := announcement request :: logLines verbose run.journal
  match run.result with
  | .ok summary => { output := report request.output summary, log }
  | .error error =>
      { exitCode := exitCodeOf error, log, errors := [complaint error] }

def stdinBufferSize : Nat := 8 * 1024

/-- The reads of the standard input; a chunk that is no smaller than the buffer is read
past it. -/
def stdinReads (chunkSize : Nat) (contents : Bytes) : List ReadOutcome :=
  if stdinBufferSize ≤ chunkSize then ReadOutcome.ofPieces chunkSize [.bytes contents]
  else ReadOutcome.ofPieces chunkSize
    (ReadOutcome.ofPieces stdinBufferSize [.bytes contents])

/-- The reads of an opened input while the output is written to; an input that is the
output has just been emptied. -/
def inputReads (d : Directory) (stdin : Bytes) (chunkSize : Nat)
    (output : Except SinkError FileSink) : Directory.Source → List ReadOutcome
  | .directory => [.failed (.system .isADirectory)]
  | .device .standardInput => ReadOutcome.ofPieces chunkSize [.bytes stdin]
  | .device _ => []
  | .file path =>
      match output with
      | .ok sink =>
          if sink.destination = .file path then []
          else ReadOutcome.ofPieces chunkSize [.bytes ((d.read? path).getD [])]
      | .error _ => []

/-- What a pack command would read, if its input can be opened. -/
def openInput (d : Directory) (stdin : Bytes) (request : PackRequest)
    (output : Except SinkError FileSink) : Except IoFault (List ReadOutcome) :=
  match request.input with
  | none => .ok (stdinReads request.chunkSize stdin)
  | some path =>
      (d.openForReading path).map (inputReads d stdin request.chunkSize output)

def runPack (d : Directory) (stdin : Bytes) (request : PackRequest) :
    PackRun FileSink :=
  let output := FileSink.create d request.output
  match openInput d stdin request output with
  | .error fault => ⟨.error (.read fault), .empty, none⟩
  | .ok reads =>
      pack request.config request.chunkSize reads (.ok ({} : Zstd.StoredEngine)) output
        ampleCalls

def run (d : Directory) (stdin : Bytes) (arguments : List String) : Outcome × Directory :=
  match Request.parse arguments with
  | .error stop => (stop.outcome, d)
  | .ok ⟨.showVersion, _⟩ =>
      ({ output := [programName ++ " CLI v" ++ versionText,
          programName ++ " core v" ++ versionText] }, d)
  | .ok ⟨.pack request, verbose⟩ =>
      let result := runPack d stdin request
      (.ofPack request verbose result, (result.sink.map (·.save d)).getD d)

end CommandLine
end SeekableArchive
