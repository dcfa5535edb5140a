import SeekableArchive.Directory
import SeekableArchive.Writer
import SeekableArchive.Zstd.StoredEngine

/-!
# Archives over memory and over files

Writers with the storing engine, which needs one call for a write and finitely
many to end a frame, and with a sink that keeps everything.
-/

namespace SeekableArchive

/-- More calls than any engine that makes progress needs. -/
def ampleCalls : Nat := 0x4000_0000_0000_0000

abbrev MemoryArchive := Writer Zstd.StoredEngine MemorySink

abbrev FileArchive := Writer Zstd.StoredEngine FileSink

def MemoryArchive.openNew (config : Config) : Except OpeningFailure MemoryArchive :=
  Writer.openWith config (.ok {}) (.ok {}) ampleCalls

namespace FileArchive

/-- The name of an archive for which none is chosen. -/
def defaultName : String := "archive.zst"

/-- Opens a writer that creates the file at a path, or empties it. -/
def openAt (d : Directory) (path : String) (config : Config) :
    Except OpeningFailure FileArchive :=
  Writer.openWith config (.ok {}) (FileSink.create d path) ampleCalls

end FileArchive

/-- The settings that most callers care about; everything else as it is by default. -/
def Config.basic (workers : UInt32) (minFrameSize : Nat) : Config :=
  { workers, minFrameSize }

/-- The first failure among the answers to writes. -/
def firstFailure? : List (Except Halt Unit) → Option Halt
  | [] => none
  | .ok () :: answers => firstFailure? answers
  | .error halt :: _ => some halt

/-- The archive in which the writes end up, if all of them and the closing succeed. -/
def archiveOf (config : Config) (writes : List Bytes) : Except Halt Bytes :=
  match MemoryArchive.openNew config with
  | .error failure => .error (.failed failure.error)
  | .ok w =>
      let (answers, w) := w.writeAll writes
      match firstFailure? answers with
      | some halt => .error halt
      | none =>
          match w.close with
          | (.error halt, _) => .error halt
          | (.ok _, w) => .ok w.sink.contents

end SeekableArchive
