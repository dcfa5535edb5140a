import SeekableArchive.CommandLine.Run

/-!
# The program

Reads the input, packs it in memory and writes the archive.  Everything that is
said or decided comes from the library.
-/

namespace SeekableArchive
namespace CommandLine

def faultOf : IO.Error → IoFault
  | .noFileOrDirectory _ _ _ => .system .notFound
  | .permissionDenied _ 21 _ => .system .isADirectory
  | .permissionDenied _ _ _ => .system .permissionDenied
  | .inappropriateType _ 21 _ => .system .isADirectory
  | .inappropriateType _ _ _ => .system .notADirectory
  | .interrupted _ _ _ => .interrupted
  | error => .other (toString error)

/-- What an aborted program is seen to exit with. -/
def abortCode : Nat := 134

def say (outcome : Outcome) : IO UInt32 := do
  let stderr ← IO.getStderr
  for line in outcome.log do
    stderr.putStrLn (line.severity.name ++ " " ++ line.text)
  for line in outcome.output do
    IO.println line
  for line in outcome.errors do
    stderr.putStrLn line
  return (outcome.exitCode.getD abortCode).toUInt32

/-- What a stream holds, and the fault that ended it early, if any. -/
def readStream (stream : IO.FS.Stream) : IO (Bytes × Option IoFault) := do
  let mut chunks := []
  let mut more := true
  let mut fault := none
  while more do
    try
      let chunk ← stream.read 65536
      chunks := chunk.toList :: chunks
      more := !chunk.isEmpty
    catch error =>
      fault := some (faultOf error)
      more := false
  return (chunks.reverse.flatten, fault)

/-- Runs an action whose failure is a value. -/
def attempt {α : Type} (action : IO α) : IO (Except IoFault α) := do
  try
    return .ok (← action)
  catch error =>
    return .error (faultOf error)

def openSource (request : PackRequest) : IO IO.FS.Stream :=
  match request.input with
  | none => IO.getStdin
  | some path => return .ofHandle (← IO.FS.Handle.mk path .read)

/-- Opens the output once everything before that has been found in order. -/
def openTarget (request : PackRequest) : IO (Except SinkError IO.FS.Handle) := do
  match request.chunkSize, request.config.validate with
  | _ + 1, .ok () => return (← attempt (IO.FS.Handle.mk request.output .write)).mapError .io
  | _, _ => return .error .closed

/-- The reads in which the input arrives. -/
def readsOf (request : PackRequest) (contents : Bytes) (fault : Option IoFault) :
    List ReadOutcome :=
  let reads := match request.input with
    | none => stdinReads request.chunkSize contents
    | some _ => ReadOutcome.ofPieces request.chunkSize [.bytes contents]
  reads.filter (· ≠ .bytes []) ++ (fault.map ReadOutcome.failed).toList

def packFiles (request : PackRequest) : IO (PackRun MemorySink) := do
  match ← attempt (openSource request) with
  | .error fault => return ⟨.error (.read fault), .empty, none⟩
  | .ok source =>
      let target ← openTarget request
      let reads ← match target with
        | .ok _ => do
            let (contents, fault) ← readStream source
            pure (readsOf request contents fault)
        | .error _ => pure []
      let result := pack request.config request.chunkSize reads
        (.ok ({} : Zstd.StoredEngine)) (target.map fun _ => ({} : MemorySink)) ampleCalls
      if let .ok handle := target then
        if let some sink := result.sink then
          handle.write (ByteArray.mk sink.contents.toArray)
      return result

end CommandLine
end SeekableArchive

open SeekableArchive SeekableArchive.CommandLine in
def main (arguments : List String) : IO UInt32 := do
  match Request.parse arguments with
  | .error stop => say stop.outcome
  | .ok ⟨.showVersion, _⟩ =>
      say (run {} [] arguments).1
  | .ok ⟨.pack request, verbose⟩ =>
      say (.ofPack request verbose (← packFiles request))
