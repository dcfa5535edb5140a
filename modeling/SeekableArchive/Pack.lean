import SeekableArchive.Error.Inspect
import SeekableArchive.Writer

/-!
# Packing

A reader is a script of what its reads come to.  Packing writes every non-empty
read to a new archive and closes it at the end of the input; an interrupted read
is tried again, any other failure ends the packing and leaves the archive
without a seek table.
-/

namespace SeekableArchive

/-- What a read comes to; no bytes are the end of the input. -/
inductive ReadOutcome
  | bytes (data : Bytes)
  | failed (fault : IoFault)
deriving DecidableEq

namespace ReadOutcome

/-- Appends the reads of up to `size` bytes in which `data` arrives, newest first;
no data is one empty read. -/
def pushReads (size : Nat) (data : Bytes) (reads : List ReadOutcome) : List ReadOutcome :=
  let rest := data.drop size
  if hend : rest = [] ∨ size = 0 then bytes (data.take size) :: reads
  else
    have : rest.length < data.length := by
      have := List.length_pos_iff.mpr (not_or.mp hend).1
      simp only [rest, List.length_drop] at *
      omega
    pushReads size rest (bytes (data.take size) :: reads)
termination_by data.length

/-- The reads of up to `size` bytes of a reader that hands out one piece after
the other. -/
def ofPieces (size : Nat) (pieces : List ReadOutcome) : List ReadOutcome :=
  (pieces.foldl (fun reads piece =>
    match piece with
    | bytes data => pushReads size data reads
    | failed fault => failed fault :: reads) []).reverse

end ReadOutcome

inductive PackError
  | zeroChunkSize
  | read (fault : IoFault)
  | chunkBuffer (failure : ReservationFailure)
  | archive (error : ArchiveError)
  /-- The engine was asked in vain as often as it may be. -/
  | unfinished
deriving DecidableEq

namespace PackError

def ofHalt : Halt → PackError
  | .failed error => archive error
  | .unfinished => unfinished

/-- The program is aborted on the spot. -/
def IsFatal (error : PackError) : Prop :=
  error = chunkBuffer .outOfMemory

instance (error : PackError) : Decidable error.IsFatal :=
  inferInstanceAs (Decidable (_ = _))

def message : PackError → String
  | zeroChunkSize => "chunk size must be greater than zero"
  | read fault => fault.message
  | chunkBuffer failure => failure.message
  | archive error => error.message
  | unfinished => "compression engine did not finish"

def inspect : PackError → String
  | read fault => fault.inspect
  | archive error => error.inspect
  | error => Text.quote error.message

end PackError

/-- How packing ended, what was called, and the sink as it was left, unless it
was never opened. -/
structure PackRun (σ : Type) where
  result : Except PackError Summary
  journal : Journal
  sink : Option σ

section

variable {ε σ : Type} [Engine ε] [Sink σ]

/-- Writes the reads up to the end of the input. -/
def writeReads (w : Writer ε σ) : List ReadOutcome → Except PackError Unit × Writer ε σ
  | [] => (.ok (), w)
  | .failed .interrupted :: reads => writeReads w reads
  | .failed fault :: _ => (.error (.read fault), w)
  | .bytes data :: reads =>
      if data = [] then (.ok (), w)
      else match w.write data with
        | (.ok (), w) => writeReads w reads
        | (.error halt, w) => (.error (.ofHalt halt), w)

def writeAllReads (chunkSize : Nat) (w : Writer ε σ) (reads : List ReadOutcome) :
    Except PackError Unit × Writer ε σ :=
  match Reservation.reserve chunkSize with
  | .error failure => (.error (.chunkBuffer failure), w)
  | .ok () => writeReads w reads

/-- Packs what a reader hands out, `chunkSize` bytes at most in one read.  A writer that
cannot go on is abandoned, unless the program ends with it. -/
def pack (config : Config) (chunkSize : Nat) (reads : List ReadOutcome)
    (engine : Except ArchiveError ε) (sink : Except SinkError σ) (callLimit : Nat) :
    PackRun σ :=
  if chunkSize = 0 then ⟨.error .zeroChunkSize, .empty, none⟩
  else match Writer.openWith config engine sink callLimit with
    | .error failure => ⟨.error (.archive failure.error), failure.journal, none⟩
    | .ok w =>
        match writeAllReads chunkSize w reads with
        | (.error error, w) =>
            let w := if error.IsFatal then w else w.abandon
            ⟨.error error, w.journal, some w.sink⟩
        | (.ok (), w) =>
            let (result, w) := w.close
            ⟨result.mapError .ofHalt, w.journal, some w.sink⟩

end

end SeekableArchive
