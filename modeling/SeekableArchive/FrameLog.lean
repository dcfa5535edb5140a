import SeekableArchive.Config
import SeekableArchive.Reservation
import SeekableArchive.SeekTable

/-!
# The frame log

While an archive is written, the log collects its seek table: `record` appends
a finished frame, `serialize` hands out the encoded table in pieces as large as
the caller's buffer.  The first piece freezes the log; `reserveTable` takes the
memory in which the encoded table is kept from then on.
-/

namespace SeekableArchive

def maxFrames : Nat := 0x08000000

inductive RecordFault
  | serializationBegun
  | full
  | compressedTooLarge (size : Nat)
  | uncompressedTooLarge (size : Nat)
deriving DecidableEq

def RecordFault.message : RecordFault → String
  | .serializationBegun => "frame recorded after serialization began"
  | .full => "seek table is limited to " ++ toString maxFrames ++ " frames"
  | .compressedTooLarge size =>
      "compressed frame size " ++ toString size ++ " exceeds u32"
  | .uncompressedTooLarge size =>
      "uncompressed frame size " ++ toString size ++ " exceeds u32"

/-- How far the encoded table has been handed out. -/
structure Handout where
  produced : Nat
  rest : Bytes
deriving DecidableEq

structure FrameLog where
  table : SeekTable
  /-- Absent until the first piece is asked for. -/
  handout : Option Handout := none
  bounded : table.entries.size ≤ maxFrames
deriving DecidableEq

/-- A piece of the encoded table and the number of bytes still to come. -/
structure FooterStep where
  output : Bytes
  remaining : Nat
deriving DecidableEq

/-- A caller's buffer after a call, how many bytes at its front belong to the encoded table,
and the number of bytes still to come. -/
structure Filling where
  buffer : Bytes
  produced : Nat
  remaining : Nat
deriving DecidableEq

/-- The part of the encoded table that the buffer has taken. -/
def Filling.piece (filling : Filling) : Bytes :=
  filling.buffer.take filling.produced

/-- The buffer after bytes have been copied to its front, as far as it has room. -/
def copyToFront : Bytes → Bytes → Bytes
  | [], buffer => buffer
  | _ :: _, [] => []
  | b :: bytes, _ :: buffer => b :: copyToFront bytes buffer

namespace FrameLog

/-- The memory of one entry while it is kept, in bytes. -/
def entryFootprint : Nat := 16

def empty (checksums : Bool) : FrameLog where
  table := { checksums }
  bounded := Nat.zero_le _

/-- An empty log with memory for so many frames reserved. -/
def withCapacity (capacity : Nat) (checksums : Bool) : Except ArchiveError FrameLog :=
  match Reservation.reserve (capacity * entryFootprint) with
  | .ok () => .ok (empty checksums)
  | .error failure =>
      .error (.allocation
        ("frame log for " ++ toString capacity ++ " frames: " ++ failure.message))

def entries (log : FrameLog) : Array FrameEntry :=
  log.table.entries

def size (log : FrameLog) : Nat :=
  log.table.entries.size

def checksums (log : FrameLog) : Bool :=
  log.table.checksums

def record (log : FrameLog) (compressed uncompressed : Nat) (checksum : UInt32) :
    Except RecordFault FrameLog :=
  if log.handout.isSome then .error .serializationBegun
  else if h : log.table.entries.size < maxFrames then
    if maxFrameSize < compressed then .error (.compressedTooLarge compressed)
    else if maxFrameSize < uncompressed then .error (.uncompressedTooLarge uncompressed)
    else .ok {
      table :=
        log.table.push (UInt32.ofNat compressed) (UInt32.ofNat uncompressed) checksum
      bounded := by simp only [SeekTable.push, Array.size_push]; omega }
  else .error .full

/-- Reserves memory for the encoded table, which the first piece needs. -/
def reserveTable (log : FrameLog) : Except ArchiveError Unit :=
  if log.handout.isSome then .ok ()
  else Reservation.buffer "seek table" log.table.encodedSize

/-- Hands out the next bytes of the encoded table, at most `room` of them. -/
def serialize (log : FrameLog) (room : Nat) : FooterStep × FrameLog :=
  let handout := log.handout.getD ⟨0, log.table.encode⟩
  let output := handout.rest.take room
  let produced := handout.produced + output.length
  (⟨output, log.table.encodedSize - produced⟩,
    { log with handout := some ⟨produced, handout.rest.drop room⟩ })

/-- Hands out the next bytes of the encoded table into a buffer. -/
def serializeInto (log : FrameLog) (buffer : Bytes) : Filling × FrameLog :=
  let (step, log) := log.serialize buffer.length
  (⟨copyToFront step.output buffer, step.output.length, step.remaining⟩, log)

end FrameLog

end SeekableArchive
