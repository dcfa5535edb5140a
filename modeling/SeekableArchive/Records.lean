import SeekableArchive.Writer

/-!
# Self-describing records

Several threads write records to one archive.  A record names its thread, its
number within the thread and the length of its body, and its body repeats the
thread's number.  `checkRecords` reads a stream of records back and reports the
first sign that one is torn, lost, doubled or out of order.
-/

namespace SeekableArchive

open LittleEndian

/-- Thread, sequence number and body length, one word each. -/
def recordHeaderSize : Nat := 12

def record (thread sequence : UInt32) (bodyLength : Nat) : Bytes :=
  word thread ++ word sequence ++ word (UInt32.ofNat bodyLength) ++
    List.replicate bodyLength thread.toUInt8

structure Workload where
  threads : Nat := 4
  writesPerThread : Nat := 250
  maxBody : Nat := 512
deriving DecidableEq

namespace Workload

def bodyLength (w : Workload) (thread sequence : Nat) : Nat :=
  1 + (sequence * 7 + thread) % max w.maxBody 1

/-- What a thread writes in its turn. -/
def payload (w : Workload) (thread sequence : Nat) : Bytes :=
  record (UInt32.ofNat thread) (UInt32.ofNat sequence) (w.bodyLength thread sequence)

/-- All writes in the order in which threads take turns. -/
def rounds (w : Workload) : List Bytes :=
  (List.range w.writesPerThread).flatMap fun sequence =>
    (List.range w.threads).map fun thread => w.payload thread sequence

end Workload

/-- How many writes succeeded and failed, and the bytes of those that succeeded. -/
structure Tally where
  succeeded : Nat := 0
  failed : Nat := 0
  bytes : Nat := 0
deriving DecidableEq

namespace Tally

def total (t : Tally) : Nat :=
  t.succeeded + t.failed

def count (t : Tally) (payload : Bytes) : Except Halt Unit → Tally
  | .ok () => { t with succeeded := t.succeeded + 1, bytes := t.bytes + payload.length }
  | .error _ => { t with failed := t.failed + 1 }

def ofAnswers (payloads : List Bytes) (answers : List (Except Halt Unit)) : Tally :=
  (payloads.zip answers).foldl (fun t (payload, answer) => t.count payload answer) {}

end Tally

inductive InterleavingFault
  | truncated (offset : Nat)
  | torn (offset : Nat)
  | outOfOrder (thread : UInt32) (expected found : Nat)
  | unknownThread (thread : UInt32)
  | missing (thread expected found : Nat)
deriving DecidableEq

def InterleavingFault.message : InterleavingFault → String
  | .truncated offset => "truncated record at offset " ++ toString offset
  | .torn offset => "record at offset " ++ toString offset ++ " is torn"
  | .outOfOrder thread expected found =>
      "thread " ++ toString thread.toNat ++ ": expected seq " ++ toString expected ++
        ", found " ++ toString found
  | .unknownThread thread => "unknown thread " ++ toString thread.toNat
  | .missing thread expected found =>
      "thread " ++ toString thread ++ " wrote " ++ toString found ++
        " records, expected " ++ toString expected

/-- A record taken from the front of a stream, and the bytes after it. -/
structure Reading where
  thread : UInt32
  sequence : UInt32
  body : Bytes
  rest : Bytes
deriving DecidableEq

/-- Takes a record from the front, unless the stream ends within it. -/
def readRecord? (stream : Bytes) : Option Reading :=
  let header := stream.take recordHeaderSize
  let length := (readWord (header.drop 8)).toNat
  let after := stream.drop recordHeaderSize
  let body := after.take length
  if header.length < recordHeaderSize ∨ body.length < length then none
  else some {
    thread := readWord header
    sequence := readWord (header.drop 4)
    body
    rest := after.drop length }

theorem length_lt_of_readRecord? {stream : Bytes} {reading : Reading}
    (h : readRecord? stream = some reading) : reading.rest.length < stream.length := by
  simp only [readRecord?] at h
  split at h
  · cases h
  · rename_i hlong
    cases h
    simp only [List.length_take, recordHeaderSize] at hlong
    simp only [List.length_drop, recordHeaderSize]
    omega

/-- Reads records up to the end of the stream; `next` holds the sequence number
that is due for each thread. -/
def scanRecords (offset : Nat) (stream : Bytes) (next : Array Nat) :
    Except InterleavingFault (Array Nat) :=
  if stream = [] then .ok next
  else match hread : readRecord? stream with
    | none => .error (.truncated offset)
    | some reading =>
        match next[reading.thread.toNat]? with
        | none => .error (.unknownThread reading.thread)
        | some due =>
            if reading.sequence.toNat ≠ due then
              .error (.outOfOrder reading.thread due reading.sequence.toNat)
            else if reading.body.any (· ≠ reading.thread.toUInt8) then .error (.torn offset)
            else
              have := length_lt_of_readRecord? hread
              scanRecords (offset + recordHeaderSize + reading.body.length) reading.rest
                (next.setIfInBounds reading.thread.toNat (due + 1))
termination_by stream.length

/-- The first thread that did not write as many records as it should have. -/
def missingRecords (expected : Nat) : Nat → List Nat → Except InterleavingFault Unit
  | _, [] => .ok ()
  | thread, found :: rest =>
      if found ≠ expected then .error (.missing thread expected found)
      else missingRecords expected (thread + 1) rest

/-- Whether a stream consists of whole records, those of each thread in order
and all of them there. -/
def checkRecords (stream : Bytes) (workload : Workload) : Except InterleavingFault Unit :=
  match scanRecords 0 stream (Array.replicate workload.threads 0) with
  | .error fault => .error fault
  | .ok next => missingRecords workload.writesPerThread.toUInt32.toNat 0 next.toList

end SeekableArchive
