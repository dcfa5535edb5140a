import Mathlib.Logic.Function.Basic
import SeekableArchive.Records

/-!
# Threads that share a writer

The threads of a workload make their writes to one writer, each thread its own in order.
A write holds the lock of the writer from beginning to end, so whole writes follow each
other in the order in which the threads get hold of the lock: the schedule.
-/

namespace SeekableArchive

def Tally.add (t t' : Tally) : Tally where
  succeeded := t.succeeded + t'.succeeded
  failed := t.failed + t'.failed
  bytes := t.bytes + t'.bytes

namespace Workload

/-- The schedules of all that is left to write.  As long as some threads have writes left,
any of these may be the next to get the lock; `next` numbers the next write of each. -/
inductive Interleaves (w : Workload) : (Nat → Nat) → List Nat → Prop
  | done {next : Nat → Nat} (h : ∀ thread < w.threads, next thread = w.writesPerThread) :
      Interleaves w next []
  | turn {next : Nat → Nat} {thread : Nat} {schedule : List Nat} (hthread : thread < w.threads)
      (hleft : next thread < w.writesPerThread)
      (h : Interleaves w (Function.update next thread (next thread + 1)) schedule) :
      Interleaves w next (thread :: schedule)

/-- The writes in the order of a schedule. -/
def calls (w : Workload) (next : Nat → Nat) : List Nat → List Bytes
  | [] => []
  | thread :: schedule =>
      w.payload thread (next thread) ::
        w.calls (Function.update next thread (next thread + 1)) schedule

/-- The schedule in which the threads take turns. -/
def turns (w : Workload) : List Nat :=
  (List.range w.writesPerThread).flatMap fun _ => List.range w.threads

end Workload

/-- How far a thread has come: the number of its next write and the tally of those before. -/
structure Worker where
  sequence : Nat := 0
  tally : Tally := {}
deriving DecidableEq

/-- A writer and the threads that share it. -/
structure Crew (ε σ : Type) where
  writer : Writer ε σ
  workers : Nat → Worker := fun _ => {}

namespace Crew

variable {ε σ : Type}

/-- The numbers of the next writes. -/
def next (crew : Crew ε σ) (thread : Nat) : Nat :=
  (crew.workers thread).sequence

/-- What the threads report in the end, all together. -/
def total (crew : Crew ε σ) (workload : Workload) : Tally :=
  ((List.range workload.threads).map fun thread => (crew.workers thread).tally).foldl Tally.add {}

variable [Engine ε] [Sink σ]

/-- A thread that has got the lock makes its next write and goes on whatever the answer is. -/
def turn (workload : Workload) (crew : Crew ε σ) (thread : Nat) : Crew ε σ :=
  let worker := crew.workers thread
  let payload := workload.payload thread worker.sequence
  let (answer, writer) := crew.writer.write payload
  { writer
    workers := Function.update crew.workers thread
      ⟨worker.sequence + 1, worker.tally.count payload answer⟩ }

def run (workload : Workload) (crew : Crew ε σ) (schedule : List Nat) : Crew ε σ :=
  schedule.foldl (turn workload) crew

end Crew
end SeekableArchive
