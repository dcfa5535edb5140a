import SeekableArchive.Engine
import SeekableArchive.Zstd.Frame

/-!
# An engine that stores

The engine takes all input it is offered and gives out nothing until its frame
is completed; then the whole content leaves it in stored blocks.  Its settings
do not change the output.  The number of workers is refused while a frame is
open, and workers that are told to proceed with a complete frame refuse that
call and every later one.
-/

namespace SeekableArchive
namespace Zstd

open LittleEndian

/-- The frame descriptor: no stated size, no checksum, no dictionary. -/
def storedDescriptor : UInt8 := 0

/-- The window descriptor of a window as large as the largest block. -/
def storedWindow : UInt8 := 0x38

def storedBlockHeader (isLast : Bool) (size : Nat) : Bytes :=
  ofNat 3 (size * 8 + if isLast then 1 else 0)

/-- A content in at most `count` stored blocks, all full but the last. -/
def storedBlocks : Nat → Bytes → List Bytes
  | 0, _ => []
  | count + 1, content =>
      let block := content.take maxBlockSize
      let rest := content.drop maxBlockSize
      if rest = [] then [storedBlockHeader true block.length, block]
      else storedBlockHeader false block.length :: block :: storedBlocks count rest

def storedFrame (content : Bytes) : Bytes :=
  ofNat 4 magic ++ [storedDescriptor, storedWindow] ++
    (storedBlocks (content.length / maxBlockSize + 1) content).flatten

inductive Stage
  | idle
  /-- The open frame takes input and holds what it has taken, the newest first. -/
  | filling (isShared : Bool) (inputs : List Bytes)
  /-- The frame is complete, and this much of it is left to give out. -/
  | draining (isShared : Bool) (left : Bytes)
  /-- Workers were told to proceed with a complete frame; every call is refused. -/
  | broken
deriving DecidableEq

structure StoredEngine where
  workers : UInt32 := 0
  stage : Stage := .idle
deriving DecidableEq

namespace StoredEngine

/-- The output buffer that holds any frame of one block. -/
def chunkSize : Nat := 131591

def busyMessage : String :=
  "Operation not authorized at current processing stage"

/-- A count with its highest bit set stands for no workers. -/
def HasWorkers (e : StoredEngine) : Prop :=
  0 < e.workers.toNat ∧ e.workers.toNat < 0x8000_0000

instance (e : StoredEngine) : Decidable e.HasWorkers :=
  inferInstanceAs (Decidable (_ ∧ _))

def configure (setting : Setting) (e : StoredEngine) :
    EStateM.Result ArchiveError StoredEngine Unit :=
  match setting with
  | .workers count =>
      if e.stage = .idle then .ok () { e with workers := count }
      else .error (.settingRejected setting.kind.label busyMessage) e
  | _ => .ok () e

/-- The stage after input was taken.  A frame that begins with taking input is shared among
the workers. -/
def taking (input : Bytes) (e : StoredEngine) : Stage :=
  match e.stage with
  | .filling isShared inputs => .filling isShared (input :: inputs)
  | _ => .filling e.HasWorkers [input]

/-- The stage after the last of a frame was given out.  Workers that are not told to
complete a frame begin the next one at once. -/
def afterFrame (mode : FlushMode) (e : StoredEngine) : Stage :=
  if mode = .proceed ∧ e.HasWorkers then .filling true [] else .idle

/-- Gives out as much of a complete frame as there is room for. -/
def giveOut (mode : FlushMode) (isShared : Bool) (frame : Bytes) (consumed room : Nat)
    (e : StoredEngine) : EStateM.Result ArchiveError StoredEngine EngineStep :=
  let left := frame.drop room
  .ok ⟨consumed, frame.take room, left.length⟩
    { e with stage := if left = [] then e.afterFrame mode else .draining isShared left }

def compress (mode : FlushMode) (input : Bytes) (room : Nat) (e : StoredEngine) :
    EStateM.Result ArchiveError StoredEngine EngineStep :=
  let refuse := EStateM.Result.error (.engine mode.operation busyMessage)
    { e with stage := .broken }
  match e.stage, mode with
  | .broken, _ => refuse
  | .draining true _, .proceed => refuse
  | .draining isShared left, _ => e.giveOut mode isShared left 0 room
  | _, .proceed => .ok ⟨input.length, [], 0⟩ { e with stage := e.taking input }
  | .filling isShared inputs, .complete =>
      e.giveOut mode isShared (storedFrame (input :: inputs).reverse.flatten) input.length room
  | .idle, .complete => e.giveOut mode false (storedFrame input) input.length room

instance : Engine StoredEngine where
  configure := configure
  outputChunkSize _ := chunkSize
  compress := compress

end StoredEngine

end Zstd
end SeekableArchive
