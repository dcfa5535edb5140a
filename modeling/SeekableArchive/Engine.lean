import SeekableArchive.Config

/-!
# Compression engines

An engine is a state machine with three operations: accept a setting, say how
large an output buffer it likes, and take input while giving output.  The
archive writer knows engines by this interface only.
-/

namespace SeekableArchive

inductive SettingKind
  | level
  | strategy
  | workers
deriving DecidableEq

def SettingKind.label : SettingKind → String
  | .level => "compression level"
  | .strategy => "strategy"
  | .workers => "workers"

inductive Setting
  | level (value : Int32)
  | strategy (value : Strategy)
  | workers (count : UInt32)
deriving DecidableEq

def Setting.kind : Setting → SettingKind
  | level _ => .level
  | strategy _ => .strategy
  | workers _ => .workers

/-- The settings that an engine is given, in the order in which it gets them. -/
def Config.settings (config : Config) : List Setting :=
  [.level config.level, .strategy config.strategy, .workers config.workers]

/-- Whether a call leaves the frame open or flushes and completes it. -/
inductive FlushMode
  | proceed
  | complete
deriving DecidableEq

def FlushMode.operation : FlushMode → String
  | .proceed => "compress"
  | .complete => "end frame"

/-- What one call of the engine did: how much input it took, the bytes it put
into the output buffer, and how much output it still holds at least.  After a
completing call, nothing held means that the frame is complete. -/
structure EngineStep where
  consumed : Nat
  output : Bytes
  remaining : Nat
deriving DecidableEq

namespace EngineStep

def idle : EngineStep := ⟨0, [], 0⟩

def Stalled (step : EngineStep) : Prop :=
  step.consumed = 0 ∧ step.output = []

instance (step : EngineStep) : Decidable step.Stalled :=
  inferInstanceAs (Decidable (_ ∧ _))

end EngineStep

class Engine (ε : Type) where
  configure : Setting → EStateM ArchiveError ε Unit
  outputChunkSize : ε → Nat
  /-- Offers input and an output buffer with room for so many bytes. -/
  compress : FlushMode → Bytes → Nat → EStateM ArchiveError ε EngineStep

namespace Engine

/-- The engine never takes more than it is offered nor overruns its buffer. -/
def RespectsBuffers (ε : Type) [Engine ε] : Prop :=
  ∀ (mode : FlushMode) (input : Bytes) (room : Nat) (e e' : ε) (step : EngineStep),
    compress mode input room e = .ok step e' →
      step.consumed ≤ input.length ∧ step.output.length ≤ room

end Engine

end SeekableArchive
