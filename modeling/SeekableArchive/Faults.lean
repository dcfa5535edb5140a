import SeekableArchive.Journal

/-!
# Planned faults

A plan says which call of an engine or a sink is to fail.  A faulty engine or
sink follows its plan and otherwise does what the one inside it does.
-/

namespace SeekableArchive

structure EngineFaults where
  failCreate : Bool := false
  rejectSetting : Option SettingKind := none
  /-- The call, counted from one, that fails. -/
  failCall : Option Nat := none
  failEndFrame : Bool := false
  /-- Calls with input take none of it and give no output. -/
  stall : Bool := false
deriving DecidableEq

structure SinkFaults where
  failOpen : Bool := false
  /-- The write with any bytes in it, counted from one, that fails. -/
  failWrite : Option Nat := none
  /-- The write with any bytes in it, counted from one, of which half is accepted. -/
  shortWrite : Option Nat := none
  failClose : Bool := false
deriving DecidableEq

def injectedFault (operation : String) : SinkError :=
  .io (.other ("injected sink " ++ operation ++ " failure"))

structure FaultyEngine (ε : Type) where
  engine : ε
  faults : EngineFaults
  calls : Nat := 0

namespace FaultyEngine

variable {ε : Type}

def create (faults : EngineFaults) (engine : ε) : Except ArchiveError (FaultyEngine ε) :=
  if faults.failCreate then .error (.allocation "injected engine creation failure")
  else .ok { engine, faults }

def inside {α : Type} (act : EStateM ArchiveError ε α) :
    EStateM ArchiveError (FaultyEngine ε) α := fun f =>
  match act f.engine with
  | .ok a e => .ok a { f with engine := e }
  | .error error e => .error error { f with engine := e }

variable [Engine ε]

def configure (setting : Setting) : EStateM ArchiveError (FaultyEngine ε) Unit := do
  if (← get).faults.rejectSetting = some setting.kind then
    throw (.settingRejected setting.kind.label "injected rejection")
  inside (Engine.configure setting)

def compress (mode : FlushMode) (input : Bytes) (room : Nat) :
    EStateM ArchiveError (FaultyEngine ε) EngineStep := do
  modify fun f => { f with calls := f.calls + 1 }
  let f ← get
  if f.faults.failCall = some f.calls then
    throw (.engine FlushMode.proceed.operation "injected engine failure")
  else if f.faults.failEndFrame ∧ mode = .complete then
    throw (.engine FlushMode.complete.operation "injected engine failure")
  else if f.faults.stall ∧ input ≠ [] then return .idle
  else inside (Engine.compress mode input room)

instance : Engine (FaultyEngine ε) where
  configure := configure
  outputChunkSize f := Engine.outputChunkSize f.engine
  compress := compress

end FaultyEngine

structure FaultySink (σ : Type) where
  sink : σ
  faults : SinkFaults
  /-- The writes so far that had any bytes in them. -/
  writes : Nat := 0

namespace FaultySink

variable {σ : Type}

def openOver (faults : SinkFaults) (sink : σ) : Except SinkError (FaultySink σ) :=
  if faults.failOpen then .error (injectedFault "open") else .ok { sink, faults }

def inside {α : Type} (act : EStateM SinkError σ α) : EStateM SinkError (FaultySink σ) α :=
  fun f =>
    match act f.sink with
    | .ok a s => .ok a { f with sink := s }
    | .error error s => .error error { f with sink := s }

variable [Sink σ]

def write (data : Bytes) : EStateM SinkError (FaultySink σ) Nat :=
  if data = [] then inside (Sink.write data)
  else do
    modify fun f => { f with writes := f.writes + 1 }
    let f ← get
    if f.faults.failWrite = some f.writes then throw (injectedFault "write")
    else if f.faults.shortWrite = some f.writes then
      inside (Sink.write (data.take (data.length / 2)))
    else inside (Sink.write data)

def close : EStateM SinkError (FaultySink σ) Unit := do
  if (← get).faults.failClose then throw (injectedFault "close")
  else inside Sink.close

instance : Sink (FaultySink σ) where
  write := write
  close := close

end FaultySink

end SeekableArchive
