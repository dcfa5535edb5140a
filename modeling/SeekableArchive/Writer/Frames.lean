import SeekableArchive.Writer.State

/-!
# Filling and ending frames

The loops of an archive writer.  `consume` offers data to the engine until all
of it is taken, `drainFrame` completes the open frame, and `drainTable` hands the
seek table to the sink.  Whatever the engine gives out goes to the sink before
the engine is called again.
-/

namespace SeekableArchive

namespace Action

variable {ε σ : Type} [Engine ε] [Sink σ]

/-- Appends engine output to the archive and counts it. -/
def append (chunk : Bytes) : Action ε σ Unit := do
  onSink (Sink.writeFully chunk)
  modify fun w => { w with
    pendingCompressed := w.pendingCompressed + chunk.length
    bytesOut := w.bytesOut + chunk.length }

/-- Reserves an output buffer of the size that the engine likes. -/
def outputBuffer (what : String) : Action ε σ Nat := do
  let room := Engine.outputChunkSize (← get).engine
  ofExcept (Reservation.buffer what room)
  return room

/-- Offers what is left of `data` until nothing is left. -/
def consume (room : Nat) : Nat → Bytes → Action ε σ Unit
  | 0, _ => throw .unfinished
  | calls + 1, data => do
      let step ← onEngine (Recorded.compress .proceed data room)
      if step.Stalled ∧ data ≠ [] then fail .stalled
      else
        append step.output
        let rest := data.drop step.consumed
        if rest = [] then pure () else consume room calls rest

/-- Makes the engine flush and complete the open frame. -/
def drainFrame (room : Nat) : Nat → Action ε σ Unit
  | 0 => throw .unfinished
  | calls + 1 => do
      let step ← onEngine (Recorded.compress .complete [] room)
      append step.output
      if step.remaining = 0 then pure () else drainFrame room calls

def recordFrame : Action ε σ Unit := do
  let w ← get
  let checksum := (w.hasher.map Xxh64.Hasher.checksum).getD 0
  set { w with hasher := some .start }
  match w.frameLog.record w.pendingCompressed w.pendingUncompressed checksum with
  | .error fault => fail (.frameLog fault.message)
  | .ok frameLog =>
      modify fun w => { w with frameLog }
      log (.frameEnded w.frames w.pendingCompressed w.pendingUncompressed)
      modify fun w => { w with pendingUncompressed := 0, pendingCompressed := 0 }

def endFrame : Action ε σ Unit := do
  let room ← outputBuffer "frame end output buffer"
  drainFrame room (← get).callLimit
  recordFrame

/-- Compresses `data` into the archive, after ending the open frame if it is full. -/
def accept (data : Bytes) : Action ε σ Unit := do
  let w ← get
  if w.minFrameSize ≤ w.pendingUncompressed then endFrame
  let room ← outputBuffer "compression output buffer"
  consume room (← get).callLimit data
  modify fun w => { w with
    hasher := w.hasher.map (·.update data)
    pendingUncompressed := w.pendingUncompressed + data.length
    bytesIn := w.bytesIn + data.length }

/-- Hands the rest of the seek table to the sink, `room` bytes at a time. -/
def drainTable (room : Nat) : Nat → Action ε σ Unit
  | 0 => throw .unfinished
  | pieces + 1 => do
      let w ← get
      ofExcept w.frameLog.reserveTable
      let (step, frameLog) := w.frameLog.serialize room
      set { w with frameLog }
      onSink (Sink.writeFully step.output)
      modify fun w => { w with bytesOut := w.bytesOut + step.output.length }
      if step.remaining = 0 then pure () else drainTable room pieces

/-- A table of positive size takes at most as many pieces as it has bytes. -/
def writeTable : Action ε σ Unit := do
  let w ← get
  ofExcept (Reservation.buffer "seek table buffer" w.footerChunkSize)
  drainTable w.footerChunkSize w.frameLog.table.encodedSize
  log (.tableWritten w.frames)

/-- Ends the open frame if it holds any data, and appends the seek table. -/
def complete : Action ε σ Unit := do
  if 0 < (← get).pendingUncompressed then endFrame
  writeTable

end Action

end SeekableArchive
