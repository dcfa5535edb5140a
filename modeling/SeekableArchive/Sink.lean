import SeekableArchive.Error

/-!
# Sinks

A sink takes an archive's bytes in order.  It may accept fewer bytes than it is
given; `writeFully` turns that into an error.  A `MemorySink` keeps everything.
-/

namespace SeekableArchive

class Sink (σ : Type) where
  /-- Appends bytes and answers how many of them it accepted. -/
  write : Bytes → EStateM SinkError σ Nat
  close : EStateM SinkError σ Unit

namespace Sink

/-- Appends all of `data`, or fails; an empty `data` does not reach the sink. -/
def writeFully {σ : Type} [Sink σ] (data : Bytes) : EStateM SinkError σ Unit :=
  if data = [] then pure ()
  else do
    let written ← write data
    if written < data.length then throw (.shortWrite data.length written)

end Sink

/-- A sink that keeps its contents, the newest chunk first. -/
structure MemorySink where
  chunks : List Bytes := []
  isClosed : Bool := false
deriving DecidableEq

namespace MemorySink

def contents (s : MemorySink) : Bytes :=
  s.chunks.reverse.flatten

def append (s : MemorySink) (data : Bytes) : MemorySink :=
  { s with chunks := data :: s.chunks }

@[simp] theorem contents_empty : ({} : MemorySink).contents = [] := rfl

@[simp] theorem contents_append (s : MemorySink) (data : Bytes) :
    (s.append data).contents = s.contents ++ data := by
  simp [contents, append]

instance : Sink MemorySink where
  write data s :=
    if s.isClosed then .error .closed s else .ok data.length (s.append data)
  close s :=
    if s.isClosed then .error .closed s else .ok () { s with isClosed := true }

end MemorySink

end SeekableArchive
