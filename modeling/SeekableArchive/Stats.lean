/-!
# Counters of an archive writer

`Stats` is the state of the counters while an archive is written, `Summary`
what is left of them once it is closed.
-/

namespace SeekableArchive

/-- The quotient of two counters as a double, once anything came in. -/
def ratio (bytesOut bytesIn : Nat) : Option Float :=
  if bytesIn = 0 then none
  else some (bytesOut.toUInt64.toFloat / bytesIn.toUInt64.toFloat)

structure Stats where
  frames : Nat := 0
  bytesIn : Nat := 0
  bytesOut : Nat := 0
  /-- Bytes taken in since the last frame end. -/
  pendingUncompressed : Nat := 0
  /-- Bytes given out since the last frame end. -/
  pendingCompressed : Nat := 0
deriving DecidableEq

def Stats.compressionRatio (s : Stats) : Option Float :=
  ratio s.bytesOut s.bytesIn

structure Summary where
  frames : Nat
  bytesIn : Nat
  bytesOut : Nat
deriving DecidableEq

def Summary.compressionRatio (s : Summary) : Option Float :=
  ratio s.bytesOut s.bytesIn

end SeekableArchive
