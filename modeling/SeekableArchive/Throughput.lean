import SeekableArchive.Records
import SeekableArchive.Text.Decimal
import SeekableArchive.Text.Duration

/-!
# Throughput of a workload

The tally of a workload together with the time it took, and its summary as text.
-/

namespace SeekableArchive

structure Throughput where
  tally : Tally
  duration : Duration
deriving DecidableEq

namespace Throughput

def opsPerSecond (t : Throughput) : Float :=
  let seconds := t.duration.toFloat
  if 0 < seconds then t.tally.total.toUInt64.toFloat / seconds else 0

/-- The lines that report a run under a name, each with its line break. -/
def summary (t : Throughput) (name : String) : String :=
  "\n=== " ++ name ++ " ===\n" ++
    "Total writes: " ++ toString t.tally.total ++ "\n" ++
    "Successful: " ++ toString t.tally.succeeded ++ "\n" ++
    "Failed: " ++ toString t.tally.failed ++ "\n" ++
    "Bytes: " ++ toString t.tally.bytes ++ "\n" ++
    "Duration: " ++ t.duration.text ++ "\n" ++
    "Throughput: " ++ Text.fixed 2 t.opsPerSecond ++ " writes/sec\n"

end Throughput

end SeekableArchive
