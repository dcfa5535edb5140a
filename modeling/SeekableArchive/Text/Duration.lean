import SeekableArchive.Text.Digits

/-!
# Durations

A length of time in seconds and nanoseconds.  Its text is in the largest unit
of which there is at least one, with as many decimals as are needed.
-/

namespace SeekableArchive

structure Duration where
  seconds : Nat
  nanoseconds : Nat
  nanoseconds_lt : nanoseconds < 1_000_000_000 := by omega
deriving DecidableEq

namespace Duration

/-- A duration from any number of nanoseconds beyond whole seconds. -/
def ofParts (seconds nanoseconds : Nat) : Duration where
  seconds := seconds + nanoseconds / 1_000_000_000
  nanoseconds := nanoseconds % 1_000_000_000
  nanoseconds_lt := Nat.mod_lt _ (by decide)

def toFloat (d : Duration) : Float :=
  d.seconds.toUInt64.toFloat + d.nanoseconds.toUInt64.toFloat / 1e9

/-- The decimals of a fraction of so many digits, without trailing zeros. -/
def decimals (width fraction : Nat) : List Char :=
  let digits := ((Text.fixedDigits 10 width fraction).reverse.dropWhile (· = '0')).reverse
  if digits = [] then [] else '.' :: digits

def withUnit (whole width fraction : Nat) (unit : String) : String :=
  toString whole ++ String.ofList (decimals width fraction) ++ unit

def text (d : Duration) : String :=
  let n := d.nanoseconds
  if 0 < d.seconds then withUnit d.seconds 9 n "s"
  else if 1_000_000 ≤ n then withUnit (n / 1_000_000) 6 (n % 1_000_000) "ms"
  else if 1_000 ≤ n then withUnit (n / 1_000) 3 (n % 1_000) "µs"
  else withUnit n 0 0 "ns"

end Duration

end SeekableArchive
