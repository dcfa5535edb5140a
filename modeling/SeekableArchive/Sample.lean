import SeekableArchive.Bytes

/-!
# Sample data and trials

Data that compresses well and data that does not, and how much is tried out on
properties of archives.
-/

namespace SeekableArchive

/-- Runs of seven equal bytes, counting up to the prime 251. -/
def sampleData (size : Nat) : Bytes :=
  (List.range size).map fun i => UInt8.ofNat (i / 7 % 251)

/-- The low bytes of an arithmetic progression. -/
def progression (start difference : Int) (size : Nat) : Bytes :=
  (List.range size).map fun (i : Nat) =>
    UInt8.ofNat ((start + i * difference) % 256).toNat

/-- High bytes of a linear congruential sequence, in front of `later` ones in reverse. -/
def noiseFrom (seed : UInt32) : Nat → Bytes → Bytes
  | 0, later => later.reverse
  | size + 1, later =>
      let seed := seed * 1664525 + 1013904223
      noiseFrom seed size ((seed >>> 24).toUInt8 :: later)

/-- The high bytes of a linear congruential sequence. -/
def noise (seed : UInt32) (size : Nat) : Bytes :=
  noiseFrom seed size []

/-- How many random cases a property is tried on, and how many steps are spent on
making a failing case smaller. -/
structure Trials where
  cases : Nat := 256
  shrinkSteps : Nat := 1000
deriving DecidableEq

def Trials.quick : Trials where
  cases := 32
  shrinkSteps := 100

end SeekableArchive
