import SeekableArchive.Bytes

/-!
# XXH64 with seed zero

Four lanes take in stripes of thirty-two bytes; what is left over is mixed in
at the end.  `hash` reads a whole byte string, a `Hasher` takes it in pieces
and keeps the bytes that do not fill a stripe yet.
-/

namespace SeekableArchive
namespace Xxh64

def prime₁ : UInt64 := 0x9E3779B185EBCA87

def prime₂ : UInt64 := 0xC2B2AE3D27D4EB4F

def prime₃ : UInt64 := 0x165667B19E3779F9

def prime₄ : UInt64 := 0x85EBCA77C2B2AE63

def prime₅ : UInt64 := 0x27D4EB2F165667C5

def rotateLeft (x count : UInt64) : UInt64 :=
  (x <<< count) ||| (x >>> (64 - count))

/-- The little-endian number in the first `width` bytes. -/
def readBytes : Nat → Bytes → UInt64
  | width + 1, b :: bs => b.toUInt64 ||| (readBytes width bs <<< 8)
  | _, _ => 0

def round (lane input : UInt64) : UInt64 :=
  rotateLeft (lane + input * prime₂) 31 * prime₁

def mergeRound (acc lane : UInt64) : UInt64 :=
  (acc ^^^ round 0 lane) * prime₁ + prime₄

structure Lanes where
  first : UInt64
  second : UInt64
  third : UInt64
  fourth : UInt64
deriving DecidableEq

namespace Lanes

def start : Lanes :=
  ⟨prime₁ + prime₂, prime₂, 0, 0 - prime₁⟩

/-- Takes in one stripe, eight bytes to each lane. -/
def absorbStripe (lanes : Lanes) (stripe : Bytes) : Lanes :=
  ⟨round lanes.first (readBytes 8 stripe),
    round lanes.second (readBytes 8 (stripe.drop 8)),
    round lanes.third (readBytes 8 (stripe.drop 16)),
    round lanes.fourth (readBytes 8 (stripe.drop 24))⟩

/-- Takes in `count` stripes and returns the bytes after them. -/
def absorbStripes : Nat → Lanes → Bytes → Lanes × Bytes
  | 0, lanes, data => (lanes, data)
  | count + 1, lanes, data =>
      absorbStripes count (lanes.absorbStripe (data.take 32)) (data.drop 32)

/-- Takes in every whole stripe and returns the fewer than 32 bytes left. -/
def absorb (lanes : Lanes) (data : Bytes) : Lanes × Bytes :=
  absorbStripes (data.length / 32) lanes data

def merge (lanes : Lanes) : UInt64 :=
  let acc := rotateLeft lanes.first 1 + rotateLeft lanes.second 7 +
    rotateLeft lanes.third 12 + rotateLeft lanes.fourth 18
  [lanes.first, lanes.second, lanes.third, lanes.fourth].foldl mergeRound acc

end Lanes

def mixWord (acc word : UInt64) : UInt64 :=
  rotateLeft (acc ^^^ round 0 word) 27 * prime₁ + prime₄

def mixHalfWord (acc half : UInt64) : UInt64 :=
  rotateLeft (acc ^^^ half * prime₁) 23 * prime₂ + prime₃

def mixByte (acc byte : UInt64) : UInt64 :=
  rotateLeft (acc ^^^ byte * prime₅) 11 * prime₁

/-- Mixes in `count` words and returns the bytes after them. -/
def mixWords : Nat → UInt64 → Bytes → UInt64 × Bytes
  | 0, acc, rest => (acc, rest)
  | count + 1, acc, rest => mixWords count (mixWord acc (readBytes 8 rest)) (rest.drop 8)

/-- Mixes in the bytes that filled no stripe: words, a half word, then bytes. -/
def mixRest (acc : UInt64) (rest : Bytes) : UInt64 :=
  let (acc, rest) := mixWords (rest.length / 8) acc rest
  let (acc, rest) :=
    if 4 ≤ rest.length then (mixHalfWord acc (readBytes 4 rest), rest.drop 4) else (acc, rest)
  rest.foldl (fun acc b => mixByte acc b.toUInt64) acc

def avalanche (acc : UInt64) : UInt64 :=
  let acc := (acc ^^^ (acc >>> 33)) * prime₂
  let acc := (acc ^^^ (acc >>> 29)) * prime₃
  acc ^^^ (acc >>> 32)

/-- The hash of `length` bytes from the lanes and the bytes that filled no stripe. -/
def finish (lanes : Lanes) (rest : Bytes) (length : Nat) : UInt64 :=
  let acc := if 32 ≤ length then lanes.merge else prime₅
  avalanche (mixRest (acc + UInt64.ofNat length) rest)

def hash (data : Bytes) : UInt64 :=
  let (lanes, rest) := Lanes.start.absorb data
  finish lanes rest data.length

-- Digests that are published for XXH64.  The second text goes through every stage: a stripe,
-- three words, a half word and three bytes.

example : hash [] = 0xEF46DB3751D8E999 := by decide

example : hash "Call me Ishmael. Some years ago--never mind how long precisely-".toUTF8.toList =
    0x02A2E85470D6FD96 := by decide +kernel

/-- The low half of the hash, the form in which a frame's checksum is stored. -/
def checksum (data : Bytes) : UInt32 :=
  (hash data).toUInt32

/-- A hash under way: the lanes so far, the bytes that fill no stripe yet, and
the number of bytes taken in. -/
structure Hasher where
  lanes : Lanes := Lanes.start
  rest : Bytes := []
  length : Nat := 0
deriving DecidableEq

namespace Hasher

def start : Hasher := {}

def update (h : Hasher) (data : Bytes) : Hasher :=
  let (lanes, rest) := h.lanes.absorb (h.rest ++ data)
  ⟨lanes, rest, h.length + data.length⟩

def digest (h : Hasher) : UInt64 :=
  finish h.lanes h.rest h.length

def checksum (h : Hasher) : UInt32 :=
  h.digest.toUInt32

end Hasher

end Xxh64
end SeekableArchive
