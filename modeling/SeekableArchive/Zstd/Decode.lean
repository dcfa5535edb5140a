import SeekableArchive.Xxh64
import SeekableArchive.Zstd.Frame

/-!
# Decoding a stream of frames

`decode` reads frames until its input ends, which it may do only between
frames.  Compressed frames contribute their contents in order and skippable
frames contribute nothing.

A frame is decoded in one step if it has arrived as a whole and states a content
for which there is room; then only its whole content matters.  Any other frame is
decoded block by block within its window.
-/

namespace SeekableArchive
namespace Zstd

open LittleEndian

/-- The little-endian bytes of a number are a possible beginning of a magic if
they agree with those of one in as many bytes as there are. -/
def mayBeginFrame (bs : Bytes) : Bool :=
  let front := bs.take 4
  let completed := fun (word : Nat) => toNat (front ++ (ofNat 4 word).drop front.length)
  completed magic = magic ∨ IsSkippableMagic (completed firstSkippableMagic)

/-- Checks the checksum behind a frame's blocks, if there is one. -/
def readChecksum (header : FrameHeader) (content bs : Bytes) : Except DecodeError Bytes :=
  if header.hasChecksum then
    match split 4 bs with
    | .error e => .error e
    | .ok (stored, rest) =>
        if readWord stored = Xxh64.checksum content then .ok rest else .error .wrongChecksum
  else .ok bs

/-- The room for decoded bytes in one step. -/
def outputRoom : Nat := 8 * 1024

/-- The bytes in which the input arrives together: a full block with its header. -/
def portionSize : Nat := maxBlockSize + 3

/-- What follows a frame, if everything of it is there. -/
def frameEnd? (header : FrameHeader) (bs : Bytes) : Option Bytes := do
  let bs ← skipBlocks? bs
  if header.hasChecksum then (split 4 bs).toOption.map (·.2) else bs

/-- Whether what stands in an input of `total` bytes between the last `front.length` and
the last `rest.length` of them arrives together. -/
def arrivesTogether (total : Nat) (front rest : Bytes) : Bool :=
  (total - front.length) / portionSize = (total - rest.length - 1) / portionSize

/-- Whether the frame that begins at `front` in an input of `total` bytes is decoded in one
step; `bs` follows its header. -/
def isOneStep (header : FrameHeader) (total : Nat) (front bs : Bytes) : Bool :=
  header.contentSize.any (· ≤ outputRoom) &&
    (frameEnd? header bs).any (arrivesTogether total front)

/-- Whether the decoded blocks, newest first, are not held to the stated size: block by
block, an empty one ends the frame at once. -/
def endsUnchecked (oneStep : Bool) (blocks : List Block) : Bool :=
  !oneStep && blocks.head?.any (·.IsEmpty)

/-- Reads a compressed frame that begins at `front`; `bs` follows its magic. -/
def readCompressed (total : Nat) (front bs : Bytes) : Except DecodeError (Bytes × Bytes) := do
  let (header, bs) ← readHeader bs
  let oneStep := isOneStep header total front bs
  if header.dictionary ≠ 0 then throw .wrongDictionary
  if !oneStep && maxWindowSize < header.windowSize then throw .windowTooLarge
  let (blocks, bs) ← readBlocks (if oneStep then none else some header.blockLimit) bs []
  let content := (blocks.reverse.map (·.content)).flatten
  if header.contentSize.any (· ≠ content.length) && !endsUnchecked oneStep blocks then
    throw .corrupted
  let rest ← readChecksum header content bs
  return (content, rest)

/-- Reads a frame to be skipped behind its magic. -/
def readSkippable (bs : Bytes) : Except DecodeError (Bytes × Bytes) := do
  let (size, bs) ← split 4 bs
  let (_, rest) ← split (toNat size) bs
  return ([], rest)

/-- The content of the frame in front of the rest of an input of `total` bytes, and the
bytes after it. -/
def readFrame (total : Nat) (bs : Bytes) : Except DecodeError (Bytes × Bytes) :=
  if mayBeginFrame bs then
    match split 4 bs with
    | .error e => .error e
    | .ok (word, rest) =>
        if toNat word = magic then readCompressed total bs rest else readSkippable rest
  else .error .unknownFrame

/-- Reads frames to the end of an input of `total` bytes, at most `limit` of them. -/
def readFrames (total : Nat) : Nat → Bytes → List Bytes → Except DecodeError (List Bytes)
  | 0, _, _ => .error .incomplete
  | limit + 1, bs, contents =>
      match readFrame total bs with
      | .error e => .error e
      | .ok (content, rest) =>
          if rest = [] then .ok (content :: contents)
          else readFrames total limit rest (content :: contents)

/-- The contents of all frames in a stream that holds at least one.  A frame has
more than one byte, so there are fewer frames than bytes. -/
def decode (bs : Bytes) : Except DecodeError Bytes :=
  match readFrames bs.length (bs.length + 1) bs [] with
  | .error e => .error e
  | .ok contents => .ok contents.reverse.flatten

end Zstd
end SeekableArchive
