import SeekableArchive.Bytes

/-!
# Zstandard frames

The parts of a compressed stream that matter here: frame headers, blocks whose
content is stored or repeated, and frames to be skipped.  Every reader below
takes its part from the front and returns the bytes after it, and the bytes
returned are fewer than the bytes read from.
-/

namespace SeekableArchive
namespace Zstd

open LittleEndian

inductive DecodeError
  | incomplete
  | unknownFrame
  | corrupted
  | wrongChecksum
  | unsupportedParameter
  | wrongDictionary
  | windowTooLarge
deriving DecidableEq

def DecodeError.message : DecodeError → String
  | .incomplete => "incomplete frame"
  | .unknownFrame => "Unknown frame descriptor"
  | .corrupted => "Data corruption detected"
  | .wrongChecksum => "Restored data doesn't match checksum"
  | .unsupportedParameter => "Unsupported frame parameter"
  | .wrongDictionary => "Dictionary mismatch"
  | .windowTooLarge => "Frame requires too much memory for decoding"

/-- The first `n` bytes and the bytes after them. -/
def split (n : Nat) (bs : Bytes) : Except DecodeError (Bytes × Bytes) :=
  let (front, rest) := bs.splitAt n
  if front.length < n then .error .incomplete else .ok (front, rest)

theorem split_eq_ok_iff {n : Nat} {bs front rest : Bytes} :
    split n bs = .ok (front, rest) ↔ bs = front ++ rest ∧ front.length = n := by
  simp only [split, List.splitAt_eq]
  constructor
  · intro h
    split at h
    · cases h
    · rename_i hlen
      simp only [Except.ok.injEq, Prod.mk.injEq] at h
      obtain ⟨rfl, rfl⟩ := h
      refine ⟨(List.take_append_drop n bs).symm, ?_⟩
      have := List.length_take_le n bs
      omega
  · rintro ⟨rfl, rfl⟩
    simp

theorem length_of_split {n : Nat} {bs front rest : Bytes}
    (h : split n bs = .ok (front, rest)) : rest.length + n = bs.length := by
  obtain ⟨rfl, rfl⟩ := split_eq_ok_iff.mp h
  simp [Nat.add_comm]

/-- The word in front of a frame, low byte first. -/
def magic : Nat := 0xFD2FB528

/-- Sixteen words stand in front of frames to be skipped; this is the first. -/
def firstSkippableMagic : Nat := 0x184D2A50

def IsSkippableMagic (word : Nat) : Prop :=
  word / 16 = firstSkippableMagic / 16

instance (word : Nat) : Decidable (IsSkippableMagic word) :=
  inferInstanceAs (Decidable (_ = _))

/-- The most bytes that a block may decode to. -/
def maxBlockSize : Nat := 128 * 1024

/-- The largest window that a decoder sets aside. -/
def maxWindowSize : Nat := 128 * 1024 * 1024 + 1

/-- The largest power of two that the window of a frame may start from. -/
def maxWindowLog : Nat := 31

structure FrameHeader where
  windowSize : Nat
  dictionary : Nat
  contentSize : Option Nat
  hasChecksum : Bool
deriving DecidableEq

/-- The most bytes that a block of the frame may decode to when it is decoded on its own. -/
def FrameHeader.blockLimit (header : FrameHeader) : Nat :=
  min header.windowSize maxBlockSize

/-- The power of two in the high five bits of a window descriptor. -/
def windowLog (descriptor : Nat) : Nat :=
  10 + descriptor / 8

/-- The window that a window descriptor stands for: its power of two, and as
many eighths of it as the low three bits say. -/
def windowOfDescriptor (descriptor : Nat) : Nat :=
  let power := 1 <<< windowLog descriptor
  power + power / 8 * (descriptor % 8)

structure Descriptor where
  contentSizeFlag : Nat
  singleSegment : Bool
  reserved : Bool
  hasChecksum : Bool
  dictionaryFlag : Nat
deriving DecidableEq

namespace Descriptor

def ofByte (b : UInt8) : Descriptor where
  contentSizeFlag := b.toNat / 64
  singleSegment := b.toNat / 32 % 2 = 1
  reserved := b.toNat / 8 % 2 = 1
  hasChecksum := b.toNat / 4 % 2 = 1
  dictionaryFlag := b.toNat % 4

def windowWidth (d : Descriptor) : Nat :=
  if d.singleSegment then 0 else 1

def dictionaryWidth (d : Descriptor) : Nat :=
  [0, 1, 2, 4].getD d.dictionaryFlag 0

def contentSizeWidth (d : Descriptor) : Nat :=
  match d.contentSizeFlag with
  | 0 => if d.singleSegment then 1 else 0
  | 1 => 2
  | 2 => 4
  | _ => 8

end Descriptor

/-- The stated size that stands for an unknown one. -/
def unknownSize : Nat := 0xFFFF_FFFF_FFFF_FFFF

/-- Reads what follows the magic of a frame. -/
def readHeader (bs : Bytes) : Except DecodeError (FrameHeader × Bytes) := do
  let (first, bs) ← split 1 bs
  let d := Descriptor.ofByte (first.headD 0)
  let (window, bs) ← split d.windowWidth bs
  let (dictionary, bs) ← split d.dictionaryWidth bs
  let (size, bs) ← split d.contentSizeWidth bs
  if d.reserved then throw .unsupportedParameter
  -- A size of two bytes starts where a size of one byte ends.
  let stated := toNat size + if d.contentSizeFlag = 1 then 256 else 0
  let windowSize := if d.singleSegment then stated else windowOfDescriptor (toNat window)
  if maxWindowLog < windowLog (toNat window) then throw .windowTooLarge
  let contentSize := if size = [] ∨ stated = unknownSize then none else some stated
  return (⟨windowSize, toNat dictionary, contentSize, d.hasChecksum⟩, bs)

inductive BlockKind
  | stored
  | repeated
  | compressed
  | reserved
deriving DecidableEq

def BlockKind.ofCode : Nat → BlockKind
  | 0 => stored
  | 1 => repeated
  | 2 => compressed
  | _ => reserved

structure BlockHeader where
  isLast : Bool
  kind : BlockKind
  size : Nat
deriving DecidableEq

/-- The bytes between a block's header and the next block. -/
def BlockHeader.bodySize? (header : BlockHeader) : Option Nat :=
  match header.kind with
  | .stored | .compressed => some header.size
  | .repeated => some 1
  | .reserved => none

def readBlockHeader (bs : Bytes) : Except DecodeError (BlockHeader × Bytes) :=
  match split 3 bs with
  | .error e => .error e
  | .ok (bytes, rest) =>
      let word := toNat bytes
      .ok (⟨word % 2 = 1, .ofCode (word / 2 % 4), word / 8⟩, rest)

theorem length_of_readBlockHeader {bs rest : Bytes} {header : BlockHeader}
    (h : readBlockHeader bs = .ok (header, rest)) : rest.length + 3 = bs.length := by
  simp only [readBlockHeader] at h
  split at h
  · cases h
  · rename_i bytes tail hsplit
    simp only [Except.ok.injEq, Prod.mk.injEq] at h
    obtain ⟨_, rfl⟩ := h
    exact length_of_split hsplit

/-- What follows the last block of a frame, if all of its blocks are there. -/
def skipBlocks? (bs : Bytes) : Option Bytes :=
  match hheader : readBlockHeader bs with
  | .error _ => none
  | .ok (header, body) =>
      match header.bodySize? with
      | none => none
      | some size =>
          match hbody : split size body with
          | .error _ => none
          | .ok (_, rest) =>
              if header.isLast then some rest
              else
                have := length_of_readBlockHeader hheader
                have := length_of_split hbody
                skipBlocks? rest
termination_by bs.length

structure Block where
  header : BlockHeader
  content : Bytes
deriving DecidableEq

def Block.IsEmpty (block : Block) : Prop :=
  block.header.kind = .stored ∧ block.header.size = 0

instance (block : Block) : Decidable block.IsEmpty :=
  inferInstanceAs (Decidable (_ ∧ _))

/-- Reads a block, which may have to decode to at most `limit` bytes.  A compressed
block counts as corrupted. -/
def readBlock (limit : Option Nat) (bs : Bytes) : Except DecodeError (Block × Bytes) :=
  match readBlockHeader bs with
  | .error e => .error e
  | .ok (header, bs) =>
      match header.kind with
      | .stored =>
          if limit.any (· < header.size) then .error .corrupted
          else match split header.size bs with
            | .error e => .error e
            | .ok (content, bs) => .ok (⟨header, content⟩, bs)
      | .repeated =>
          if limit.any (· < 1) then .error .corrupted
          else match split 1 bs with
            | .error e => .error e
            | .ok (byte, bs) =>
                if limit.any (· < header.size) then .error .corrupted
                else .ok (⟨header, List.replicate header.size (byte.headD 0)⟩, bs)
      | _ => .error .corrupted

theorem length_lt_of_readBlock {limit : Option Nat} {bs rest : Bytes} {block : Block}
    (h : readBlock limit bs = .ok (block, rest)) : rest.length < bs.length := by
  simp only [readBlock] at h
  split at h
  · cases h
  · rename_i header after hheader
    have hlen := length_of_readBlockHeader hheader
    split at h
    · split at h
      · cases h
      · split at h
        · cases h
        · rename_i content tail hcontent
          have := length_of_split hcontent
          simp only [Except.ok.injEq, Prod.mk.injEq] at h
          obtain ⟨_, rfl⟩ := h
          omega
    · split at h
      · cases h
      · split at h
        · cases h
        · rename_i byte tail hbyte
          have := length_of_split hbyte
          split at h
          · cases h
          · simp only [Except.ok.injEq, Prod.mk.injEq] at h
            obtain ⟨_, rfl⟩ := h
            omega
    · cases h

/-- Reads blocks up to the last one of the frame, the newest first. -/
def readBlocks (limit : Option Nat) (bs : Bytes) (blocks : List Block) :
    Except DecodeError (List Block × Bytes) :=
  match hblock : readBlock limit bs with
  | .error e => .error e
  | .ok (block, rest) =>
      if block.header.isLast then .ok (block :: blocks, rest)
      else
        have := length_lt_of_readBlock hblock
        readBlocks limit rest (block :: blocks)
termination_by bs.length

end Zstd
end SeekableArchive
