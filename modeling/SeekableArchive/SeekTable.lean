import SeekableArchive.Defect

/-!
# Seek tables

A seek table lists the frames of an archive in order: how many bytes each takes
up in the archive, how many it decodes to, and, if the table carries checksums,
a checksum of the decoded bytes.  `encode` is the form in which the table ends
an archive:

* the skippable magic and the number of bytes that follow, one word each;
* per frame its compressed size, its decoded size and, if there are checksums,
  its checksum, one word each;
* the number of frames, one word;
* a descriptor byte whose highest bit says whether there are checksums;
* the seekable magic.
-/

namespace SeekableArchive

open LittleEndian

structure FrameEntry where
  compressedSize : UInt32
  uncompressedSize : UInt32
  checksum : Option UInt32
deriving DecidableEq

namespace FrameEntry

def encode (e : FrameEntry) : Bytes :=
  word e.compressedSize ++ word e.uncompressedSize ++ (e.checksum.map word).getD []

/-- The bytes of an entry, which depend only on whether there are checksums. -/
def width (checksums : Bool) : Nat :=
  if checksums then 12 else 8

theorem length_encode (e : FrameEntry) : e.encode.length = width e.checksum.isSome := by
  cases h : e.checksum <;> simp [encode, width, h]

def read (checksums : Bool) (bs : Bytes) : FrameEntry where
  compressedSize := readWord bs
  uncompressedSize := readWord (bs.drop 4)
  checksum := if checksums then some (readWord (bs.drop 8)) else none

@[simp] theorem isSome_checksum_read (checksums : Bool) (bs : Bytes) :
    (read checksums bs).checksum.isSome = checksums := by
  cases checksums <;> rfl

def readMany (checksums : Bool) : Nat → Bytes → Array FrameEntry → Array FrameEntry
  | 0, _, entries => entries
  | count + 1, bs, entries =>
      readMany checksums count (bs.drop (width checksums)) (entries.push (read checksums bs))

theorem isSome_checksum_of_mem_readMany {checksums : Bool} {count : Nat} {bs : Bytes}
    {entries : Array FrameEntry} (h : ∀ e ∈ entries, e.checksum.isSome = checksums) :
    ∀ e ∈ readMany checksums count bs entries, e.checksum.isSome = checksums := by
  induction count generalizing bs entries with
  | zero => exact h
  | succ count ih =>
      apply ih
      intro e he
      rcases Array.mem_push.mp he with he | rfl
      · exact h e he
      · simp

end FrameEntry

structure SeekTable where
  checksums : Bool
  entries : Array FrameEntry := #[]
  uniform : ∀ e ∈ entries, e.checksum.isSome = checksums := by simp
deriving DecidableEq

namespace SeekTable

/-- The magic and the size in front of the entries. -/
def headerSize : Nat := 8

/-- The count, the descriptor and the magic after the entries. -/
def footerSize : Nat := 9

/-- The bytes of a table with `count` entries. -/
def sizeFor (checksums : Bool) (count : Nat) : Nat :=
  headerSize + count * FrameEntry.width checksums + footerSize

def encodedSize (t : SeekTable) : Nat :=
  sizeFor t.checksums t.entries.size

def descriptor (checksums : Bool) : UInt8 :=
  if checksums then 0x80 else 0

def encode (t : SeekTable) : Bytes :=
  word Magic.skippable.word ++ word (UInt32.ofNat (t.encodedSize - headerSize)) ++
    t.entries.toList.flatMap FrameEntry.encode ++
    word (UInt32.ofNat t.entries.size) ++ [descriptor t.checksums] ++
    word Magic.seekable.word

/-- Appends a frame; the checksum is dropped if the table carries none. -/
def push (t : SeekTable) (compressedSize uncompressedSize checksum : UInt32) : SeekTable where
  checksums := t.checksums
  entries :=
    t.entries.push
      ⟨compressedSize, uncompressedSize, if t.checksums then some checksum else none⟩
  uniform e he := by
    rcases Array.mem_push.mp he with he | rfl
    · exact t.uniform e he
    · cases t.checksums <;> rfl

theorem length_flatMap_encode {checksums : Bool} {entries : List FrameEntry}
    (h : ∀ e ∈ entries, e.checksum.isSome = checksums) :
    (entries.flatMap FrameEntry.encode).length =
      entries.length * FrameEntry.width checksums := by
  induction entries with
  | nil => simp
  | cons e entries ih =>
      have he := h e (by simp)
      have ih := ih fun e' he' => h e' (by simp [he'])
      simp only [List.flatMap_cons, List.length_append, FrameEntry.length_encode, he, ih,
        List.length_cons, Nat.succ_mul]
      omega

@[simp] theorem length_encode (t : SeekTable) : t.encode.length = t.encodedSize := by
  have huniform : ∀ e ∈ t.entries.toList, e.checksum.isSome = t.checksums :=
    fun e he => t.uniform e (by simpa using he)
  have h := length_flatMap_encode huniform
  simp only [Array.length_toList] at h
  simp only [encode, encodedSize, sizeFor, headerSize, footerSize, List.length_append,
    length_word, h, List.length_cons, List.length_nil]

def totalCompressed (t : SeekTable) : Nat :=
  (t.entries.toList.map fun e => e.compressedSize.toNat).foldr (· + ·) 0

def totalUncompressed (t : SeekTable) : Nat :=
  (t.entries.toList.map fun e => e.uncompressedSize.toNat).foldr (· + ·) 0

/-- The places from `start` up to and not including `stop`. -/
structure Range where
  start : Nat
  stop : Nat
deriving DecidableEq

def Range.slice (r : Range) (bs : Bytes) : Bytes :=
  (bs.drop r.start).take (r.stop - r.start)

/-- Adjoining ranges of the given sizes. -/
def rangesFrom (start : Nat) : List FrameEntry → List Range
  | [] => []
  | e :: entries =>
      ⟨start, start + e.compressedSize.toNat⟩ ::
        rangesFrom (start + e.compressedSize.toNat) entries

def frameRanges (t : SeekTable) : List Range :=
  rangesFrom 0 t.entries.toList

@[simp] theorem length_rangesFrom (start : Nat) (entries : List FrameEntry) :
    (rangesFrom start entries).length = entries.length := by
  induction entries generalizing start with
  | nil => rfl
  | cons e entries ih => simp [rangesFrom, ih]

end SeekTable

end SeekableArchive
