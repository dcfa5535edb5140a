import SeekableArchive.SeekTable

/-!
# Reading the seek table of an archive

`parse` works backwards from the end: the trailer says how many entries there
are and how wide they are, hence where the table begins, and the header there
has to agree.  Nothing is assumed about the bytes in front of the table.
-/

namespace SeekableArchive
namespace SeekTable

open LittleEndian

/-- The bits of the descriptor that have no meaning. -/
def reservedMask : UInt8 := 0x7F

/-- The table whose entries are the first `count` in `bs`. -/
def ofBytes (checksums : Bool) (count : Nat) (bs : Bytes) : SeekTable where
  checksums := checksums
  entries := FrameEntry.readMany checksums count bs #[]
  uniform := FrameEntry.isSome_checksum_of_mem_readMany (by simp)

/-- Reads a table of `count` entries at the end of an archive. -/
def parseEntries (archive : Bytes) (checksums : Bool) (count : Nat) :
    Except Defect SeekTable :=
  let length := archive.length
  let size := sizeFor checksums count
  if length < size then .error (.tooShort length)
  else
    let table := archive.drop (length - size)
    let magic := readWord table
    if magic ≠ Magic.skippable.word then .error (.badMagic .skippable magic)
    else
      let header := (readWord (table.drop 4)).toNat
      if header ≠ size - headerSize then .error (.lengthMismatch header (size - headerSize))
      else .ok (ofBytes checksums count (table.drop headerSize))

def parse (archive : Bytes) : Except Defect SeekTable :=
  let length := archive.length
  if length < headerSize + footerSize then .error (.tooShort length)
  else
    let trailer := archive.drop (length - footerSize)
    let magic := readWord (trailer.drop 5)
    if magic ≠ Magic.seekable.word then .error (.badMagic .seekable magic)
    else
      let descriptor := (trailer.drop 4).headD 0
      if descriptor &&& reservedMask ≠ 0 then .error (.reservedBits descriptor)
      else parseEntries archive (descriptor ≠ 0) (readWord trailer).toNat

end SeekTable
end SeekableArchive
