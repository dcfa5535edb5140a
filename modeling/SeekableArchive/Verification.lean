import SeekableArchive.SeekTable.Parse
import SeekableArchive.Xxh64
import SeekableArchive.Zstd.Decode

/-!
# Verifying an archive

`decodeFrames` reads the seek table, checks that the frames cover the archive up
to the table, and then decodes frame by frame, comparing each with its entry.
The first thing found wrong is reported.  The decoder is a parameter.
-/

namespace SeekableArchive

/-- Decodes one frame and compares it with its entry. -/
def checkFrame (decode : Bytes → Except String Bytes) (index : Nat) (entry : FrameEntry)
    (frame : Bytes) : Except Defect Bytes :=
  match decode frame with
  | .error text => .error (.decode index text)
  | .ok content =>
      if content.length ≠ entry.uncompressedSize.toNat then
        .error (.sizeMismatch index entry.uncompressedSize content.length)
      else match entry.checksum with
        | none => .ok content
        | some recorded =>
            let actual := Xxh64.checksum content
            if actual ≠ recorded then .error (.checksumMismatch index recorded actual)
            else .ok content

/-- Checks the frames at the front of `body` one after the other; `contents` holds the
earlier ones, newest first. -/
def checkFrames (decode : Bytes → Except String Bytes) :
    Nat → List FrameEntry → Bytes → List Bytes → Except Defect (List Bytes)
  | _, [], _, contents => .ok contents.reverse
  | index, entry :: entries, body, contents =>
      let size := entry.compressedSize.toNat
      match checkFrame decode index entry (body.take size) with
      | .error defect => .error defect
      | .ok content =>
          checkFrames decode (index + 1) entries (body.drop size) (content :: contents)

/-- The contents of the frames of an archive, in order. -/
def decodeFramesWith (decode : Bytes → Except String Bytes) (archive : Bytes) :
    Except Defect (List Bytes) :=
  match SeekTable.parse archive with
  | .error defect => .error defect
  | .ok table =>
      let body := archive.length - table.encodedSize
      if table.totalCompressed ≠ body then .error (.coverage table.totalCompressed body)
      else checkFrames decode 0 table.entries.toList archive []

def decodeFrames (archive : Bytes) : Except Defect (List Bytes) :=
  decodeFramesWith (fun frame => (Zstd.decode frame).mapError Zstd.DecodeError.message) archive

end SeekableArchive
