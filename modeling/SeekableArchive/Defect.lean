import SeekableArchive.Bytes
import SeekableArchive.Text.Digits

/-!
# Defects of an archive

The ways in which a byte string can fail to be an archive: its seek table does
not parse, the table does not cover what comes before it, or a frame is not what
the table says.
-/

namespace SeekableArchive

/-- The two words by which a seek table is recognised. -/
inductive Magic
  /-- In front of the table; it makes the table a frame that decoders skip. -/
  | skippable
  /-- At the very end of the archive. -/
  | seekable
deriving DecidableEq

namespace Magic

def word : Magic → UInt32
  | skippable => 0x184D2A5E
  | seekable => 0x8F92EAB1

def name : Magic → String
  | skippable => "skippable"
  | seekable => "seekable"

end Magic

inductive Defect
  | tooShort (length : Nat)
  | badMagic (which : Magic) (found : UInt32)
  | reservedBits (descriptor : UInt8)
  | lengthMismatch (header expected : Nat)
  | coverage (covered body : Nat)
  | decode (index : Nat) (message : String)
  | sizeMismatch (index : Nat) (recorded : UInt32) (actual : Nat)
  | checksumMismatch (index : Nat) (recorded actual : UInt32)
deriving DecidableEq

def Defect.message : Defect → String
  | .tooShort length => "archive too short: " ++ toString length ++ " bytes"
  | .badMagic which found =>
      "bad " ++ which.name ++ " magic: " ++ Text.hexLiteral 8 found.toNat
  | .reservedBits descriptor =>
      "reserved descriptor bits set: " ++ Text.hexLiteral 2 descriptor.toNat
  | .lengthMismatch header expected =>
      "seek table length mismatch: header says " ++ toString header ++
        ", entries need " ++ toString expected
  | .coverage covered body =>
      "frames cover " ++ toString covered ++ " bytes but body is " ++ toString body ++ " bytes"
  | .decode index text => "frame " ++ toString index ++ " failed to decode: " ++ text
  | .sizeMismatch index recorded actual =>
      "frame " ++ toString index ++ " decoded to " ++ toString actual ++
        " bytes, table says " ++ toString recorded.toNat
  | .checksumMismatch index recorded actual =>
      "frame " ++ toString index ++ " checksum " ++ Text.hexLiteral 8 actual.toNat ++
        ", table says " ++ Text.hexLiteral 8 recorded.toNat

end SeekableArchive
