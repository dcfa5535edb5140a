import SeekableArchive.Error

/-!
# Writer configuration

`Config.validate` accepts a configuration exactly when its frame floor is
positive and fits the 32-bit sizes of the seek table, and its footer chunk is
not empty.
-/

namespace SeekableArchive

/-- Matching strategies of the compressor, from fastest to strongest. -/
inductive Strategy
  | fast
  | doubleFast
  | greedy
  | lazy
  | lazy2
  | btLazy2
  | btOpt
  | btUltra
  | btUltra2
deriving DecidableEq

namespace Strategy

def all : List Strategy :=
  [fast, doubleFast, greedy, lazy, lazy2, btLazy2, btOpt, btUltra, btUltra2]

def name : Strategy → String
  | fast => "Fast"
  | doubleFast => "DoubleFast"
  | greedy => "Greedy"
  | lazy => "Lazy"
  | lazy2 => "Lazy2"
  | btLazy2 => "BtLazy2"
  | btOpt => "BtOpt"
  | btUltra => "BtUltra"
  | btUltra2 => "BtUltra2"

/-- The place of the strategy in the order of strength. -/
def rank (s : Strategy) : Nat :=
  all.idxOf s

def ofName? (text : String) : Option Strategy :=
  all.find? fun s => s.name = text

end Strategy

structure Config where
  level : Int32 := 3
  strategy : Strategy := .fast
  /-- The engine's own worker threads; none means that it works in the caller's thread. -/
  workers : UInt32 := 0
  /-- A write that finds at least this many bytes in the open frame ends the frame first. -/
  minFrameSize : Nat := 1024 * 1024
  /-- Whether the seek table carries a checksum for every frame. -/
  checksums : Bool := false
  /-- The largest piece in which the seek table is handed to the sink. -/
  footerChunkSize : Nat := 4096
deriving DecidableEq

/-- The largest size that the seek table can state. -/
def maxFrameSize : Nat := 0xFFFF_FFFF

inductive ConfigFault
  | zeroFrameFloor
  | frameFloorTooLarge (size : Nat)
  | zeroFooterChunk
deriving DecidableEq

def ConfigFault.message : ConfigFault → String
  | .zeroFrameFloor => "min_frame_size must be greater than zero"
  | .frameFloorTooLarge size =>
      "min_frame_size " ++ toString size ++ " exceeds the seek table limit of " ++
        toString maxFrameSize ++ " bytes"
  | .zeroFooterChunk => "footer_chunk_size must be greater than zero"

namespace Config

structure Valid (config : Config) : Prop where
  floor_pos : 0 < config.minFrameSize
  floor_le : config.minFrameSize ≤ maxFrameSize
  chunk_pos : 0 < config.footerChunkSize

def validate (config : Config) : Except ConfigFault Unit :=
  if config.minFrameSize = 0 then .error .zeroFrameFloor
  else if maxFrameSize < config.minFrameSize then
    .error (.frameFloorTooLarge config.minFrameSize)
  else if config.footerChunkSize = 0 then .error .zeroFooterChunk
  else .ok ()

theorem validate_eq_ok_iff {config : Config} :
    config.validate = .ok () ↔ config.Valid := by
  constructor
  · intro h
    simp only [validate] at h
    split at h
    · cases h
    · split at h
      · cases h
      · split at h
        · cases h
        · exact ⟨by omega, by omega, by omega⟩
  · intro h
    have h₀ := h.floor_pos
    have h₁ := h.floor_le
    have h₂ := h.chunk_pos
    simp [validate, show config.minFrameSize ≠ 0 by omega,
      show ¬ maxFrameSize < config.minFrameSize by omega,
      show config.footerChunkSize ≠ 0 by omega]

end Config

end SeekableArchive
