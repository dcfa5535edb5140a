import SeekableArchive.Zstd.Decode
import SeekableArchive.Zstd.StoredEngine

/-!
# Stored frames are decoded

A frame whose blocks are stored decodes to what was stored, however many blocks it takes
and whatever is behind it.
-/

namespace SeekableArchive
namespace Zstd

open LittleEndian

theorem split_append {n : Nat} {front : Bytes} (h : front.length = n) (rest : Bytes) :
    split n (front ++ rest) = .ok (front, rest) :=
  split_eq_ok_iff.mpr ⟨rfl, h⟩

theorem readBlockHeader_append {isLast : Bool} {size : Nat} (h : size ≤ maxBlockSize)
    (rest : Bytes) :
    readBlockHeader (storedBlockHeader isLast size ++ rest) =
      .ok (⟨isLast, .stored, size⟩, rest) := by
  have hlength : (storedBlockHeader isLast size).length = 3 := length_ofNat 3 _
  have hword : toNat (storedBlockHeader isLast size) = size * 8 + if isLast then 1 else 0 := by
    apply toNat_ofNat
    have hpow : Nat.pow 256 3 = 0x100_0000 := rfl
    rw [hpow]
    simp only [maxBlockSize] at h
    split <;> omega
  rw [readBlockHeader, split_append hlength]
  simp only [hword]
  cases isLast with
  | true =>
      have hkind : (size * 8 + 1) / 2 % 4 = 0 := by omega
      have hsize : (size * 8 + 1) / 8 = size := by omega
      have hlast : (size * 8 + 1) % 2 = 1 := by omega
      simp only [if_true, hkind, hsize, hlast, decide_true]
      rfl
  | false =>
      have hkind : (size * 8 + 0) / 2 % 4 = 0 := by omega
      have hsize : (size * 8 + 0) / 8 = size := by omega
      have hlast : ¬ (size * 8 + 0) % 2 = 1 := by omega
      simp only [Bool.false_eq_true, if_false, hkind, hsize, hlast, decide_false]
      rfl

theorem readBlock_append (isLast : Bool) {block : Bytes} (h : block.length ≤ maxBlockSize)
    (rest : Bytes) :
    readBlock (some maxBlockSize) (storedBlockHeader isLast block.length ++ (block ++ rest)) =
      .ok (⟨⟨isLast, .stored, block.length⟩, block⟩, rest) := by
  rw [readBlock, readBlockHeader_append h]
  have hfits : ¬ maxBlockSize < block.length := by omega
  simp only [Option.any_some, hfits, decide_false, Bool.false_eq_true, if_false,
    split_append rfl]

/-- The induction is on the number of blocks; the blocks read before stay in front. -/
theorem readBlocks_storedBlocks {count : Nat} {content : Bytes}
    (h : content.length / maxBlockSize < count) (earlier : List Block) (rest : Bytes) :
    ∃ blocks, readBlocks (some maxBlockSize) ((storedBlocks count content).flatten ++ rest)
        earlier = .ok (blocks, rest) ∧
      (blocks.reverse.map Block.content).flatten =
        (earlier.reverse.map Block.content).flatten ++ content := by
  induction count generalizing content earlier with
  | zero => exact absurd h (Nat.not_lt_zero _)
  | succ count ih =>
      have hblock : (content.take maxBlockSize).length ≤ maxBlockSize :=
        List.length_take_le _ _
      have hsplit := List.take_append_drop maxBlockSize content
      by_cases hlast : content.drop maxBlockSize = []
      · have hread := readBlock_append true hblock rest
        rw [hlast, List.append_nil] at hsplit
        refine ⟨⟨⟨true, .stored, content.length⟩, content⟩ :: earlier, ?_, by simp⟩
        rw [hsplit] at hread
        simp only [storedBlocks, hlast, if_true, hsplit, List.flatten_cons, List.flatten_nil,
          List.append_nil, List.append_assoc]
        rw [readBlocks]
        split
        · rename_i hfail
          rw [hread] at hfail
          cases hfail
        · rename_i hok
          rw [hread] at hok
          cases hok
          rfl
      · have hread := readBlock_append false hblock
          ((storedBlocks count (content.drop maxBlockSize)).flatten ++ rest)
        have hfewer : (content.drop maxBlockSize).length / maxBlockSize < count := by
          rw [List.drop_eq_nil_iff] at hlast
          rw [List.length_drop]
          have hpos : 0 < maxBlockSize := by decide
          have hdiv := Nat.div_eq_sub_div hpos (Nat.le_of_not_le hlast)
          omega
        obtain ⟨blocks, hblocks, hcontent⟩ := ih hfewer
          (⟨⟨false, .stored, (content.take maxBlockSize).length⟩, content.take maxBlockSize⟩ ::
            earlier)
        refine ⟨blocks, ?_, ?_⟩
        · simp only [storedBlocks, hlast, if_false, List.flatten_cons, List.append_assoc]
          rw [readBlocks]
          split
          · rename_i hfail
            rw [hread] at hfail
            cases hfail
          · rename_i hok
            rw [hread] at hok
            cases hok
            exact hblocks
        · rw [hcontent]
          simp [hsplit]

theorem readHeader_append (rest : Bytes) :
    readHeader (storedDescriptor :: storedWindow :: rest) =
      .ok (⟨maxBlockSize, 0, none, false⟩, rest) := by
  have hdescriptor : Descriptor.ofByte storedDescriptor = ⟨0, false, false, false, 0⟩ := by
    decide
  have hlog : ¬ maxWindowLog < windowLog storedWindow.toNat := by decide
  have hsize : windowOfDescriptor storedWindow.toNat = maxBlockSize := by decide
  have hfirst : split 1 (storedDescriptor :: storedWindow :: rest) =
      .ok ([storedDescriptor], storedWindow :: rest) := split_eq_ok_iff.mpr ⟨rfl, rfl⟩
  have hwindow : split 1 (storedWindow :: rest) = .ok ([storedWindow], rest) :=
    split_eq_ok_iff.mpr ⟨rfl, rfl⟩
  have hnothing : split 0 rest = .ok ([], rest) := split_eq_ok_iff.mpr ⟨rfl, rfl⟩
  simp [readHeader, bind, Except.bind, hfirst, hdescriptor, Descriptor.windowWidth, hwindow,
    Descriptor.dictionaryWidth, Descriptor.contentSizeWidth, hnothing, hlog, hsize,
    LittleEndian.toNat]
  rfl

theorem mayBeginFrame_append (rest : Bytes) : mayBeginFrame (ofNat 4 magic ++ rest) = true := by
  have hfront : (ofNat 4 magic ++ rest).take 4 = ofNat 4 magic := rfl
  rw [mayBeginFrame, hfront]
  decide

theorem readCompressed_stored (total : Nat) (front content rest : Bytes) :
    readCompressed total front (storedDescriptor :: storedWindow ::
      ((storedBlocks (content.length / maxBlockSize + 1) content).flatten ++ rest)) =
        .ok (content, rest) := by
  obtain ⟨blocks, hblocks, hcontent⟩ :=
    readBlocks_storedBlocks (Nat.lt_succ_self (content.length / maxBlockSize)) [] rest
  have hlimit : FrameHeader.blockLimit ⟨maxBlockSize, 0, none, false⟩ = maxBlockSize :=
    Nat.min_self _
  have hwindow : ¬ maxWindowSize < maxBlockSize := by decide
  simp only [List.reverse_nil, List.map_nil, List.flatten_nil, List.nil_append,
    List.map_reverse] at hcontent
  simp [readCompressed, bind, Except.bind, readHeader_append, isOneStep, hlimit, hwindow, hblocks,
    readChecksum]
  exact congrArg (fun content => Except.ok (content, rest)) hcontent

theorem readFrame_storedFrame (total : Nat) (content rest : Bytes) :
    readFrame total (storedFrame content ++ rest) = .ok (content, rest) := by
  have hsplit : split 4 (storedFrame content ++ rest) = .ok (ofNat 4 magic, storedDescriptor ::
      storedWindow ::
        ((storedBlocks (content.length / maxBlockSize + 1) content).flatten ++ rest)) :=
    split_eq_ok_iff.mpr ⟨by simp [storedFrame], length_ofNat 4 magic⟩
  have hbegins : mayBeginFrame (storedFrame content ++ rest) = true := by
    rw [storedFrame, List.append_assoc, List.append_assoc]
    exact mayBeginFrame_append _
  have hmagic : toNat (ofNat 4 magic) = magic := toNat_ofNat (by decide)
  simp only [readFrame, hbegins, if_true, hsplit, hmagic]
  exact readCompressed_stored total (storedFrame content ++ rest) content rest

theorem readFrame_storedFrame_alone (total : Nat) (content : Bytes) :
    readFrame total (storedFrame content) = .ok (content, []) := by
  have hread := readFrame_storedFrame total content []
  rwa [List.append_nil] at hread

theorem decode_storedFrame (content : Bytes) : decode (storedFrame content) = .ok content := by
  rw [decode, readFrames, readFrame_storedFrame_alone]
  simp

end Zstd
end SeekableArchive
