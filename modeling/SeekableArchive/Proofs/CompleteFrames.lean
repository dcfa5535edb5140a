import SeekableArchive.Proofs.FrameEnds

/-!
# Sequences of complete frames

The decoder takes complete frames only, one after the other.  A stored frame is complete,
and a frame to be skipped is complete if it has the size that it states.
-/

namespace SeekableArchive
namespace Zstd

open LittleEndian

theorem frameEnd?_of_readChecksum {header : FrameHeader} {content bs after rest : Bytes}
    (hblocks : skipBlocks? bs = some after)
    (hchecksum : readChecksum header content after = .ok rest) :
    frameEnd? header bs = some rest := by
  have hend : frameEnd? header bs = if header.hasChecksum
      then (split 4 after).toOption.map (·.2) else some after := by
    rw [frameEnd?, hblocks]
    rfl
  rw [hend]
  rw [readChecksum] at hchecksum
  by_cases hflag : header.hasChecksum = true
  · rw [if_pos hflag] at hchecksum ⊢
    cases hstored : split 4 after with
    | error e => simp [hstored] at hchecksum
    | ok taken =>
        simp only [hstored] at hchecksum
        split at hchecksum
        · cases hchecksum
          rfl
        · cases hchecksum
  · rw [if_neg hflag] at hchecksum ⊢
    cases hchecksum
    rfl

/-- The blocks and the checksum of a frame are read behind its header. -/
theorem readCompressed_eq_ok {total : Nat} {front bs content rest : Bytes}
    (h : readCompressed total front bs = .ok (content, rest)) :
    ∃ header body limit blocks after, readHeader bs = .ok (header, body) ∧
      readBlocks limit body [] = .ok (blocks, after) ∧
      readChecksum header content after = .ok rest := by
  simp only [readCompressed, bind_eq_ok_iff, unless_eq_ok_iff] at h
  obtain ⟨⟨header, body⟩, hheader, -, -, ⟨blocks, after⟩, hblocks, -, last, hchecksum, hresult⟩ := h
  cases hresult
  exact ⟨header, body, _, blocks, after, hheader, hblocks, hchecksum⟩

/-- With all four bytes there, only a magic may begin a frame. -/
theorem magic_of_mayBeginFrame {bs word rest : Bytes} (hword : split 4 bs = .ok (word, rest))
    (h : mayBeginFrame bs = true) : toNat word = magic ∨ IsSkippableMagic (toNat word) := by
  obtain ⟨rfl, hlength⟩ := split_eq_ok_iff.mp hword
  have hfront : (word ++ rest).take 4 = word := List.take_left' hlength
  have hcompleted (value : Nat) : word ++ (ofNat 4 value).drop word.length = word := by
    rw [hlength, List.drop_of_length_le (Nat.le_of_eq (length_ofNat 4 value)), List.append_nil]
  simpa [mayBeginFrame, hfront, hcompleted] using h

theorem skipFrame_of_readFrame {total : Nat} {bs content rest : Bytes}
    (h : readFrame total bs = .ok (content, rest)) : skipFrame bs = .ok rest := by
  rw [readFrame] at h
  by_cases hbegins : mayBeginFrame bs = true
  · rw [if_pos hbegins] at h
    cases hword : split 4 bs with
    | error e => simp [hword] at h
    | ok taken =>
        obtain ⟨word, after⟩ := taken
        simp only [hword] at h
        simp only [skipFrame, bind_eq_ok_iff]
        refine ⟨(word, after), hword, ?_⟩
        by_cases hmagic : toNat word = magic
        · rw [if_pos hmagic] at h
          obtain ⟨header, body, limit, blocks, end', hheader, hblocks, hchecksum⟩ :=
            readCompressed_eq_ok h
          have hend := frameEnd?_of_readChecksum (skipBlocks?_of_readBlocks hblocks) hchecksum
          simp only [if_pos hmagic, bind_eq_ok_iff]
          refine ⟨(header, body), hheader, ?_⟩
          simp only [hend]
          rfl
        · rw [if_neg hmagic] at h
          have hskippable : IsSkippableMagic (toNat word) :=
            (magic_of_mayBeginFrame hword hbegins).resolve_left hmagic
          simp only [if_neg hmagic, if_pos hskippable, bind_eq_ok_iff]
          exact ⟨(content, rest), h, rfl⟩
  · rw [if_neg hbegins] at h
    cases h

theorem complete_of_readFrames {total limit : Nat} {bs : Bytes} {earlier contents : List Bytes}
    (h : readFrames total limit bs earlier = .ok contents) :
    ∃ frames, frames ≠ [] ∧ (∀ frame ∈ frames, IsComplete frame) ∧ frames.flatten = bs := by
  induction limit generalizing bs earlier with
  | zero => cases h
  | succ limit ih =>
      rw [readFrames] at h
      cases hframe : readFrame total bs with
      | error e => simp [hframe] at h
      | ok taken =>
          obtain ⟨content, rest⟩ := taken
          simp only [hframe] at h
          obtain ⟨front, rfl, hany⟩ := skipFrame_local bs (skipFrame_of_readFrame hframe)
          have hfront : IsComplete front := by
            have hnothing := hany []
            rwa [List.append_nil] at hnothing
          by_cases hrest : rest = []
          · refine ⟨[front], by simp, ?_, by simp [hrest]⟩
            intro frame hmem
            rw [List.mem_singleton.mp hmem]
            exact hfront
          · rw [if_neg hrest] at h
            obtain ⟨frames, -, hcomplete, hflatten⟩ := ih h
            refine ⟨front :: frames, by simp, ?_, by simp [hflatten]⟩
            intro frame hmem
            rcases List.mem_cons.mp hmem with rfl | hlater
            · exact hfront
            · exact hcomplete frame hlater

/-- The decoder accepts nothing but complete frames, one after the other, and at least one. -/
theorem complete_of_decode {bs content : Bytes} (h : decode bs = .ok content) :
    ∃ frames, frames ≠ [] ∧ (∀ frame ∈ frames, IsComplete frame) ∧ frames.flatten = bs := by
  rw [decode] at h
  cases hframes : readFrames bs.length (bs.length + 1) bs [] with
  | error e => simp [hframes] at h
  | ok contents => exact complete_of_readFrames hframes

/-! ## Frames that are complete -/

theorem isComplete_storedFrame (content : Bytes) : IsComplete (storedFrame content) :=
  skipFrame_of_readFrame (readFrame_storedFrame_alone 0 content)

theorem toNat_word (w : UInt32) : toNat (word w) = w.toNat :=
  toNat_ofNat w.toNat_lt

/-- A frame to be skipped is complete if as many bytes follow as it says. -/
theorem isComplete_skippable_iff {magicWord size : UInt32} {payload : Bytes}
    (hskippable : IsSkippableMagic magicWord.toNat) :
    IsComplete (word magicWord ++ (word size ++ payload)) ↔ payload.length = size.toNat := by
  have hmagic : magicWord.toNat ≠ magic := by
    intro heq
    rw [heq] at hskippable
    exact absurd hskippable (by decide)
  have hskip : skipFrame (word magicWord ++ (word size ++ payload)) =
      split size.toNat payload >>= fun taken => pure taken.2 := by
    rw [skipFrame, split_append (length_word magicWord)]
    simp only [bind, Except.bind, toNat_word, hmagic, hskippable, if_true, if_false,
      readSkippable, split_append (length_word size)]
    cases split size.toNat payload <;> rfl
  rw [IsComplete, hskip, bind_eq_ok_iff]
  constructor
  · rintro ⟨⟨taken, rest⟩, hpayload, hnothing⟩
    obtain ⟨rfl, hlength⟩ := split_eq_ok_iff.mp hpayload
    cases hnothing
    rwa [List.append_nil]
  · intro hlength
    exact ⟨(payload, []), split_eq_ok_iff.mpr ⟨(List.append_nil payload).symm, hlength⟩, rfl⟩

end Zstd
end SeekableArchive
