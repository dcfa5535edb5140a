import SeekableArchive.Verification

/-!
# What verification finds

A frame is as its entry says, or one of three things is wrong with it, of which the first
one found is reported.  Verification stops at the first frame with a fault, so it accepts an
archive exactly if the table parses and covers what is in front of it and every frame is as
its entry says.
-/

namespace SeekableArchive

variable {decode : Bytes → Except String Bytes}

/-- The frame decodes to the content, and this is what the entry says of it. -/
structure FrameEntry.Holds (decode : Bytes → Except String Bytes) (entry : FrameEntry)
    (frame content : Bytes) : Prop where
  decoded : decode frame = .ok content
  size : content.length = entry.uncompressedSize.toNat
  checksum : ∀ recorded, entry.checksum = some recorded →
    recorded = Xxh64.checksum content

/-- The first thing that is wrong with a frame. -/
inductive FrameFault (decode : Bytes → Except String Bytes) (index : Nat) (entry : FrameEntry)
    (frame : Bytes) : Defect → Prop
  | decode {text : String} (h : decode frame = .error text) :
      FrameFault decode index entry frame (.decode index text)
  | size {content : Bytes} (hdecode : decode frame = .ok content)
      (hsize : content.length ≠ entry.uncompressedSize.toNat) :
      FrameFault decode index entry frame
        (.sizeMismatch index entry.uncompressedSize content.length)
  | checksum {content : Bytes} {recorded : UInt32} (hdecode : decode frame = .ok content)
      (hsize : content.length = entry.uncompressedSize.toNat)
      (hrecorded : entry.checksum = some recorded)
      (hchecksum : Xxh64.checksum content ≠ recorded) :
      FrameFault decode index entry frame
        (.checksumMismatch index recorded (Xxh64.checksum content))

theorem checkFrame_eq_ok_iff (index : Nat) {entry : FrameEntry} {frame content : Bytes} :
    checkFrame decode index entry frame = .ok content ↔ entry.Holds decode frame content := by
  constructor
  · intro h
    simp only [checkFrame] at h
    split at h
    · cases h
    · rename_i found hdecode
      split at h
      · cases h
      · rename_i hsize
        split at h
        · rename_i hnone
          cases h
          refine ⟨hdecode, Decidable.not_not.mp hsize, fun recorded hrecorded => ?_⟩
          rw [hnone] at hrecorded
          cases hrecorded
        · rename_i recorded hrecorded
          split at h
          · cases h
          · rename_i hchecksum
            cases h
            refine ⟨hdecode, Decidable.not_not.mp hsize, fun other hother => ?_⟩
            rw [hrecorded] at hother
            cases hother
            exact (Decidable.not_not.mp hchecksum).symm
  · intro h
    simp only [checkFrame, h.decoded, h.size, ne_eq, not_true_eq_false, if_false]
    split
    · rfl
    · rename_i recorded hrecorded
      rw [if_neg]
      exact not_not_intro (h.checksum recorded hrecorded).symm

theorem checkFrame_eq_error_iff {index : Nat} {entry : FrameEntry} {frame : Bytes}
    {defect : Defect} :
    checkFrame decode index entry frame = .error defect ↔
      FrameFault decode index entry frame defect := by
  constructor
  · intro h
    simp only [checkFrame] at h
    split at h
    · rename_i text hdecode
      cases h
      exact .decode hdecode
    · rename_i content hdecode
      split at h
      · rename_i hsize
        cases h
        exact .size hdecode hsize
      · rename_i hsize
        split at h
        · cases h
        · rename_i recorded hrecorded
          split at h
          · rename_i hchecksum
            cases h
            exact .checksum hdecode (Decidable.not_not.mp hsize) hrecorded hchecksum
          · cases h
  · intro h
    cases h with
    | decode h => rw [checkFrame, h]
    | size hdecode hsize => simp only [checkFrame, hdecode, if_pos hsize]
    | checksum hdecode hsize hrecorded hchecksum =>
        simp only [checkFrame, hdecode, hsize, hrecorded, ne_eq, not_true_eq_false, if_false]
        rw [if_pos hchecksum]

/-! ## All frames -/

/-- Checks frames that have been cut out, each with its entry. -/
def checkAll (decode : Bytes → Except String Bytes) :
    Nat → List (FrameEntry × Bytes) → Except Defect (List Bytes)
  | _, [] => .ok []
  | index, (entry, frame) :: frames =>
      match checkFrame decode index entry frame with
      | .error defect => .error defect
      | .ok content =>
          match checkAll decode (index + 1) frames with
          | .error defect => .error defect
          | .ok contents => .ok (content :: contents)

/-- Every frame holds what its entry says, and these are the contents. -/
def AllHold (decode : Bytes → Except String Bytes) (frames : List (FrameEntry × Bytes))
    (contents : List Bytes) : Prop :=
  contents.length = frames.length ∧
    ∀ (i : Nat) (entry : FrameEntry) (frame : Bytes), frames[i]? = some (entry, frame) →
      ∃ content, contents[i]? = some content ∧ entry.Holds decode frame content

/-- The frame at place `i` has the fault, and those before it have none. -/
def FirstFault (decode : Bytes → Except String Bytes) (frames : List (FrameEntry × Bytes))
    (i index : Nat) (defect : Defect) : Prop :=
  (∃ entry frame, frames[i]? = some (entry, frame) ∧
    FrameFault decode index entry frame defect) ∧
  ∀ j < i, ∀ (entry : FrameEntry) (frame : Bytes), frames[j]? = some (entry, frame) →
    ∃ content, entry.Holds decode frame content

theorem allHold_cons {entry : FrameEntry} {frame content : Bytes}
    {frames : List (FrameEntry × Bytes)} {contents : List Bytes} :
    AllHold decode ((entry, frame) :: frames) (content :: contents) ↔
      entry.Holds decode frame content ∧ AllHold decode frames contents := by
  constructor
  · rintro ⟨hlength, hall⟩
    obtain ⟨found, hfound, hholds⟩ := hall 0 entry frame rfl
    cases hfound
    exact ⟨hholds, Nat.succ.inj hlength, fun i => hall (i + 1)⟩
  · rintro ⟨hfirst, hlength, hall⟩
    refine ⟨congrArg Nat.succ hlength, fun i => ?_⟩
    cases i with
    | zero =>
        intro found piece hfound
        cases hfound
        exact ⟨content, rfl, hfirst⟩
    | succ i => exact hall i

theorem checkAll_eq_ok_iff (index : Nat) {frames : List (FrameEntry × Bytes)}
    {contents : List Bytes} :
    checkAll decode index frames = .ok contents ↔ AllHold decode frames contents := by
  induction frames generalizing index contents with
  | nil =>
      rw [checkAll, Except.ok.injEq]
      constructor
      · rintro rfl
        exact ⟨rfl, by simp⟩
      · rintro ⟨hlength, -⟩
        exact (List.eq_nil_of_length_eq_zero hlength).symm
  | cons pair frames ih =>
      obtain ⟨entry, frame⟩ := pair
      cases contents with
      | nil =>
          refine iff_of_false (fun h => ?_) (fun h => by simp [AllHold] at h)
          rw [checkAll] at h
          split at h
          · cases h
          · split at h <;> cases h
      | cons content contents =>
          rw [allHold_cons, ← checkFrame_eq_ok_iff index, ← ih (index + 1), checkAll]
          cases checkFrame decode index entry frame with
          | error defect => simp
          | ok found =>
              cases checkAll decode (index + 1) frames with
              | error defect => simp
              | ok others => simp

theorem checkAll_eq_error_iff {index : Nat} {frames : List (FrameEntry × Bytes)}
    {defect : Defect} :
    checkAll decode index frames = .error defect ↔
      ∃ i, FirstFault decode frames i (index + i) defect := by
  induction frames generalizing index with
  | nil => simp [checkAll, FirstFault]
  | cons pair frames ih =>
      obtain ⟨entry, frame⟩ := pair
      rw [checkAll]
      constructor
      · intro h
        split at h
        · rename_i fault hfault
          cases h
          exact ⟨0, ⟨entry, frame, rfl, checkFrame_eq_error_iff.mp hfault⟩, by simp⟩
        · rename_i content hcontent
          split at h
          · rename_i fault hfault
            cases h
            obtain ⟨i, hfirst, hearlier⟩ := ih.mp hfault
            rw [Nat.add_right_comm] at hfirst
            refine ⟨i + 1, hfirst, fun j hj => ?_⟩
            cases j with
            | zero =>
                rintro found piece hfound
                cases hfound
                exact ⟨content, (checkFrame_eq_ok_iff index).mp hcontent⟩
            | succ j => exact hearlier j (Nat.lt_of_succ_lt_succ hj)
          · cases h
      · rintro ⟨i, ⟨found, piece, hfound, hfault⟩, hearlier⟩
        cases i with
        | zero =>
            cases hfound
            rw [checkFrame_eq_error_iff.mpr (show FrameFault decode index entry frame defect from
              hfault)]
        | succ i =>
            obtain ⟨content, hholds⟩ := hearlier 0 (Nat.succ_pos i) entry frame rfl
            have hrest : checkAll decode (index + 1) frames = .error defect := by
              refine ih.mpr ⟨i, ⟨found, piece, hfound, ?_⟩, fun j hj =>
                hearlier (j + 1) (Nat.succ_lt_succ hj)⟩
              rwa [Nat.add_right_comm]
            rw [(checkFrame_eq_ok_iff index).mpr hholds, hrest]

/-! ## The whole archive -/

namespace SeekTable

/-- The frames that the table cuts out of an archive, each with its entry. -/
def cut (t : SeekTable) (archive : Bytes) : List (FrameEntry × Bytes) :=
  t.entries.toList.zip (t.frameRanges.map fun range => range.slice archive)

/-- The compressed sizes come to what is in front of the table. -/
def Covers (t : SeekTable) (archive : Bytes) : Prop :=
  t.totalCompressed = archive.length - t.encodedSize

theorem getElem?_cut {t : SeekTable} {archive : Bytes} {i : Nat} {entry : FrameEntry}
    {frame : Bytes} :
    (t.cut archive)[i]? = some (entry, frame) ↔
      ∃ range, t.entries[i]? = some entry ∧ t.frameRanges[i]? = some range ∧
        range.slice archive = frame := by
  rw [cut, List.getElem?_zip_eq_some, List.getElem?_map, Option.map_eq_some_iff,
    Array.getElem?_toList, exists_and_left]

theorem length_cut (t : SeekTable) (archive : Bytes) :
    (t.cut archive).length = t.entries.size := by
  simp [cut, frameRanges]

end SeekTable

open SeekTable

theorem allHold_cut_iff {t : SeekTable} {archive : Bytes} {contents : List Bytes} :
    AllHold decode (t.cut archive) contents ↔
      contents.length = t.entries.size ∧
        ∀ (i : Nat) (entry : FrameEntry) (range : Range), t.entries[i]? = some entry →
          t.frameRanges[i]? = some range →
            ∃ content, contents[i]? = some content ∧
              entry.Holds decode (range.slice archive) content := by
  rw [AllHold, length_cut]
  refine and_congr_right fun _ => forall_congr' fun i => ?_
  constructor
  · intro hall entry range hentry hrange
    exact hall entry _ (getElem?_cut.mpr ⟨range, hentry, hrange, rfl⟩)
  · intro hall entry frame hframe
    obtain ⟨range, hentry, hrange, rfl⟩ := getElem?_cut.mp hframe
    exact hall entry range hentry hrange

theorem checkFrames_eq_checkAll (decode : Bytes → Except String Bytes) (archive : Bytes)
    (index start : Nat) (entries : List FrameEntry)
    (earlier : List Bytes) :
    checkFrames decode index entries (archive.drop start) earlier =
      (checkAll decode index (entries.zip ((rangesFrom start entries).map
        fun range => range.slice archive))).map (earlier.reverse ++ ·) := by
  induction entries generalizing index start earlier with
  | nil => simp [checkFrames, checkAll, Except.map]
  | cons entry entries ih =>
      simp only [checkFrames, rangesFrom, List.map_cons, List.zip_cons_cons, checkAll,
        Range.slice, Nat.add_sub_cancel_left]
      cases checkFrame decode index entry ((archive.drop start).take
          entry.compressedSize.toNat) with
      | error defect => rfl
      | ok content =>
          simp only [List.drop_drop, ih, Range.slice]
          split <;> simp [Except.map, *]

variable {archive : Bytes} {t : SeekTable}

theorem decodeFramesWith_of_not_covers (hparse : parse archive = .ok t)
    (hcovers : ¬ t.Covers archive) :
    decodeFramesWith decode archive =
      .error (.coverage t.totalCompressed (archive.length - t.encodedSize)) := by
  simp only [decodeFramesWith, hparse]
  exact if_pos hcovers

theorem decodeFramesWith_of_covers (hparse : parse archive = .ok t)
    (hcovers : t.Covers archive) :
    decodeFramesWith decode archive = checkAll decode 0 (t.cut archive) := by
  have hall := checkFrames_eq_checkAll decode archive 0 0 t.entries.toList []
  rw [List.drop_zero] at hall
  have hsum : t.totalCompressed = archive.length - t.encodedSize := hcovers
  simp only [decodeFramesWith, hparse, hall]
  rw [if_neg (not_not_intro hsum), cut, frameRanges]
  generalize checkAll decode 0 _ = answer
  cases answer <;> rfl

/-- Verification accepts exactly the archives whose table parses and covers what is in front
of it and whose frames hold what the table says. -/
theorem decodeFramesWith_eq_ok_iff {contents : List Bytes} :
    decodeFramesWith decode archive = .ok contents ↔
      ∃ t, parse archive = .ok t ∧ t.Covers archive ∧
        AllHold decode (t.cut archive) contents := by
  cases hparse : parse archive with
  | error defect => simp [decodeFramesWith, hparse]
  | ok t =>
      simp only [Except.ok.injEq, exists_eq_left']
      by_cases hcovers : t.Covers archive
      · rw [decodeFramesWith_of_covers hparse hcovers, checkAll_eq_ok_iff]
        simp [hcovers]
      · rw [decodeFramesWith_of_not_covers hparse hcovers]
        simp [hcovers]

/-- What verification reports is what comes first: the table, its coverage, the first frame
with a fault. -/
theorem decodeFramesWith_eq_error_iff {defect : Defect} :
    decodeFramesWith decode archive = .error defect ↔
      parse archive = .error defect ∨
      ∃ t, parse archive = .ok t ∧
        (¬ t.Covers archive ∧
            defect = .coverage t.totalCompressed (archive.length - t.encodedSize) ∨
          t.Covers archive ∧ ∃ i, FirstFault decode (t.cut archive) i i defect) := by
  cases hparse : parse archive with
  | error fault => simp [decodeFramesWith, hparse]
  | ok t =>
      simp only [Except.ok.injEq, exists_eq_left', reduceCtorEq, false_or]
      by_cases hcovers : t.Covers archive
      · rw [decodeFramesWith_of_covers hparse hcovers, checkAll_eq_error_iff]
        simp [hcovers]
      · rw [decodeFramesWith_of_not_covers hparse hcovers]
        simp [hcovers, eq_comm]

end SeekableArchive
