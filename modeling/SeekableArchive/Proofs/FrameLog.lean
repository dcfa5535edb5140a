import Mathlib.Data.List.Forall2
import SeekableArchive.Proofs.Flow
import SeekableArchive.Proofs.SeekTable
import SeekableArchive.Xxh64

/-!
# What a frame log holds and hands out

A log describes the frames of an engine if it has one entry for each, with the sizes
and, where checksums are kept, the checksum of what the frame has taken in.  The
encoded table leaves the log piece by piece; `unread` is what has not left it yet.
-/

namespace SeekableArchive

/-- The entry states the sizes of the frame and the checksum of its content. -/
structure FrameEntry.Describes (checksums : Bool) (entry : FrameEntry) (flow : Flow) : Prop where
  compressed : entry.compressedSize.toNat = flow.given.length
  uncompressed : entry.uncompressedSize.toNat = flow.taken.length
  checksum : entry.checksum = if checksums then some (Xxh64.checksum flow.taken) else none

namespace FrameLog

/-- One entry for each ended frame, in order. -/
def Describes (log : FrameLog) (ended : List Flow) : Prop :=
  List.Forall₂ (FrameEntry.Describes log.checksums) log.entries.toList ended

/-- What a log has still to hand out. -/
def unread (log : FrameLog) : Bytes :=
  match log.handout with
  | none => log.table.encode
  | some handout => handout.rest

/-- What was handed out and what is unread make up the encoded table. -/
def Coherent (log : FrameLog) : Prop :=
  ∀ handout, log.handout = some handout →
    handout.produced + handout.rest.length = log.table.encodedSize

theorem record_eq_ok_iff {log log' : FrameLog} {compressed uncompressed : Nat}
    {checksum : UInt32} :
    log.record compressed uncompressed checksum = .ok log' ↔
      log.handout = none ∧ log.size < maxFrames ∧ compressed ≤ maxFrameSize ∧
        uncompressed ≤ maxFrameSize ∧ log'.handout = none ∧
        log'.table =
          log.table.push (UInt32.ofNat compressed) (UInt32.ofNat uncompressed) checksum := by
  obtain ⟨table', handout', bounded'⟩ := log'
  cases hhandout : log.handout with
  | some handout => simp [record, hhandout]
  | none =>
      by_cases hfull : log.table.entries.size < maxFrames
      · by_cases hc : maxFrameSize < compressed
        · simp [record, hhandout, hfull, hc, Nat.not_le.mpr hc]
        · by_cases hu : maxFrameSize < uncompressed
          · simp [record, hhandout, hfull, hc, hu, Nat.not_le.mpr hu]
          · simp only [record, hhandout, hfull, hc, hu, Option.isSome_none, if_false, dif_pos,
              size, Nat.not_lt.mp hc, Nat.not_lt.mp hu, true_and, Except.ok.injEq,
              FrameLog.mk.injEq, Bool.false_eq_true]
            exact ⟨fun h => ⟨h.2.symm, h.1.symm⟩, fun h => ⟨h.2.symm, h.1.symm⟩⟩
      · simp [record, hhandout, hfull, size]

theorem exists_record_eq_ok {log : FrameLog} {compressed uncompressed : Nat}
    (checksum : UInt32) (hhandout : log.handout = none) (hsize : log.size < maxFrames)
    (hcompressed : compressed ≤ maxFrameSize) (huncompressed : uncompressed ≤ maxFrameSize) :
    ∃ log', log.record compressed uncompressed checksum = .ok log' := by
  have hfull : log.table.entries.size < maxFrames := hsize
  simp only [record, hhandout, Option.isSome_none, Bool.false_eq_true, if_false, dif_pos hfull,
    Nat.not_lt.mpr hcompressed, Nat.not_lt.mpr huncompressed]
  exact ⟨_, rfl⟩

/-- An open log with room for an entry refuses a compressed size that it can state only for
the uncompressed size. -/
theorem record_eq_error {log : FrameLog} {compressed uncompressed : Nat} {checksum : UInt32}
    {fault : RecordFault} (hhandout : log.handout = none) (hsize : log.size < maxFrames)
    (hcompressed : compressed ≤ maxFrameSize)
    (h : log.record compressed uncompressed checksum = .error fault) :
    maxFrameSize < uncompressed ∧ fault = .uncompressedTooLarge uncompressed := by
  by_cases huncompressed : uncompressed ≤ maxFrameSize
  · obtain ⟨log', hok⟩ := exists_record_eq_ok checksum hhandout hsize hcompressed huncompressed
    rw [hok] at h
    cases h
  · have hfull : log.table.entries.size < maxFrames := hsize
    simp only [record, hhandout, Option.isSome_none, Bool.false_eq_true, if_false, dif_pos hfull,
      Nat.not_lt.mpr hcompressed, if_pos (Nat.not_le.mp huncompressed)] at h
    cases h
    exact ⟨Nat.not_le.mp huncompressed, rfl⟩

/-- A recorded frame is described by the entry that is appended for it. -/
theorem Describes.record {log log' : FrameLog} {ended : List Flow} {flow : Flow}
    {checksum : UInt32} (h : log.Describes ended)
    (hchecksum : log.checksums = true → checksum = Xxh64.checksum flow.taken)
    (hrecord : log.record flow.given.length flow.taken.length checksum = .ok log') :
    log'.Describes (ended ++ [flow]) := by
  obtain ⟨-, -, hgiven, htaken, -, htable⟩ := record_eq_ok_iff.mp hrecord
  have hchecksums : log'.checksums = log.checksums := by
    rw [checksums, htable]
    rfl
  have hentries : log'.entries.toList = log.entries.toList ++
      [⟨UInt32.ofNat flow.given.length, UInt32.ofNat flow.taken.length,
        if log.checksums then some checksum else none⟩] := by
    rw [entries, htable]
    exact Array.toList_push
  rw [Describes, hchecksums, hentries]
  refine List.rel_append h (.cons ⟨?_, ?_, ?_⟩ .nil)
  · exact SeekTable.toNat_ofNat_of_le hgiven
  · exact SeekTable.toNat_ofNat_of_le htaken
  · cases hflag : log.checksums with
    | true => simp only [if_true, hchecksum hflag]
    | false => simp only [Bool.false_eq_true, if_false]

theorem Describes.of_table_eq {log log' : FrameLog} {ended : List Flow} (h : log.Describes ended)
    (htable : log'.table = log.table) : log'.Describes ended := by
  rw [Describes, checksums, entries, htable]
  exact h

theorem Describes.size_eq {log : FrameLog} {ended : List Flow} (h : log.Describes ended) :
    log.size = ended.length := by
  simpa [size, entries] using h.length_eq

theorem Describes.compressedSizes {log : FrameLog} {ended : List Flow} (h : log.Describes ended) :
    (log.table.entries.toList.map fun entry => entry.compressedSize.toNat) =
      ended.map fun flow => flow.given.length := by
  have hsizes := List.rel_map (P := Eq) (fun _ _ hentry => hentry.compressed) h
  rwa [List.forall₂_eq_eq_eq] at hsizes

theorem Describes.uncompressedSizes {log : FrameLog} {ended : List Flow}
    (h : log.Describes ended) :
    (log.table.entries.toList.map fun entry => entry.uncompressedSize.toNat) =
      ended.map fun flow => flow.taken.length := by
  have hsizes := List.rel_map (P := Eq) (fun _ _ hentry => hentry.uncompressed) h
  rwa [List.forall₂_eq_eq_eq] at hsizes

theorem coherent_of_handout_eq_none {log : FrameLog} (h : log.handout = none) :
    log.Coherent := by
  intro handout hsome
  rw [h] at hsome
  cases hsome

theorem unread_of_handout_eq_none {log : FrameLog} (h : log.handout = none) :
    log.unread = log.table.encode := by
  simp [unread, h]

/-- There is always memory for the encoded table, since a log is bounded. -/
theorem reserveTable_eq_ok (log : FrameLog) : log.reserveTable = .ok () := by
  have hspace : log.table.encodedSize < Reservation.addressSpace :=
    Nat.lt_of_le_of_lt (log.table.encodedSize_bound log.bounded) (by decide)
  rw [reserveTable, Reservation.buffer, Reservation.reserve_eq_ok_iff.mpr hspace]
  exact ite_self _

theorem serialize_spec {log : FrameLog} (h : log.Coherent) (room : Nat) :
    (log.serialize room).1.output = log.unread.take room ∧
      (log.serialize room).1.remaining = (log.unread.drop room).length ∧
      (log.serialize room).2.unread = log.unread.drop room ∧
      (log.serialize room).2.table = log.table ∧
      (log.serialize room).2.Coherent := by
  cases hhandout : log.handout with
  | none =>
      have hsize := log.table.length_encode
      refine ⟨?_, ?_, ?_, rfl, ?_⟩
      · simp [serialize, unread, hhandout]
      · simp only [serialize, unread, hhandout, Option.getD_none, List.length_take,
          List.length_drop]
        omega
      · simp [serialize, unread, hhandout]
      · intro handout hsome
        simp only [serialize, hhandout, Option.getD_none, Option.some.injEq] at hsome
        subst hsome
        simp only [serialize, List.length_take, List.length_drop]
        omega
  | some handout =>
      have hsize := h handout hhandout
      refine ⟨?_, ?_, ?_, rfl, ?_⟩
      · simp [serialize, unread, hhandout]
      · simp only [serialize, unread, hhandout, Option.getD_some, List.length_take,
          List.length_drop]
        omega
      · simp [serialize, unread, hhandout]
      · intro handout' hsome
        simp only [serialize, hhandout, Option.getD_some, Option.some.injEq] at hsome
        subst hsome
        simp only [serialize, List.length_take, List.length_drop]
        omega

end FrameLog

end SeekableArchive
