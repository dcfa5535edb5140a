import SeekableArchive.Proofs.CheckedReads
import SeekableArchive.Proofs.FrameChecks
import SeekableArchive.Proofs.StoredFrames
import SeekableArchive.Proofs.TableGrammar
import SeekableArchive.Reservation

/-!
# Verifying by position

The table says how long it is and where the frames are, and nothing vouches for it.  Here
verification reads by position: the number of entries and the sizes are multiplied and added
as they stand, and every place is computed before it is looked at.  The table is not read
before its length has been compared with the archive's, and no frame is cut out before the
sizes add up to what is in front of the table, so that nothing is ever read that is not
there and every sum can be written down.
-/

namespace SeekableArchive

open LittleEndian

/-- What is known of a table once it is read: its entries, and the bytes it takes up. -/
structure TableReading where
  checksums : Bool
  entries : List FrameEntry
  size : Nat
deriving DecidableEq

def SeekTable.reading (t : SeekTable) : TableReading where
  checksums := t.checksums
  entries := t.entries.toList
  size := t.encodedSize

namespace Checked

open SeekTable

/-- The bit of the descriptor that says whether there are checksums. -/
def checksumFlag : UInt8 := 0x80

/-- The words of an entry. -/
def readEntryAt (archive : Bytes) (checksums : Bool) (place : Nat) :
    Except Trap FrameEntry := do
  let compressedSize ← wordAt archive place
  let uncompressedSize ← wordAt archive (← add place 4)
  if checksums then do
    let checksum ← wordAt archive (← add place 8)
    .ok ⟨compressedSize, uncompressedSize, some checksum⟩
  else .ok ⟨compressedSize, uncompressedSize, none⟩

/-- Entry number `index` of the table at `start`. -/
def entryAt (archive : Bytes) (checksums : Bool) (start index : Nat) :
    Except Trap FrameEntry := do
  let first ← add start headerSize
  let skipped ← mul index (FrameEntry.width checksums)
  let place ← add first skipped
  readEntryAt archive checksums place

/-- The bytes of a table with `count` entries. -/
def sizeAt (checksums : Bool) (count : Nat) : Except Trap Nat := do
  let entries ← mul count (FrameEntry.width checksums)
  add (← add headerSize entries) footerSize

/-- Reads the table of `count` entries that should be at the end of an archive. -/
def parseEntriesAt (archive : Bytes) (checksums : Bool) (count : Nat) :
    Except Trap (Except Defect TableReading) := do
  let length := archive.length
  let size ← sizeAt checksums count
  if length < size then .ok (.error (.tooShort length))
  else do
    let start ← sub length size
    let magic ← wordAt archive start
    if magic ≠ Magic.skippable.word then .ok (.error (.badMagic .skippable magic))
    else do
      let header ← wordAt archive (← add start 4)
      let expected ← sub size headerSize
      if header.toNat ≠ expected then .ok (.error (.lengthMismatch header.toNat expected))
      else do
        let entries ← (List.range count).mapM (entryAt archive checksums start)
        .ok (.ok ⟨checksums, entries, size⟩)

def parseAt (archive : Bytes) : Except Trap (Except Defect TableReading) := do
  let length := archive.length
  if length < headerSize + footerSize then .ok (.error (.tooShort length))
  else do
    let trailer ← sub length footerSize
    let magic ← wordAt archive (← add trailer 5)
    if magic ≠ Magic.seekable.word then .ok (.error (.badMagic .seekable magic))
    else do
      let descriptor ← byteAt archive (← add trailer 4)
      if descriptor &&& reservedMask ≠ 0 then .ok (.error (.reservedBits descriptor))
      else do
        let count ← wordAt archive trailer
        parseEntriesAt archive (descriptor &&& checksumFlag ≠ 0) count.toNat

/-- The sum of one of the sizes of all entries. -/
def totalAt (size : FrameEntry → UInt32) : Nat → List FrameEntry → Except Trap Nat
  | sum, [] => .ok sum
  | sum, entry :: entries => do
      let sum ← add sum (size entry).toNat
      totalAt size sum entries

def rangesAt : Nat → List FrameEntry → Except Trap (List Range)
  | _, [] => .ok []
  | start, entry :: entries => do
      let stop ← add start entry.compressedSize.toNat
      let ranges ← rangesAt stop entries
      .ok (⟨start, stop⟩ :: ranges)

/-- Cuts out frame by frame and checks it, up to the first fault. -/
def checkRangesAt (decode : Bytes → Except String Bytes) (archive : Bytes) :
    Nat → List (FrameEntry × Range) → Except Trap (Except Defect (List Bytes))
  | _, [] => .ok (.ok [])
  | index, (entry, range) :: rest => do
      let frame ← slice archive range.start range.stop
      match checkFrame decode index entry frame with
      | .error defect => .ok (.error defect)
      | .ok content => do
          match ← checkRangesAt decode archive (index + 1) rest with
          | .error defect => .ok (.error defect)
          | .ok contents => .ok (.ok (content :: contents))

def decodeFramesAt (decode : Bytes → Except String Bytes) (archive : Bytes) :
    Except Trap (Except Defect (List Bytes)) := do
  match ← parseAt archive with
  | .error defect => .ok (.error defect)
  | .ok table => do
      let body ← sub archive.length table.size
      let covered ← totalAt FrameEntry.compressedSize 0 table.entries
      if covered ≠ body then .ok (.error (.coverage covered body))
      else do
        let ranges ← rangesAt 0 table.entries
        checkRangesAt decode archive 0 (table.entries.zip ranges)

theorem mapM_eq_ok {α β : Type} {f : α → Except Trap β} {g : α → β} {l : List α}
    (h : ∀ a ∈ l, f a = .ok (g a)) : l.mapM f = .ok (l.map g) := by
  induction l with
  | nil => rfl
  | cons a l ih =>
      obtain ⟨hfirst, hrest⟩ := List.forall_mem_cons.mp h
      rw [List.mapM_cons, hfirst, ok_bind, ih hrest, ok_bind]
      rfl

/-! ## The table -/

variable {archive : Bytes} {checksums : Bool} {start index count : Nat}

theorem length_lt_limit (hlength : archive.length ≤ Reservation.maxCapacity) :
    archive.length + 0x10_0000_0000 < limit := by
  simp only [Reservation.maxCapacity, limit] at *
  omega

theorem readEntryAt_eq_ok {place : Nat} (hlength : archive.length ≤ Reservation.maxCapacity)
    (hplace : place + FrameEntry.width checksums ≤ archive.length) :
    readEntryAt archive checksums place = .ok (FrameEntry.read checksums (archive.drop place)) := by
  have hlimit := length_lt_limit hlength
  have hwidth : 8 ≤ FrameEntry.width checksums := by
    cases checksums <;> decide
  have hcompressed := wordAt_eq_ok archive place (by omega) (by omega)
  have huncompressed := wordAt_eq_ok archive (place + 4) (by omega) (by omega)
  rw [readEntryAt, hcompressed, ok_bind, add_eq_ok (by omega), ok_bind, huncompressed, ok_bind,
    ← List.drop_drop]
  cases checksums with
  | false => rfl
  | true =>
      have htwelve : place + 12 ≤ archive.length := hplace
      have hchecksum := wordAt_eq_ok archive (place + 8) (by omega) (by omega)
      rw [if_pos rfl, add_eq_ok (by omega), ok_bind, hchecksum, ok_bind, ← List.drop_drop]
      rfl

theorem entryAt_eq_ok (hlength : archive.length ≤ Reservation.maxCapacity)
    (hplace : start + headerSize + index * FrameEntry.width checksums +
      FrameEntry.width checksums ≤ archive.length) :
    entryAt archive checksums start index =
      .ok (FrameEntry.read checksums
        ((archive.drop (start + headerSize)).drop (index * FrameEntry.width checksums))) := by
  have hlimit := length_lt_limit hlength
  rw [entryAt, add_eq_ok (by omega), ok_bind, mul_eq_ok (by omega), ok_bind,
    add_eq_ok (by omega), ok_bind, readEntryAt_eq_ok hlength hplace, List.drop_drop]

theorem toList_readMany_eq_map (checksums : Bool) (count : Nat) (bs : Bytes)
    (earlier : Array FrameEntry) :
    (FrameEntry.readMany checksums count bs earlier).toList =
      earlier.toList ++ (List.range count).map fun index =>
        FrameEntry.read checksums (bs.drop (index * FrameEntry.width checksums)) := by
  induction count generalizing bs earlier with
  | zero => simp [FrameEntry.readMany]
  | succ count ih =>
      rw [FrameEntry.readMany, ih, Array.toList_push, List.append_assoc, List.range_succ_eq_map]
      simp only [List.map_cons, List.map_map, Nat.zero_mul, List.drop_zero, List.singleton_append,
        List.drop_drop, Function.comp_def, Nat.succ_mul, Nat.add_comm]

theorem sizeAt_eq_ok (hcount : count < UInt32.size) :
    sizeAt checksums count = .ok (sizeFor checksums count) := by
  have hentries : count * FrameEntry.width checksums ≤ UInt32.size * 12 := by
    refine Nat.mul_le_mul (Nat.le_of_lt hcount) ?_
    cases checksums <;> decide
  have hsmall : UInt32.size * 12 + 17 < limit := by decide
  have hheader : headerSize = 8 := rfl
  have hfooter : footerSize = 9 := rfl
  rw [sizeAt, mul_eq_ok (by omega), ok_bind, add_eq_ok (by omega), ok_bind,
    add_eq_ok (by omega), sizeFor]

/-- The table is inside of the archive before any of it is read. -/
theorem parseEntriesAt_eq_ok (hlength : archive.length ≤ Reservation.maxCapacity)
    (hcount : count < UInt32.size) :
    parseEntriesAt archive checksums count =
      .ok ((parseEntries archive checksums count).map SeekTable.reading) := by
  have hlimit := length_lt_limit hlength
  have hheader : headerSize = 8 := rfl
  simp only [parseEntriesAt, sizeAt_eq_ok hcount, ok_bind, parseEntries]
  by_cases hshort : archive.length < sizeFor checksums count
  · simp only [if_pos hshort, Except.map]
  · obtain ⟨start, hstart⟩ : ∃ start, start + sizeFor checksums count = archive.length :=
      ⟨archive.length - sizeFor checksums count, by omega⟩
    have hsize : headerSize + count * FrameEntry.width checksums ≤ sizeFor checksums count :=
      Nat.le_add_right _ _
    have hplace : archive.length - sizeFor checksums count = start := by omega
    have hmagic := wordAt_eq_ok archive start (by omega) (by omega)
    have hfield := wordAt_eq_ok archive (start + 4) (by omega) (by omega)
    rw [← List.drop_drop] at hfield
    have hentries : (List.range count).mapM (entryAt archive checksums start) =
        .ok (ofBytes checksums count ((archive.drop start).drop headerSize)).entries.toList := by
      rw [ofBytes, toList_readMany_eq_map, List.drop_drop]
      refine mapM_eq_ok fun index hindex => entryAt_eq_ok hlength ?_
      have hnext : (index + 1) * FrameEntry.width checksums ≤
          count * FrameEntry.width checksums :=
        Nat.mul_le_mul_right _ (List.mem_range.mp hindex)
      rw [Nat.succ_mul] at hnext
      omega
    simp only [if_neg hshort, sub_eq_ok (Nat.le_of_not_lt hshort), ok_bind, hplace, hmagic,
      add_eq_ok (show start + 4 < limit by omega), hfield,
      sub_eq_ok (show headerSize ≤ sizeFor checksums count by omega), hentries]
    split
    · rfl
    · split
      · rfl
      · simp [Except.map, SeekTable.reading, encodedSize, ofBytes]

/-- The trailer is inside of the archive, and the bit for the checksums is the only one that
is set in the descriptor. -/
theorem parseAt_eq_ok (hlength : archive.length ≤ Reservation.maxCapacity) :
    parseAt archive = .ok ((parse archive).map SeekTable.reading) := by
  have hlimit := length_lt_limit hlength
  have hheader : headerSize = 8 := rfl
  have hfooter : footerSize = 9 := rfl
  simp only [parseAt, parse]
  by_cases hshort : archive.length < headerSize + footerSize
  · simp only [if_pos hshort, Except.map]
  · obtain ⟨trailer, htrailer⟩ : ∃ trailer, trailer + footerSize = archive.length :=
      ⟨archive.length - footerSize, by omega⟩
    have hplace : archive.length - footerSize = trailer := by omega
    have hcount := wordAt_eq_ok archive trailer (by omega) (by omega)
    have hflag := byteAt_eq_ok archive (trailer + 4) (by omega) 0
    have hmagic := wordAt_eq_ok archive (trailer + 5) (by omega) (by omega)
    rw [← List.drop_drop] at hflag hmagic
    simp only [if_neg hshort, sub_eq_ok (show footerSize ≤ archive.length by omega), ok_bind,
      hplace, hcount, add_eq_ok (show trailer + 4 < limit by omega), hflag,
      add_eq_ok (show trailer + 5 < limit by omega), hmagic]
    split
    · rfl
    · split
      · rfl
      · rename_i hreserved
        have hbit : ((archive.drop trailer).drop 4).headD 0 &&& checksumFlag =
            ((archive.drop trailer).drop 4).headD 0 := by
          rw [eq_descriptor_of_reserved_eq_zero (Decidable.not_not.mp hreserved)]
          cases decide (((archive.drop trailer).drop 4).headD 0 ≠ 0) <;> decide
        rw [hbit, parseEntriesAt_eq_ok hlength (readWord _).toNat_lt]

/-! ## The frames -/

theorem totalAt_eq_ok (size : FrameEntry → UInt32) {sum : Nat} {entries : List FrameEntry}
    (h : sum + entries.length * UInt32.size < limit) :
    totalAt size sum entries =
      .ok (sum + (entries.map fun entry => (size entry).toNat).foldr (· + ·) 0) := by
  induction entries generalizing sum with
  | nil => rfl
  | cons entry entries ih =>
      have hentry : (size entry).toNat < UInt32.size := (size entry).toNat_lt
      rw [List.length_cons, Nat.succ_mul] at h
      rw [totalAt, add_eq_ok (by omega), ok_bind, ih (by omega), List.map_cons, List.foldr_cons,
        Nat.add_assoc]

theorem rangesAt_eq_ok {offset : Nat} {entries : List FrameEntry}
    (h : offset + entries.length * UInt32.size < limit) :
    rangesAt offset entries = .ok (rangesFrom offset entries) := by
  induction entries generalizing offset with
  | nil => rfl
  | cons entry entries ih =>
      have hentry : entry.compressedSize.toNat < UInt32.size := entry.compressedSize.toNat_lt
      rw [List.length_cons, Nat.succ_mul] at h
      rw [rangesAt, add_eq_ok (by omega), ok_bind, ih (by omega), ok_bind, rangesFrom]

/-- Ranges that lead from one place to another, each beginning where the last one ended. -/
inductive Adjoining : Nat → List Range → Nat → Prop
  | nil {place : Nat} : Adjoining place [] place
  | cons {start middle stop : Nat} {ranges : List Range} (hle : start ≤ middle)
      (h : Adjoining middle ranges stop) : Adjoining start (⟨start, middle⟩ :: ranges) stop

theorem adjoining_rangesFrom (start : Nat) (entries : List FrameEntry) :
    Adjoining start (rangesFrom start entries)
      (start + (entries.map fun entry => entry.compressedSize.toNat).foldr (· + ·) 0) := by
  induction entries generalizing start with
  | nil => exact .nil
  | cons entry entries ih =>
      rw [rangesFrom, List.map_cons, List.foldr_cons, ← Nat.add_assoc]
      exact .cons (Nat.le_add_right _ _) (ih _)

theorem Adjoining.bounds {start stop : Nat} {ranges : List Range}
    (h : Adjoining start ranges stop) :
    start ≤ stop ∧ ∀ range ∈ ranges, range.start ≤ range.stop ∧ range.stop ≤ stop := by
  induction h with
  | nil => exact ⟨Nat.le_refl _, by simp⟩
  | cons hle _ ih =>
      exact ⟨Nat.le_trans hle ih.1, List.forall_mem_cons.mpr ⟨⟨hle, ih.1⟩, ih.2⟩⟩

/-- Frames that are in the archive are all cut out, up to the first one with a fault. -/
theorem checkRangesAt_eq_ok {decode : Bytes → Except String Bytes} {index : Nat}
    {pairs : List (FrameEntry × Range)}
    (h : ∀ pair ∈ pairs, pair.2.start ≤ pair.2.stop ∧ pair.2.stop ≤ archive.length) :
    checkRangesAt decode archive index pairs =
      .ok (checkAll decode index
        (pairs.map (Prod.map id fun range => range.slice archive))) := by
  induction pairs generalizing index with
  | nil => rfl
  | cons pair pairs ih =>
      obtain ⟨entry, range⟩ := pair
      obtain ⟨⟨hstart, hstop⟩, hrest⟩ := List.forall_mem_cons.mp h
      rw [checkRangesAt, slice_eq_ok hstart hstop, ok_bind, List.map_cons, Prod.map_apply,
        checkAll, ih hrest]
      simp only [id_eq, Range.slice, ok_bind]
      cases checkFrame decode index entry
          ((archive.drop range.start).take (range.stop - range.start)) with
      | error defect => rfl
      | ok content =>
          dsimp only
          split <;> simp_all

/-- A table that was read has so few entries that no sum of their sizes is too large. -/
theorem entries_bound {t : SeekTable} (hparse : parse archive = .ok t) :
    0 + t.entries.toList.length * UInt32.size < limit := by
  obtain ⟨-, hfits, -⟩ := drop_eq_encode_of_parse hparse
  have hcount : t.entries.toList.length ≤ maxFrameSize := by
    rw [Array.length_toList]
    exact Nat.le_trans (size_le_encodedSize t) hfits
  rw [Nat.zero_add]
  exact Nat.lt_of_le_of_lt (Nat.mul_le_mul_right UInt32.size hcount) (by decide)

theorem adjoining_frameRanges {t : SeekTable} (hcovers : t.Covers archive) :
    Adjoining 0 t.frameRanges (archive.length - t.encodedSize) := by
  have hranges := adjoining_rangesFrom 0 t.entries.toList
  rw [Nat.zero_add] at hranges
  have hsum : (t.entries.toList.map fun entry => entry.compressedSize.toNat).foldr (· + ·) 0 =
      archive.length - t.encodedSize := hcovers
  rwa [hsum] at hranges

theorem decodeFramesAt_eq_ok (decode : Bytes → Except String Bytes)
    (hlength : archive.length ≤ Reservation.maxCapacity) :
    decodeFramesAt decode archive = .ok (decodeFramesWith decode archive) := by
  rw [decodeFramesAt, parseAt_eq_ok hlength, ok_bind]
  cases hparse : parse archive with
  | error defect => simp [Except.map, decodeFramesWith, hparse]
  | ok t =>
      have hbound := entries_bound hparse
      have hsize := (drop_eq_encode_of_parse hparse).1
      have htotal := totalAt_eq_ok FrameEntry.compressedSize hbound
      rw [Nat.zero_add] at htotal
      simp only [Except.map, SeekTable.reading, sub_eq_ok hsize, ok_bind, htotal,
        rangesAt_eq_ok hbound]
      by_cases hcovers : t.Covers archive
      · have hsum : t.totalCompressed = archive.length - t.encodedSize := hcovers
        have hranges := (adjoining_frameRanges hcovers).bounds.2
        have hcut : t.cut archive = (t.entries.toList.zip t.frameRanges).map
            (Prod.map id fun range => range.slice archive) := List.zip_map_right ..
        rw [decodeFramesWith_of_covers hparse hcovers, hcut, ← checkRangesAt_eq_ok]
        · exact if_neg (not_not_intro hsum)
        · intro pair hpair
          obtain ⟨hstart, hstop⟩ := hranges pair.2 (List.of_mem_zip hpair).2
          exact ⟨hstart, Nat.le_trans hstop (Nat.sub_le _ _)⟩
      · rw [decodeFramesWith_of_not_covers hparse hcovers]
        exact if_pos hcovers

end Checked

open Checked SeekTable

/-- On every archive that fits into memory verification reads only what is there and adds up
only what can be written down.  The frames that are cut out adjoin each other from the
beginning up to the table.  An archive is accepted exactly if its table parses and covers it
and every frame holds what its entry says; otherwise what is reported comes first in this
order. -/
theorem verification_is_safe_and_exact (decode : Bytes → Except String Bytes)
    (archive : Bytes) :
    (archive.length ≤ Reservation.maxCapacity →
      parseAt archive = .ok ((parse archive).map SeekTable.reading) ∧
      decodeFramesAt decode archive = .ok (decodeFramesWith decode archive) ∧
      ∀ t, parse archive = .ok t →
        totalAt FrameEntry.compressedSize 0 t.entries.toList = .ok t.totalCompressed ∧
        totalAt FrameEntry.uncompressedSize 0 t.entries.toList = .ok t.totalUncompressed ∧
        rangesAt 0 t.entries.toList = .ok t.frameRanges ∧
        (t.Covers archive → Adjoining 0 t.frameRanges (archive.length - t.encodedSize))) ∧
    (∀ contents, decodeFramesWith decode archive = .ok contents ↔
      ∃ t, parse archive = .ok t ∧ t.Covers archive ∧
        contents.length = t.entries.size ∧
        ∀ (i : Nat) (entry : FrameEntry) (range : Range), t.entries[i]? = some entry →
          t.frameRanges[i]? = some range →
            ∃ content, contents[i]? = some content ∧
              entry.Holds decode (range.slice archive) content) ∧
    ∀ defect, decodeFramesWith decode archive = .error defect ↔
      parse archive = .error defect ∨
      ∃ t, parse archive = .ok t ∧
        (¬ t.Covers archive ∧
            defect = .coverage t.totalCompressed (archive.length - t.encodedSize) ∨
          t.Covers archive ∧ ∃ i, FirstFault decode (t.cut archive) i i defect) := by
  refine ⟨fun hlength => ⟨parseAt_eq_ok hlength, decodeFramesAt_eq_ok decode hlength,
    fun t hparse => ?_⟩, fun contents => ?_, fun defect => decodeFramesWith_eq_error_iff⟩
  · have hbound := entries_bound hparse
    have hcompressed := totalAt_eq_ok FrameEntry.compressedSize hbound
    have huncompressed := totalAt_eq_ok FrameEntry.uncompressedSize hbound
    rw [Nat.zero_add] at hcompressed huncompressed
    exact ⟨hcompressed, huncompressed, rangesAt_eq_ok hbound, adjoining_frameRanges⟩
  · simp only [← allHold_cut_iff]
    exact decodeFramesWith_eq_ok_iff

namespace StoredArchive

def table : SeekTable :=
  SeekTable.push { checksums := true } 12 3 (Xxh64.checksum [1, 2, 3])

/-- One stored frame and its table. -/
def archive : Bytes :=
  Zstd.storedFrame [1, 2, 3] ++ table.encode

def decode (frame : Bytes) : Except String Bytes :=
  (Zstd.decode frame).mapError Zstd.DecodeError.message

theorem holds :
    FrameEntry.Holds decode ⟨12, 3, some (Xxh64.checksum [1, 2, 3])⟩
      (Zstd.storedFrame [1, 2, 3]) [1, 2, 3] where
  decoded := by
    rw [decode, Zstd.decode_storedFrame]
    rfl
  size := rfl
  checksum recorded hrecorded := (Option.some.inj hrecorded).symm

/-- The archive is accepted; with a byte less in front of the table it is not covered. -/
theorem verification_is_exact :
    archive.length ≤ Reservation.maxCapacity ∧
      decodeFramesAt decode archive = .ok (.ok [[1, 2, 3]]) ∧
      decodeFramesAt decode (archive.drop 1) = .ok (.error (.coverage 12 11)) := by
  have hlength : archive.length ≤ Reservation.maxCapacity := by decide +kernel
  have hshorter : (archive.drop 1).length ≤ Reservation.maxCapacity := by decide +kernel
  have hfits : table.encodedSize - headerSize ≤ maxFrameSize := by decide +kernel
  obtain ⟨hwhole, haccepts, -⟩ := verification_is_safe_and_exact decode archive
  obtain ⟨hcut, -, hreports⟩ := verification_is_safe_and_exact decode (archive.drop 1)
  have hverified : decodeFramesWith decode archive = .ok [[1, 2, 3]] := by
    refine (haccepts _).mpr ⟨table, parse_append_encode_of_le table hfits _, ?_, rfl, ?_⟩
    · exact of_decide_eq_true (p := table.totalCompressed = _) (by decide +kernel)
    · rintro (_ | i) entry range hentry hrange
      · cases hentry
        cases hrange
        exact ⟨_, rfl, holds⟩
      · cases hentry
  have huncovered : decodeFramesWith decode (archive.drop 1) = .error (.coverage 12 11) := by
    refine (hreports _).mpr (.inr ⟨table, ?_, .inl ⟨?_, by decide +kernel⟩⟩)
    · exact parse_append_encode_of_le table hfits ((Zstd.storedFrame [1, 2, 3]).drop 1)
    · exact of_decide_eq_false (p := table.totalCompressed = _) (by decide +kernel)
  exact ⟨hlength, (hwhole hlength).2.1.trans (congrArg _ hverified),
    (hcut hshorter).2.1.trans (congrArg _ huncovered)⟩

end StoredArchive
end SeekableArchive
