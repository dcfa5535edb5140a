import SeekableArchive.Proofs.SeekTable

/-!
# The form of a seek table

`WrittenAs` says field by field what the bytes of a table are, without the writer and
without the reader.  The reader accepts an archive exactly if it ends in such bytes: the
trailer fixes how long the table is, so whatever else in the archive looks like a table
does not matter.
-/

namespace SeekableArchive

open LittleEndian

namespace FrameEntry

/-- The words of an entry: two sizes and, if there is one, the checksum. -/
def words (e : FrameEntry) : List UInt32 :=
  [e.compressedSize, e.uncompressedSize] ++ e.checksum.toList

theorem length_flatMap_words (e : FrameEntry) :
    (e.words.flatMap word).length = if e.checksum.isSome then 12 else 8 := by
  cases h : e.checksum <;> simp [words, h]

theorem flatMap_words (e : FrameEntry) : e.words.flatMap word = e.encode := by
  cases h : e.checksum <;> simp [words, encode, h]

/-- The words that were read as an entry are the bytes that it takes up. -/
theorem encode_read {checksums : Bool} {bs : Bytes} (h : width checksums ≤ bs.length) :
    (read checksums bs).encode = bs.take (width checksums) := by
  have hsizes (hlong : 8 ≤ bs.length) :
      word (readWord bs) ++ word (readWord (bs.drop 4)) = bs.take 8 := by
    have hsecond : 4 ≤ (bs.drop 4).length := by
      rw [List.length_drop]
      omega
    rw [word_readWord (by omega), word_readWord hsecond]
    exact List.take_add.symm
  cases checksums with
  | false =>
      have hlong : 8 ≤ bs.length := h
      simp only [encode, read, hsizes hlong]
      exact List.append_nil _
  | true =>
      have hlong : 12 ≤ bs.length := h
      have hthird : 4 ≤ (bs.drop 8).length := by
        rw [List.length_drop]
        omega
      simp only [encode, read, if_true, Option.map_some, Option.getD_some,
        hsizes (by omega), word_readWord hthird]
      exact List.take_add.symm

@[simp] theorem size_readMany (checksums : Bool) (count : Nat) (bs : Bytes)
    (earlier : Array FrameEntry) :
    (readMany checksums count bs earlier).size = earlier.size + count := by
  induction count generalizing bs earlier with
  | zero => rfl
  | succ count ih =>
      rw [readMany, ih, Array.size_push]
      omega

theorem flatMap_encode_readMany {checksums : Bool} {count : Nat} {bs : Bytes}
    (h : count * width checksums ≤ bs.length) (earlier : Array FrameEntry) :
    (readMany checksums count bs earlier).toList.flatMap encode =
      earlier.toList.flatMap encode ++ bs.take (count * width checksums) := by
  induction count generalizing bs earlier with
  | zero => simp [readMany]
  | succ count ih =>
      rw [Nat.succ_mul] at h
      have hrest : count * width checksums ≤ (bs.drop (width checksums)).length := by
        rw [List.length_drop]
        omega
      rw [readMany, ih hrest, Array.toList_push, List.flatMap_append, List.flatMap_singleton,
        encode_read (by omega), List.append_assoc, Nat.succ_mul,
        Nat.add_comm (count * width checksums), List.take_add]

end FrameEntry

namespace SeekTable

/-- The bytes are those of the table: the skippable magic; the number of bytes after the
size, one word; the words of the entries; the number of entries, one word; a byte that
says whether there are checksums; the seekable magic. -/
def WrittenAs (t : SeekTable) (block : Bytes) : Prop :=
  ∃ (size count : UInt32) (flag : UInt8),
    block = word Magic.skippable.word ++ word size ++
      t.entries.toList.flatMap (fun entry => entry.words.flatMap word) ++
      word count ++ [flag] ++ word Magic.seekable.word ∧
    size.toNat = block.length - 8 ∧ count.toNat = t.entries.size ∧
    flag = if t.checksums then 0x80 else 0x00

/-- A table is written in its encoding, provided that the size fits its word. -/
theorem writtenAs_iff {t : SeekTable} {block : Bytes} :
    t.WrittenAs block ↔ block = t.encode ∧ t.encodedSize - headerSize ≤ maxFrameSize := by
  have hword {value : Nat} {w : UInt32} (h : w.toNat = value) : w = UInt32.ofNat value := by
    rw [← h, UInt32.ofNat_toNat]
  have hentries : t.entries.toList.flatMap (fun entry => entry.words.flatMap word) =
      t.entries.toList.flatMap FrameEntry.encode := by
    simp only [FrameEntry.flatMap_words]
  constructor
  · rintro ⟨size, count, flag, hblock, hsize, hcount, hflag⟩
    have hlength : block.length = t.encodedSize := by
      rw [← length_encode, hblock, hentries]
      simp [encode]
    rw [hlength] at hsize
    have hbound := size.toNat_lt
    refine ⟨?_, by simp only [maxFrameSize, headerSize]; omega⟩
    rw [hblock, hentries, hword hcount, hword hsize, hflag]
    rfl
  · rintro ⟨rfl, hfits⟩
    refine ⟨UInt32.ofNat (t.encodedSize - headerSize), UInt32.ofNat t.entries.size, _, ?_, ?_,
      ?_, rfl⟩
    · rw [hentries]
      rfl
    · rw [length_encode]
      exact toNat_ofNat_of_le hfits
    · exact toNat_ofNat_of_le (Nat.le_trans (size_le_encodedSize t) hfits)

theorem WrittenAs.length_eq {t : SeekTable} {block : Bytes} (h : t.WrittenAs block) :
    block.length = t.encodedSize := by
  rw [(writtenAs_iff.mp h).1, length_encode]

/-! ## The reader -/

theorem parseEntries_eq_ok_iff {archive : Bytes} {checksums : Bool} {count : Nat}
    {t : SeekTable} :
    parseEntries archive checksums count = .ok t ↔
      sizeFor checksums count ≤ archive.length ∧
        readWord (archive.drop (archive.length - sizeFor checksums count)) =
          Magic.skippable.word ∧
        (readWord ((archive.drop (archive.length - sizeFor checksums count)).drop 4)).toNat =
          sizeFor checksums count - headerSize ∧
        ofBytes checksums count
          ((archive.drop (archive.length - sizeFor checksums count)).drop headerSize) = t := by
  simp only [parseEntries]
  constructor
  · intro h
    split at h
    · cases h
    · rename_i hlong
      split at h
      · cases h
      · rename_i hmagic
        split at h
        · cases h
        · rename_i hheader
          cases h
          exact ⟨Nat.le_of_not_lt hlong, Decidable.not_not.mp hmagic,
            Decidable.not_not.mp hheader, rfl⟩
  · rintro ⟨hlong, hmagic, hheader, rfl⟩
    rw [if_neg (Nat.not_lt.mpr hlong), if_neg (not_not_intro hmagic),
      if_neg (not_not_intro hheader)]

theorem parse_eq_ok_iff {archive : Bytes} {t : SeekTable} :
    parse archive = .ok t ↔
      headerSize + footerSize ≤ archive.length ∧
        readWord ((archive.drop (archive.length - footerSize)).drop 5) = Magic.seekable.word ∧
        ((archive.drop (archive.length - footerSize)).drop 4).headD 0 &&& reservedMask = 0 ∧
        parseEntries archive
          (((archive.drop (archive.length - footerSize)).drop 4).headD 0 ≠ 0)
          (readWord (archive.drop (archive.length - footerSize))).toNat = .ok t := by
  simp only [parse]
  constructor
  · intro h
    split at h
    · cases h
    · rename_i hlong
      split at h
      · cases h
      · rename_i hmagic
        split at h
        · cases h
        · rename_i hreserved
          exact ⟨Nat.le_of_not_lt hlong, Decidable.not_not.mp hmagic,
            Decidable.not_not.mp hreserved, h⟩
  · rintro ⟨hlong, hmagic, hreserved, hentries⟩
    rw [if_neg (Nat.not_lt.mpr hlong), if_neg (not_not_intro hmagic),
      if_neg (not_not_intro hreserved)]
    exact hentries

/-- Without reserved bits a descriptor says only whether there are checksums. -/
theorem eq_descriptor_of_reserved_eq_zero {flag : UInt8} (h : flag &&& reservedMask = 0) :
    flag = descriptor (decide (flag ≠ 0)) := by
  -- The reserved bits are the low seven, so that only the highest may be set.
  have hlow : flag.toNat % 128 = 0 := by
    have hand := congrArg UInt8.toNat h
    rw [UInt8.toNat_and] at hand
    exact (Nat.and_two_pow_sub_one_eq_mod flag.toNat 7).symm.trans hand
  have hlt := flag.toNat_lt
  have hcases : flag.toNat = 0 ∨ flag.toNat = 128 := by omega
  rcases hcases with hzero | hset
  · have hflag : flag = 0 := UInt8.toNat_inj.mp hzero
    subst hflag
    decide
  · have hflag : flag = 0x80 := UInt8.toNat_inj.mp hset
    subst hflag
    decide

theorem ofBytes_spec {checksums : Bool} {count : Nat} {bs : Bytes}
    (h : count * FrameEntry.width checksums ≤ bs.length) :
    (ofBytes checksums count bs).encodedSize = sizeFor checksums count ∧
      (ofBytes checksums count bs).entries.toList.flatMap FrameEntry.encode =
        bs.take (count * FrameEntry.width checksums) := by
  constructor
  · simp [encodedSize, ofBytes]
  · simp [ofBytes, FrameEntry.flatMap_encode_readMany h]

/-- Nine bytes are a word, a byte and a word. -/
theorem word_byte_word_eq {bs : Bytes} (h : bs.length = footerSize) :
    word (readWord bs) ++ ([(bs.drop 4).headD 0] ++ word (readWord (bs.drop 5))) = bs := by
  have hlong : bs.length = 9 := h
  have hfirst : 4 ≤ bs.length := by omega
  have hlast : (bs.drop 5).length = 4 := by
    rw [List.length_drop]
    omega
  have hmiddle : [(bs.drop 4).headD 0] ++ bs.drop 5 = bs.drop 4 := by
    cases hdrop : bs.drop 4 with
    | nil =>
        rw [List.drop_eq_nil_iff] at hdrop
        omega
    | cons flag rest =>
        rw [show (5 : Nat) = 4 + 1 from rfl, ← List.drop_drop, hdrop]
        rfl
  rw [word_readWord hfirst, word_readWord (Nat.le_of_eq hlast.symm),
    List.take_of_length_le (Nat.le_of_eq hlast), hmiddle, List.take_append_drop]

/-- Bytes that begin and end like a table are the encoding of the entries between. -/
theorem encode_ofBytes {checksums : Bool} {count : Nat} {block : Bytes}
    (hlength : block.length = sizeFor checksums count)
    (hmagic : readWord block = Magic.skippable.word)
    (hheader : (readWord (block.drop 4)).toNat = sizeFor checksums count - headerSize)
    (htrailer : (ofBytes checksums count (block.drop headerSize)).trailer =
      block.drop (headerSize + count * FrameEntry.width checksums)) :
    (ofBytes checksums count (block.drop headerSize)).encode = block := by
  have hlong : 8 + count * FrameEntry.width checksums + 9 = block.length := hlength.symm
  have hinner : count * FrameEntry.width checksums ≤ (block.drop headerSize).length := by
    rw [List.length_drop, headerSize]
    omega
  obtain ⟨hsize, hentries⟩ := ofBytes_spec hinner
  have hfirst : 4 ≤ block.length := by omega
  have hsecond : 4 ≤ (block.drop 4).length := by
    rw [List.length_drop]
    omega
  have hword : UInt32.ofNat (sizeFor checksums count - headerSize) = readWord (block.drop 4) := by
    rw [← hheader, UInt32.ofNat_toNat]
  calc
    (ofBytes checksums count (block.drop headerSize)).encode =
        block.take 4 ++ ((block.drop 4).take 4 ++
          ((block.drop headerSize).take (count * FrameEntry.width checksums) ++
            block.drop (headerSize + count * FrameEntry.width checksums))) := by
      rw [encode_eq, hsize, hentries, htrailer, hword, ← hmagic, word_readWord hfirst,
        word_readWord hsecond]
    _ = block.take 4 ++ ((block.drop 4).take 4 ++ block.drop headerSize) := by
      rw [← List.drop_drop, List.take_append_drop]
    _ = block := by
      rw [show headerSize = 4 + 4 from rfl, ← List.drop_drop, List.take_append_drop,
        List.take_append_drop]

theorem drop_eq_encode_of_parseEntries {archive : Bytes} {checksums : Bool} {count : UInt32}
    {t : SeekTable} (h : parseEntries archive checksums count.toNat = .ok t)
    (htrailer : archive.drop (archive.length - footerSize) =
      word count ++ ([descriptor checksums] ++ word Magic.seekable.word)) :
    t.encodedSize ≤ archive.length ∧ t.encodedSize - headerSize ≤ maxFrameSize ∧
      archive.drop (archive.length - t.encodedSize) = t.encode := by
  obtain ⟨hlong, hskippable, hheader, ht⟩ := parseEntries_eq_ok_iff.mp h
  have hsize : t.encodedSize = sizeFor checksums count.toNat := by
    rw [← ht]
    simp [encodedSize, ofBytes]
  have hlength : (archive.drop (archive.length - sizeFor checksums count.toNat)).length =
      sizeFor checksums count.toNat := by
    rw [List.length_drop]
    omega
  have hend : t.trailer = (archive.drop (archive.length - sizeFor checksums count.toNat)).drop
      (headerSize + count.toNat * FrameEntry.width checksums) := by
    have hplace : archive.length - sizeFor checksums count.toNat +
        (headerSize + count.toNat * FrameEntry.width checksums) =
          archive.length - footerSize := by
      simp only [sizeFor] at hlong ⊢
      omega
    rw [List.drop_drop, hplace, htrailer, trailer, ← ht]
    simp [ofBytes]
  refine ⟨Nat.le_trans (Nat.le_of_eq hsize) hlong, ?_, ?_⟩
  · rw [hsize, ← hheader]
    exact Nat.le_of_lt_succ (UInt32.toNat_lt _)
  · rw [hsize, ← ht]
    rw [← ht] at hend
    exact (encode_ofBytes hlength hskippable hheader hend).symm

/-- What the reader has read as a table is the encoding of that table. -/
theorem drop_eq_encode_of_parse {archive : Bytes} {t : SeekTable}
    (h : parse archive = .ok t) :
    t.encodedSize ≤ archive.length ∧ t.encodedSize - headerSize ≤ maxFrameSize ∧
      archive.drop (archive.length - t.encodedSize) = t.encode := by
  obtain ⟨hlong, hseekable, hreserved, hparse⟩ := parse_eq_ok_iff.mp h
  have hlength : (archive.drop (archive.length - footerSize)).length = footerSize := by
    rw [List.length_drop]
    omega
  apply drop_eq_encode_of_parseEntries hparse
  rw [← eq_descriptor_of_reserved_eq_zero hreserved, ← hseekable]
  exact (word_byte_word_eq hlength).symm

/-- The reader accepts exactly the archives that end in a written table. -/
theorem parse_eq_ok_iff_writtenAs {archive : Bytes} {t : SeekTable} :
    parse archive = .ok t ↔ ∃ block, block <:+ archive ∧ t.WrittenAs block := by
  constructor
  · intro h
    obtain ⟨-, hfits, hdrop⟩ := drop_eq_encode_of_parse h
    refine ⟨t.encode, ?_, writtenAs_iff.mpr ⟨rfl, hfits⟩⟩
    rw [← hdrop]
    exact List.drop_suffix _ archive
  · rintro ⟨block, ⟨body, rfl⟩, hwritten⟩
    obtain ⟨rfl, hfits⟩ := writtenAs_iff.mp hwritten
    exact parse_append_encode_of_le t hfits body

end SeekTable
end SeekableArchive
