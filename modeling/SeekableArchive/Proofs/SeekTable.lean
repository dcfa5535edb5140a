import SeekableArchive.FrameLog
import SeekableArchive.SeekTable.Parse

/-!
# Reading back a written seek table

A table that a frame log may hold is read back from the end of any byte string that
ends in its encoding.  The reader goes by the trailer, so the bytes in front of the
table, whatever they look like, are never consulted.
-/

namespace SeekableArchive

open LittleEndian

theorem drop_length_sub (front back : Bytes) {size : Nat} (h : back.length = size) :
    (front ++ back).drop ((front ++ back).length - size) = back := by
  rw [List.length_append, h, Nat.add_sub_cancel, List.drop_left]

theorem drop_word_append (w : UInt32) (rest : Bytes) : (word w ++ rest).drop 4 = rest :=
  List.drop_left' (length_word w)

namespace FrameEntry

theorem read_encode_append {checksums : Bool} {e : FrameEntry}
    (h : e.checksum.isSome = checksums) (rest : Bytes) :
    read checksums (e.encode ++ rest) = e := by
  obtain ⟨compressed, uncompressed, checksum⟩ := e
  cases checksum with
  | none =>
      subst h
      simp [read, encode, List.append_assoc]
  | some recorded =>
      subst h
      have hthird : (word compressed ++ (word uncompressed ++ (word recorded ++ rest))).drop 8 =
          word recorded ++ rest := by
        rw [show (8 : Nat) = 4 + 4 from rfl, ← List.drop_drop, drop_word_append,
          drop_word_append]
      simp [read, encode, List.append_assoc, hthird]

theorem toList_readMany {checksums : Bool} {entries : List FrameEntry}
    (h : ∀ e ∈ entries, e.checksum.isSome = checksums) (rest : Bytes)
    (earlier : Array FrameEntry) :
    (readMany checksums entries.length (entries.flatMap encode ++ rest) earlier).toList =
      earlier.toList ++ entries := by
  induction entries generalizing earlier with
  | nil => simp [readMany]
  | cons e entries ih =>
      have he := h e (by simp)
      have hwidth : e.encode.length = width checksums := by rw [length_encode, he]
      simp only [List.flatMap_cons, List.append_assoc, List.length_cons, readMany]
      rw [read_encode_append he, List.drop_left' hwidth, ih fun e' he' => h e' (by simp [he'])]
      simp

end FrameEntry

namespace SeekTable

theorem toNat_ofNat_of_le {n : Nat} (h : n ≤ maxFrameSize) : (UInt32.ofNat n).toNat = n :=
  UInt32.toNat_ofNat_of_lt' (by simp only [maxFrameSize, UInt32.size] at *; omega)

/-- The count, the descriptor and the magic after the entries. -/
def trailer (t : SeekTable) : Bytes :=
  word (UInt32.ofNat t.entries.size) ++ ([descriptor t.checksums] ++ word Magic.seekable.word)

theorem length_trailer (t : SeekTable) : t.trailer.length = footerSize := by
  simp [trailer, footerSize]

theorem encode_eq (t : SeekTable) :
    t.encode = word Magic.skippable.word ++
      (word (UInt32.ofNat (t.encodedSize - headerSize)) ++
        (t.entries.toList.flatMap FrameEntry.encode ++ t.trailer)) := by
  simp [encode, trailer, List.append_assoc]

theorem headerSize_le_encodedSize (t : SeekTable) : headerSize ≤ t.encodedSize := by
  rw [encodedSize, sizeFor, Nat.add_assoc]
  exact Nat.le_add_right _ _

theorem encodedSize_pos (t : SeekTable) : 0 < t.encodedSize :=
  Nat.lt_of_lt_of_le (by decide) t.headerSize_le_encodedSize

theorem encodedSize_bound (t : SeekTable) (h : t.entries.size ≤ maxFrames) :
    t.encodedSize ≤ maxFrameSize := by
  have hwidth : FrameEntry.width t.checksums ≤ 12 := by
    cases t.checksums <;> decide
  have hentries : t.entries.size * FrameEntry.width t.checksums ≤ maxFrames * 12 :=
    Nat.mul_le_mul h hwidth
  simp only [encodedSize, sizeFor, headerSize, footerSize, maxFrames, maxFrameSize] at *
  omega

/-- The size in front of the entries is that of everything behind it. -/
theorem exists_encode_eq {t : SeekTable} (hfits : t.encodedSize - headerSize ≤ maxFrameSize) :
    ∃ (size : UInt32) (payload : Bytes),
      t.encode = word Magic.skippable.word ++ (word size ++ payload) ∧
        payload.length = size.toNat := by
  refine ⟨_, _, t.encode_eq, ?_⟩
  have hlength := t.length_encode
  rw [encode_eq] at hlength
  rw [toNat_ofNat_of_le hfits]
  simp only [List.length_append, length_word] at hlength
  simp only [List.length_append, headerSize]
  omega

theorem descriptor_and_reservedMask (checksums : Bool) :
    descriptor checksums &&& reservedMask = 0 := by
  cases checksums <;> decide

theorem decide_descriptor_ne_zero (checksums : Bool) :
    decide (descriptor checksums ≠ 0) = checksums := by
  cases checksums <;> decide

theorem ofBytes_encode (t : SeekTable) (rest : Bytes) :
    ofBytes t.checksums t.entries.size (t.entries.toList.flatMap FrameEntry.encode ++ rest) =
      t := by
  obtain ⟨checksums, entries, uniform⟩ := t
  have huniform : ∀ e ∈ entries.toList, e.checksum.isSome = checksums :=
    fun e he => uniform e (by simpa using he)
  have hread := FrameEntry.toList_readMany huniform rest #[]
  have hentries : FrameEntry.readMany checksums entries.size
      (entries.toList.flatMap FrameEntry.encode ++ rest) #[] = entries := by
    apply Array.toList_inj.mp
    simpa using hread
  simp only [ofBytes, hentries]

theorem size_le_encodedSize (t : SeekTable) : t.entries.size ≤ t.encodedSize - headerSize := by
  have hwidth : 1 ≤ FrameEntry.width t.checksums := by
    cases t.checksums <;> decide
  have hentries : t.entries.size * 1 ≤ t.entries.size * FrameEntry.width t.checksums :=
    Nat.mul_le_mul_left _ hwidth
  simp only [encodedSize, sizeFor, headerSize, footerSize]
  omega

/-- A size that fits its word is not cut off in it. -/
theorem readWord_size (t : SeekTable) (h : t.encodedSize - headerSize ≤ maxFrameSize) :
    (readWord (t.encode.drop 4)).toNat = t.encodedSize - headerSize := by
  rw [encode_eq, drop_word_append, readWord_word_append, toNat_ofNat_of_le h]

theorem readWord_trailer (t : SeekTable) (h : t.encodedSize - headerSize ≤ maxFrameSize) :
    (readWord t.trailer).toNat = t.entries.size := by
  rw [trailer, readWord_word_append, toNat_ofNat_of_le (Nat.le_trans (size_le_encodedSize t) h)]

theorem drop_append_encode (t : SeekTable) (body : Bytes) :
    (body ++ t.encode).drop ((body ++ t.encode).length - footerSize) = t.trailer := by
  rw [encode_eq]
  simp only [← List.append_assoc]
  exact drop_length_sub _ t.trailer (length_trailer t)

theorem parseEntries_append_encode (t : SeekTable)
    (h : t.encodedSize - headerSize ≤ maxFrameSize) (body : Bytes) :
    parseEntries (body ++ t.encode) t.checksums t.entries.size = .ok t := by
  have hsize : sizeFor t.checksums t.entries.size = t.encodedSize := rfl
  have hlong : ¬ (body ++ t.encode).length < t.encodedSize := by
    rw [List.length_append, length_encode]
    omega
  have htable := drop_length_sub body t.encode (length_encode t)
  have hentries : t.encode.drop headerSize =
      t.entries.toList.flatMap FrameEntry.encode ++ t.trailer := by
    rw [encode_eq, show headerSize = 4 + 4 from rfl, ← List.drop_drop, drop_word_append,
      drop_word_append]
  have hmagic : readWord t.encode = Magic.skippable.word := by
    rw [encode_eq, readWord_word_append]
  simp only [parseEntries, hsize, if_neg hlong, htable, hmagic, readWord_size t h, hentries,
    ofBytes_encode, ne_eq, not_true_eq_false, if_false]

/-- A written table whose size fits its word is read back, whatever comes before it. -/
theorem parse_append_encode_of_le (t : SeekTable)
    (h : t.encodedSize - headerSize ≤ maxFrameSize) (body : Bytes) :
    parse (body ++ t.encode) = .ok t := by
  have hlong : ¬ (body ++ t.encode).length < headerSize + footerSize := by
    rw [List.length_append, length_encode]
    simp only [encodedSize, sizeFor]
    omega
  have hdescriptor : t.trailer.drop 4 = descriptor t.checksums :: word Magic.seekable.word := by
    rw [trailer, drop_word_append]
    rfl
  have hmagic : readWord (t.trailer.drop 5) = Magic.seekable.word := by
    rw [show (5 : Nat) = 4 + 1 from rfl, ← List.drop_drop, hdescriptor, List.drop_one,
      List.tail_cons, readWord_word]
  simp only [parse, if_neg hlong, drop_append_encode, hmagic, hdescriptor, readWord_trailer t h,
    List.headD_cons, descriptor_and_reservedMask, decide_descriptor_ne_zero, ne_eq,
    not_true_eq_false, if_false]
  exact parseEntries_append_encode t h body

/-- A table that a log may hold is read back, whatever comes before it. -/
theorem parse_append_encode (t : SeekTable) (h : t.entries.size ≤ maxFrames) (body : Bytes) :
    parse (body ++ t.encode) = .ok t :=
  parse_append_encode_of_le t (Nat.le_trans (Nat.sub_le _ _) (encodedSize_bound t h)) body

end SeekTable

end SeekableArchive
