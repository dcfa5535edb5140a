import Mathlib.Logic.Function.Basic
import SeekableArchive.Crew

/-!
# Records that are read back

What is written as a record is read as one, whatever is behind it.  So the check finds in
the writes of a schedule exactly these, and since each thread's own come in order and none
is left out, it finds nothing wrong.
-/

namespace SeekableArchive

open LittleEndian

/-- What is at the front of a record. -/
structure RecordHeader where
  thread : UInt32
  sequence : UInt32
  bodyLength : UInt32
deriving DecidableEq

namespace RecordHeader

def words (header : RecordHeader) : Bytes :=
  word header.thread ++ word header.sequence ++ word header.bodyLength

/-- The whole record. -/
def bytes (header : RecordHeader) : Bytes :=
  record header.thread header.sequence header.bodyLength.toNat

theorem length_words (header : RecordHeader) : header.words.length = recordHeaderSize := by
  simp [words, recordHeaderSize]

theorem bytes_eq (header : RecordHeader) :
    header.bytes =
      header.words ++ List.replicate header.bodyLength.toNat header.thread.toUInt8 := by
  rw [bytes, record, words, UInt32.ofNat_toNat]

end RecordHeader

theorem readRecord?_words (header : RecordHeader) {body : Bytes}
    (hbody : body.length = header.bodyLength.toNat) (rest : Bytes) :
    readRecord? (header.words ++ body ++ rest) =
      some ⟨header.thread, header.sequence, body, rest⟩ := by
  have hsize := header.length_words
  have hthread : readWord header.words = header.thread := by
    rw [RecordHeader.words, List.append_assoc, readWord_word_append]
  have hsequence : readWord (header.words.drop 4) = header.sequence := by
    rw [RecordHeader.words, List.append_assoc, List.drop_left' (length_word header.thread),
      readWord_word_append]
  have hlength : readWord (header.words.drop 8) = header.bodyLength := by
    rw [RecordHeader.words, List.drop_left' (by simp), readWord_word]
  rw [List.append_assoc]
  simp only [readRecord?, List.take_left' hsize, List.drop_left' hsize, hthread, hsequence,
    hlength, ← hbody, List.take_left, List.drop_left]
  rw [if_neg (by omega)]

theorem readRecord?_bytes (header : RecordHeader) (rest : Bytes) :
    readRecord? (header.bytes ++ rest) =
      some ⟨header.thread, header.sequence,
        List.replicate header.bodyLength.toNat header.thread.toUInt8, rest⟩ := by
  rw [header.bytes_eq, readRecord?_words header (List.length_replicate ..)]

theorem readRecord?_append {thread sequence : UInt32} {bodyLength : Nat}
    (hbody : bodyLength < UInt32.size) (rest : Bytes) :
    readRecord? (record thread sequence bodyLength ++ rest) =
      some ⟨thread, sequence, List.replicate bodyLength thread.toUInt8, rest⟩ := by
  have hread := readRecord?_bytes ⟨thread, sequence, UInt32.ofNat bodyLength⟩ rest
  simpa only [RecordHeader.bytes, UInt32.toNat_ofNat_of_lt' hbody] using hread

theorem record_append_ne_nil (thread sequence : UInt32) (bodyLength : Nat) (rest : Bytes) :
    ¬ record thread sequence bodyLength ++ rest = [] := by
  apply List.ne_nil_of_length_pos
  simp only [record, List.length_append, length_word]
  omega

/-- The record that is due is taken, and the next one of its thread becomes due. -/
theorem scanRecords_record {thread sequence : UInt32} {bodyLength : Nat}
    (hbody : bodyLength < UInt32.size) {next : Array Nat}
    (hdue : next[thread.toNat]? = some sequence.toNat) (offset : Nat) (rest : Bytes) :
    scanRecords offset (record thread sequence bodyLength ++ rest) next =
      scanRecords (offset + recordHeaderSize + bodyLength) rest
        (next.setIfInBounds thread.toNat (sequence.toNat + 1)) := by
  have hread : readRecord? (record thread sequence bodyLength ++ rest) = some _ :=
    readRecord?_append hbody rest
  rw [scanRecords, if_neg (record_append_ne_nil thread sequence bodyLength rest)]
  split
  · rename_i hnone
    rw [hread] at hnone
    cases hnone
  · rename_i reading hsome
    rw [hread] at hsome
    cases hsome
    simp [hdue]

theorem missingRecords_replicate (expected thread count : Nat) :
    missingRecords expected thread (List.replicate count expected) = .ok () := by
  induction count generalizing thread with
  | zero => rfl
  | succ count ih => simp [List.replicate_succ, missingRecords, ih]

namespace Workload

variable {workload : Workload} {next : Nat → Nat} {schedule : List Nat}

theorem bodyLength_lt (hbody : workload.maxBody < UInt32.size) (thread sequence : Nat) :
    workload.bodyLength thread sequence < UInt32.size := by
  have hmod := Nat.mod_lt (sequence * 7 + thread) (Nat.lt_of_lt_of_le Nat.one_pos
    (Nat.le_max_right workload.maxBody 1))
  simp only [bodyLength, UInt32.size] at *
  omega

/-- The check follows a schedule; `due` is what it expects next of each thread. -/
theorem scanRecords_calls (hthreads : workload.threads < UInt32.size)
    (hwrites : workload.writesPerThread < UInt32.size) (hbody : workload.maxBody < UInt32.size)
    (h : workload.Interleaves next schedule) {due : Array Nat}
    (hsize : due.size = workload.threads)
    (hdue : ∀ thread < workload.threads, due[thread]? = some (next thread)) (offset : Nat) :
    scanRecords offset (workload.calls next schedule).flatten due =
      .ok (Array.replicate workload.threads workload.writesPerThread) := by
  induction h generalizing due offset with
  | @done next hdone =>
      have hall : due = Array.replicate workload.threads workload.writesPerThread := by
        apply Array.ext_getElem?
        intro thread
        by_cases hthread : thread < workload.threads
        · rw [hdue thread hthread, hdone thread hthread, Array.getElem?_replicate, if_pos hthread]
        · rw [Array.getElem?_eq_none (by omega), Array.getElem?_replicate, if_neg hthread]
      rw [scanRecords, calls, List.flatten_nil, if_pos rfl, hall]
  | @turn next thread schedule hthread hleft _ ih =>
      have hword : (UInt32.ofNat thread).toNat = thread :=
        UInt32.toNat_ofNat_of_lt' (Nat.lt_trans hthread hthreads)
      have hnumber : (UInt32.ofNat (next thread)).toNat = next thread :=
        UInt32.toNat_ofNat_of_lt' (Nat.lt_trans hleft hwrites)
      rw [calls, List.flatten_cons, payload,
        scanRecords_record (bodyLength_lt hbody thread (next thread))
          (by rw [hword, hnumber, hdue thread hthread]), hword, hnumber]
      apply ih
      · rw [Array.size_setIfInBounds, hsize]
      · intro other hother
        by_cases hsame : other = thread
        · subst hsame
          rw [Function.update_self, Array.getElem?_setIfInBounds_self_of_lt (by omega)]
        · rw [Function.update_of_ne hsame, Array.getElem?_setIfInBounds_ne (Ne.symm hsame),
            hdue other hother]

/-- In whatever order the threads get the lock, their records pass the check. -/
theorem checkRecords_calls (hthreads : workload.threads < UInt32.size)
    (hwrites : workload.writesPerThread < UInt32.size) (hbody : workload.maxBody < UInt32.size)
    (h : workload.Interleaves (fun _ => 0) schedule) :
    checkRecords (workload.calls (fun _ => 0) schedule).flatten workload = .ok () := by
  have hexpected : workload.writesPerThread.toUInt32.toNat = workload.writesPerThread :=
    UInt32.toNat_ofNat_of_lt' hwrites
  have hscan : scanRecords 0 (workload.calls (fun _ => 0) schedule).flatten
      (Array.replicate workload.threads 0) = .ok _ :=
    scanRecords_calls hthreads hwrites hbody h Array.size_replicate
      (fun thread hthread => by rw [Array.getElem?_replicate, if_pos hthread]) 0
  rw [checkRecords, hscan]
  simp only [hexpected, Array.toList_replicate]
  exact missingRecords_replicate _ _ _

end Workload
end SeekableArchive
