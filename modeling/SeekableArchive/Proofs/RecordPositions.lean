import SeekableArchive.Proofs.CheckedReads
import SeekableArchive.Proofs.RecordStreams
import SeekableArchive.Reservation

/-!
# Checking records by position

The check of `Records` takes the stream apart from the front.  Here it stays where it is and
the check keeps the place of the next record and one counter of 32 bits for each thread.  On
a stream that fits into memory it never reads past the end, and as long as the stream is too
short for any thread to have more records than a counter counts, both checks give the same
answer.
-/

namespace SeekableArchive

open LittleEndian

theorem readWord_drop_take (start size : Nat) (h : start + 4 ≤ size) (bs : Bytes) :
    readWord ((bs.take size).drop start) = readWord (bs.drop start) := by
  rw [readWord, readWord, List.drop_take, List.take_take, Nat.min_eq_left (by omega)]

/-- The length of the body that a record announces. -/
def announced (bs : Bytes) : Nat :=
  (readWord (bs.drop 8)).toNat

theorem readRecord?_eq_none {bs : Bytes}
    (h : bs.length < recordHeaderSize ∨ bs.length < recordHeaderSize + announced bs) :
    readRecord? bs = none := by
  have hannounced := readWord_drop_take 8 recordHeaderSize (by decide) bs
  simp only [readRecord?, hannounced, List.length_take, List.length_drop]
  rw [if_pos]
  simp only [announced] at h
  omega

theorem readRecord?_eq_some {bs : Bytes} (h : recordHeaderSize + announced bs ≤ bs.length) :
    readRecord? bs =
      some {
        thread := readWord bs
        sequence := readWord (bs.drop 4)
        body := (bs.drop recordHeaderSize).take (announced bs)
        rest := bs.drop (recordHeaderSize + announced bs) } := by
  have hfirst : readWord (bs.take recordHeaderSize) = readWord bs :=
    readWord_drop_take 0 recordHeaderSize (by decide) bs
  have hsecond := readWord_drop_take 4 recordHeaderSize (by decide) bs
  have hthird := readWord_drop_take 8 recordHeaderSize (by decide) bs
  simp only [readRecord?, hfirst, hsecond, hthird, List.length_take, List.length_drop,
    List.drop_drop]
  rw [if_neg, announced]
  simp only [announced] at h
  omega

namespace Checked

/-- One round of the check, for the record at `offset`: where the next one is and what is due
of each thread then. -/
def examineAt (stream : Bytes) (offset : Nat) (next : Array UInt32) :
    Except Trap (Except InterleavingFault (Nat × Array UInt32)) := do
  let left ← sub stream.length offset
  if left < recordHeaderSize then .ok (.error (.truncated offset))
  else do
    let thread ← wordAt stream offset
    let sequence ← wordAt stream (← add offset 4)
    let length ← wordAt stream (← add offset 8)
    let start ← add offset recordHeaderSize
    let stop ← add start length.toNat
    if stream.length < stop then .ok (.error (.truncated offset))
    else match next[thread.toNat]? with
      | none => .ok (.error (.unknownThread thread))
      | some due =>
          if sequence ≠ due then .ok (.error (.outOfOrder thread due.toNat sequence.toNat))
          else do
            let body ← slice stream start stop
            if body.any (· ≠ thread.toUInt8) then .ok (.error (.torn offset))
            else .ok (.ok (stop, next.setIfInBounds thread.toNat (due + 1)))

/-- What a round makes of a record that has been read. -/
def examine (offset : Nat) (next : Array UInt32) :
    Option Reading → Except InterleavingFault (Nat × Array UInt32)
  | none => .error (.truncated offset)
  | some reading =>
      match next[reading.thread.toNat]? with
      | none => .error (.unknownThread reading.thread)
      | some due =>
          if reading.sequence ≠ due then
            .error (.outOfOrder reading.thread due.toNat reading.sequence.toNat)
          else if reading.body.any (· ≠ reading.thread.toUInt8) then .error (.torn offset)
          else .ok (offset + recordHeaderSize + reading.body.length,
            next.setIfInBounds reading.thread.toNat (due + 1))

variable {stream : Bytes} {offset : Nat} {next : Array UInt32}

/-- Every byte that a round looks at is there. -/
theorem examineAt_eq_ok (next : Array UInt32) (hlength : stream.length ≤ Reservation.maxCapacity)
    (hoffset : offset ≤ stream.length) :
    examineAt stream offset next =
      .ok (examine offset next (readRecord? (stream.drop offset))) := by
  have hsize : recordHeaderSize = 12 := rfl
  have hlimit : stream.length + UInt32.size + recordHeaderSize < limit := by
    simp only [Reservation.maxCapacity, limit, UInt32.size] at *
    omega
  have hannounced : announced (stream.drop offset) < UInt32.size :=
    (readWord ((stream.drop offset).drop 8)).toNat_lt
  rw [examineAt, sub_eq_ok hoffset, ok_bind]
  by_cases hheader : stream.length - offset < recordHeaderSize
  · rw [if_pos hheader, readRecord?_eq_none (.inl (by rwa [List.length_drop])), examine]
  · have hplace : offset + recordHeaderSize ≤ stream.length := by omega
    have hthread := wordAt_eq_ok stream offset
      (by omega) (by omega)
    have hsequence := wordAt_eq_ok stream (offset + 4)
      (by omega) (by omega)
    have hbody := wordAt_eq_ok stream (offset + 8)
      (by omega) (by omega)
    rw [← List.drop_drop] at hsequence hbody
    simp only [if_neg hheader, hthread, add_eq_ok (show offset + 4 < limit by omega), hsequence,
      add_eq_ok (show offset + 8 < limit by omega), hbody, ok_bind,
      add_eq_ok (show offset + recordHeaderSize < limit by omega)]
    change (add _ (announced (stream.drop offset)) >>= _) = _
    rw [add_eq_ok (by omega), ok_bind]
    by_cases hend : stream.length < offset + recordHeaderSize + announced (stream.drop offset)
    · rw [if_pos hend, readRecord?_eq_none (.inr (by rw [List.length_drop]; omega)), examine]
    · have hslice := slice_add_eq_ok (Nat.not_lt.mp hend)
      rw [← List.drop_drop] at hslice
      have htaken : (((stream.drop offset).drop recordHeaderSize).take
          (announced (stream.drop offset))).length = announced (stream.drop offset) := by
        simp only [List.length_take, List.length_drop]
        omega
      rw [if_neg hend, readRecord?_eq_some (by rw [List.length_drop]; omega), examine, htaken]
      simp only [hslice, ok_bind]
      cases next[(readWord (stream.drop offset)).toNat]? with
      | none => rfl
      | some due =>
          by_cases hdue : readWord ((stream.drop offset).drop 4) ≠ due
          · simp only [if_pos hdue]
          · simp only [if_neg hdue]
            split <;> rfl

/-- A round that finds nothing wrong ends further on, and within the stream. -/
theorem lt_of_examineAt {stop : Nat} {due : Array UInt32}
    (h : examineAt stream offset next = .ok (.ok (stop, due))) :
    offset < stop ∧ stop ≤ stream.length := by
  obtain ⟨left, -, h⟩ := exists_of_bind_eq_ok h
  split at h
  · cases h
  · obtain ⟨thread, -, h⟩ := exists_of_bind_eq_ok h
    obtain ⟨_, -, h⟩ := exists_of_bind_eq_ok h
    obtain ⟨sequence, -, h⟩ := exists_of_bind_eq_ok h
    obtain ⟨_, -, h⟩ := exists_of_bind_eq_ok h
    obtain ⟨length, -, h⟩ := exists_of_bind_eq_ok h
    obtain ⟨start, hstart, h⟩ := exists_of_bind_eq_ok h
    obtain ⟨stop', hstop, h⟩ := exists_of_bind_eq_ok h
    split at h
    · cases h
    · split at h
      · cases h
      · split at h
        · cases h
        · obtain ⟨body, -, h⟩ := exists_of_bind_eq_ok h
          split at h
          · cases h
          · cases h
            have hsize : recordHeaderSize = 12 := rfl
            have := eq_of_add_eq_ok hstart
            have := eq_of_add_eq_ok hstop
            omega

/-- Reads records from `offset` on up to the end of the stream. -/
def scanAt (stream : Bytes) (offset : Nat) (next : Array UInt32) :
    Except Trap (Except InterleavingFault (Array UInt32)) :=
  if stream.length ≤ offset then .ok (.ok next)
  else match hround : examineAt stream offset next with
    | .error trap => .error trap
    | .ok (.error fault) => .ok (.error fault)
    | .ok (.ok (stop, due)) =>
        have := lt_of_examineAt hround
        scanAt stream stop due
termination_by stream.length - offset

/-- The check, with counters of 32 bits that begin again after the last number. -/
def checkRecordsAt (stream : Bytes) (workload : Workload) :
    Except Trap (Except InterleavingFault Unit) := do
  match ← scanAt stream 0 (Array.replicate workload.threads 0) with
  | .error fault => return .error fault
  | .ok next =>
      return missingRecords workload.writesPerThread.toUInt32.toNat 0
        (next.map UInt32.toNat).toList

/-! ## No read is out of bounds -/

/-- A round that finds nothing wrong, on a stream that fits into memory. -/
theorem scanAt_cases (next : Array UInt32) (hlength : stream.length ≤ Reservation.maxCapacity)
    (hoffset : offset < stream.length) :
    (∃ fault, examine offset next (readRecord? (stream.drop offset)) = .error fault ∧
      scanAt stream offset next = .ok (.error fault)) ∨
    ∃ stop due, examine offset next (readRecord? (stream.drop offset)) = .ok (stop, due) ∧
      offset < stop ∧ stop ≤ stream.length ∧
      scanAt stream offset next = scanAt stream stop due := by
  have hround := examineAt_eq_ok next hlength (Nat.le_of_lt hoffset)
  rw [scanAt, if_neg (by omega)]
  split
  · rename_i trap htrap
    rw [hround] at htrap
    cases htrap
  · rename_i fault hfault
    rw [hround] at hfault
    exact .inl ⟨fault, Except.ok.inj hfault, rfl⟩
  · rename_i stop due hstop
    obtain ⟨hlt, hle⟩ := lt_of_examineAt hstop
    rw [hround] at hstop
    exact .inr ⟨stop, due, Except.ok.inj hstop, hlt, hle, rfl⟩

theorem scanAt_eq_ok (offset : Nat) (next : Array UInt32)
    (hlength : stream.length ≤ Reservation.maxCapacity) :
    ∃ answer, scanAt stream offset next = .ok answer := by
  induction hleft : stream.length - offset using Nat.strongRecOn generalizing offset next with
  | ind left ih =>
      by_cases hend : stream.length ≤ offset
      · exact ⟨.ok next, by rw [scanAt, if_pos hend]⟩
      · obtain ⟨fault, -, hscan⟩ | ⟨stop, due, -, hlt, hle, hscan⟩ :=
          scanAt_cases next hlength (Nat.lt_of_not_le hend)
        · exact ⟨.error fault, hscan⟩
        · rw [hscan]
          exact ih _ (by omega) _ _ rfl

theorem checkRecordsAt_eq_ok (hlength : stream.length ≤ Reservation.maxCapacity)
    (workload : Workload) : ∃ answer, checkRecordsAt stream workload = .ok answer := by
  obtain ⟨answer, hscan⟩ :=
    scanAt_eq_ok 0 (Array.replicate workload.threads 0) hlength
  rw [checkRecordsAt, hscan, ok_bind]
  cases answer <;> exact ⟨_, rfl⟩

/-! ## The counters do not begin again -/

/-- The streams in which no thread can have more records than a counter counts. -/
def countable : Nat := recordHeaderSize * UInt32.size

theorem rest_eq_drop {reading : Reading} (h : readRecord? stream = some reading) :
    reading.rest = stream.drop (recordHeaderSize + reading.body.length) ∧
      recordHeaderSize + reading.body.length ≤ stream.length := by
  obtain ⟨header, -, -, -, hstream⟩ := eq_of_readRecord? h
  have hfront : (header.words ++ reading.body).length =
      recordHeaderSize + reading.body.length := by
    rw [List.length_append, header.length_words]
  constructor
  · rw [hstream, List.drop_left' hfront]
  · rw [hstream, List.length_append, hfront]
    omega

/-- A round is one of the check that takes the stream apart, if the number that is due can
still be counted. -/
theorem scanRecords_eq_examine (hstream : stream ≠ [])
    (hcount : ∀ (reading : Reading) (due : UInt32), readRecord? stream = some reading →
      next[reading.thread.toNat]? = some due → due.toNat + 1 < UInt32.size) :
    scanRecords offset stream (next.map UInt32.toNat) =
      match examine offset next (readRecord? stream) with
      | .error fault => .error fault
      | .ok (stop, due) =>
          scanRecords stop (stream.drop (stop - offset)) (due.map UInt32.toNat) := by
  rw [scanRecords, if_neg hstream]
  split
  · rename_i hread
    rw [hread, examine]
  · rename_i reading hread
    simp only [hread, examine, Array.getElem?_map]
    cases hdue : next[reading.thread.toNat]? with
    | none => rfl
    | some due =>
        simp only [Option.map_some, ne_eq, UInt32.toNat_inj]
        by_cases hsequence : reading.sequence = due
        · simp only [hsequence, not_true_eq_false, if_false]
          split
          · rfl
          · have hnext : (due + 1).toNat = due.toNat + 1 := by
              rw [UInt32.toNat_add, UInt32.toNat_one,
                Nat.mod_eq_of_lt (hcount reading due hread hdue)]
            have hskip : offset + recordHeaderSize + reading.body.length - offset =
                recordHeaderSize + reading.body.length := by omega
            simp only [Array.map_setIfInBounds, hnext, hskip, ← (rest_eq_drop hread).1]
        · simp only [hsequence, not_false_eq_true, if_true]

/-- A counter is at most a record ahead of what it was. -/
theorem examine_eq_ok {stop : Nat} {due : Array UInt32}
    (h : examine offset next (readRecord? stream) = .ok (stop, due)) :
    offset + recordHeaderSize ≤ stop ∧ ∀ (thread : Nat) (number : UInt32),
      due[thread]? = some number →
        ∃ before : UInt32, next[thread]? = some before ∧ number.toNat ≤ before.toNat + 1 := by
  cases hread : readRecord? stream with
  | none =>
      rw [hread, examine] at h
      cases h
  | some reading =>
      simp only [hread, examine] at h
      split at h
      · cases h
      · rename_i before hbefore
        split at h
        · cases h
        · split at h
          · cases h
          · cases h
            refine ⟨by omega, fun thread number hnumber => ?_⟩
            by_cases hown : reading.thread.toNat = thread
            · subst hown
              have hlt := (Array.getElem?_eq_some_iff.mp hbefore).1
              rw [Array.getElem?_setIfInBounds_self_of_lt hlt] at hnumber
              cases hnumber
              refine ⟨before, hbefore, ?_⟩
              rw [UInt32.toNat_add, UInt32.toNat_one]
              exact Nat.mod_le _ _
            · rw [Array.getElem?_setIfInBounds_ne hown] at hnumber
              exact ⟨number, hnumber, by omega⟩

/-- As every record takes up its header at least, the place in the stream bounds every
counter. -/
theorem scanAt_eq_scanRecords (offset : Nat) (next : Array UInt32)
    (hlength : stream.length < countable)
    (hoffset : offset ≤ stream.length)
    (hcount : ∀ (thread : Nat) (due : UInt32), next[thread]? = some due →
      recordHeaderSize * due.toNat ≤ offset) :
    ∃ answer, scanAt stream offset next = .ok answer ∧
      scanRecords offset (stream.drop offset) (next.map UInt32.toNat) =
        answer.map (Array.map UInt32.toNat) := by
  have hsize : recordHeaderSize = 12 := rfl
  have hcountable : countable = 12 * UInt32.size := rfl
  have hmemory : stream.length ≤ Reservation.maxCapacity :=
    Nat.le_trans (Nat.le_of_lt hlength) (by decide)
  induction hleft : stream.length - offset using Nat.strongRecOn generalizing offset next with
  | ind left ih =>
      by_cases hend : stream.length ≤ offset
      · have hnil : stream.drop offset = [] := List.drop_eq_nil_of_le hend
        exact ⟨.ok next, by rw [scanAt, if_pos hend], by rw [hnil, scanRecords, if_pos rfl]; rfl⟩
      · have hround : scanRecords offset (stream.drop offset) (next.map UInt32.toNat) = _ :=
          scanRecords_eq_examine (by simpa using Nat.lt_of_not_le hend) (by
            intro reading due hread hdue
            have hwhole := (rest_eq_drop hread).2
            have hbound := hcount _ due hdue
            rw [List.length_drop] at hwhole
            rw [hsize] at hbound
            omega)
        obtain ⟨fault, hfault, hscan⟩ | ⟨stop, due, hstop, hlt, hle, hscan⟩ :=
          scanAt_cases next hmemory (Nat.lt_of_not_le hend)
        · rw [hfault] at hround
          exact ⟨.error fault, hscan, hround⟩
        · obtain ⟨hheader, hahead⟩ := examine_eq_ok hstop
          obtain ⟨answer, hanswer, hrest⟩ := ih _ (by omega) _ _ hle (by
            intro thread number hnumber
            obtain ⟨before, hbefore, hone⟩ := hahead thread number hnumber
            have hbound := hcount thread before hbefore
            rw [hsize] at hbound ⊢
            omega) rfl
          refine ⟨answer, hscan.trans hanswer, ?_⟩
          rw [hround, hstop]
          simp only [List.drop_drop]
          rw [Nat.add_sub_of_le (Nat.le_of_lt hlt), hrest]

theorem checkRecordsAt_eq (hlength : stream.length < countable) (workload : Workload) :
    checkRecordsAt stream workload = .ok (checkRecords stream workload) := by
  obtain ⟨answer, hscan, hrecords⟩ :=
    scanAt_eq_scanRecords 0 (Array.replicate workload.threads 0) hlength
      (Nat.zero_le _) (by
        intro thread due hdue
        rw [Array.getElem?_replicate] at hdue
        split at hdue
        · cases hdue
          simp
        · cases hdue)
  rw [List.drop_zero, Array.map_replicate] at hrecords
  rw [checkRecordsAt, hscan, ok_bind, checkRecords]
  cases answer with
  | error fault =>
      rw [show scanRecords 0 stream (Array.replicate workload.threads 0) = _ from hrecords]
      rfl
  | ok next =>
      rw [show scanRecords 0 stream (Array.replicate workload.threads 0) = _ from hrecords]
      rfl

end Checked

namespace Workload

open Checked

/-- The check gives an answer on every stream that fits into memory, and as long as the
counters suffice it accepts exactly the clean streams: a damaged one is rejected, and however
the records of the threads are merged, it accepts them. -/
theorem check_accepts_exactly_clean_streams (workload : Workload)
    (hwrites : workload.writesPerThread < UInt32.size) (stream : Bytes) :
    (stream.length ≤ Reservation.maxCapacity →
      ∃ answer, checkRecordsAt stream workload = .ok answer) ∧
    (stream.length < countable →
      checkRecordsAt stream workload = .ok (checkRecords stream workload) ∧
      (checkRecords stream workload = .ok () ↔
        ∃ records, stream = recordStream records ∧ workload.Clean records) ∧
      (workload.Damaged stream → ∃ fault, checkRecords stream workload = .error fault) ∧
      ∀ (queues : Nat → List RecordHeader) (records : List RecordHeader),
        workload.Queues queues → workload.Merge queues records →
          stream = recordStream records → checkRecords stream workload = .ok ()) := by
  have haccepts := checkRecords_eq_ok_iff hwrites stream
  refine ⟨fun hlength => checkRecordsAt_eq_ok hlength workload, fun hlength =>
    ⟨checkRecordsAt_eq hlength workload, haccepts, fun hdamaged => ?_,
      fun queues records hqueues hmerge hrecords =>
        haccepts.mpr ⟨records, hrecords, hmerge.clean hqueues⟩⟩⟩
  cases hcheck : checkRecords stream workload with
  | error fault => exact ⟨fault, rfl⟩
  | ok =>
      obtain ⟨records, hrecords, hclean⟩ := haccepts.mp hcheck
      exact absurd hclean (hdamaged.not_clean hrecords)

/-- Two threads with two records each are accepted, and once one of the records is gone they
are not. -/
theorem check_accepts_two_threads_and_misses_a_record :
    let workload : Workload := { threads := 2, writesPerThread := 2 }
    let before : List RecordHeader := [⟨1, 0, 3⟩, ⟨0, 0, 1⟩]
    let after : List RecordHeader := [⟨1, 1, 0⟩]
    workload.writesPerThread < UInt32.size ∧
      checkRecordsAt (recordStream (before ++ ⟨0, 1, 2⟩ :: after)) workload = .ok (.ok ()) ∧
      ∃ fault, checkRecords (recordStream (before ++ after)) workload = .error fault := by
  intro workload before after
  have hwrites : workload.writesPerThread < UInt32.size := by decide
  have hclean : workload.Clean (before ++ ⟨0, 1, 2⟩ :: after) :=
    ⟨by decide, by decide⟩
  have hwhole := (check_accepts_exactly_clean_streams workload hwrites
    (recordStream (before ++ ⟨0, 1, 2⟩ :: after))).2 (by decide)
  have hlost := (check_accepts_exactly_clean_streams workload hwrites
    (recordStream (before ++ after))).2 (by decide)
  refine ⟨hwrites, ?_, hlost.2.2.1 (.lost hclean)⟩
  rw [hwhole.1, hwhole.2.1.mpr ⟨_, rfl, hclean⟩]

end Workload
end SeekableArchive
