import SeekableArchive.Proofs.Records

/-!
# Streams of records

A stream is taken apart into records in at most one way, for each record says where it ends.
The check goes through the stream record by record and counts those of each thread, so it
accepts the streams of records in which each thread counts from zero up to what it was told
to write, and no others.  A stream with one thing wrong is therefore rejected, and records
that have been merged in any way are not.
-/

namespace SeekableArchive

open LittleEndian

/-- Records one after the other. -/
def recordStream (records : List RecordHeader) : Bytes :=
  records.flatMap RecordHeader.bytes

@[simp] theorem recordStream_cons (header : RecordHeader) (records : List RecordHeader) :
    recordStream (header :: records) = header.bytes ++ recordStream records :=
  rfl

/-! ## Taking a stream apart -/

theorem word_readWord_append_drop (bs : Bytes) (h : 4 ≤ bs.length) :
    word (readWord bs) ++ bs.drop 4 = bs := by
  rw [word_readWord h, List.take_append_drop]

/-- Any twelve bytes are the front of a record. -/
theorem RecordHeader.words_readWord {front : Bytes} (h : front.length = recordHeaderSize) :
    RecordHeader.words ⟨readWord front, readWord (front.drop 4), readWord (front.drop 8)⟩ =
      front := by
  rw [recordHeaderSize] at h
  have hthird : word (readWord (front.drop 8)) = front.drop 8 := by
    rw [word_readWord (by simp [h]), List.take_of_length_le (by simp [h])]
  have hsecond : word (readWord (front.drop 4)) ++ front.drop 8 = front.drop 4 := by
    have hsplit := word_readWord_append_drop (front.drop 4) (by simp [h])
    rwa [List.drop_drop] at hsplit
  rw [RecordHeader.words, hthird, List.append_assoc, hsecond,
    word_readWord_append_drop front (by omega)]

/-- What is read is what is there: the header, the body it announces and the rest. -/
theorem eq_of_readRecord? {stream : Bytes} {reading : Reading}
    (h : readRecord? stream = some reading) :
    ∃ header : RecordHeader, header.thread = reading.thread ∧
      header.sequence = reading.sequence ∧
      reading.body.length = header.bodyLength.toNat ∧
      stream = header.words ++ reading.body ++ reading.rest := by
  simp only [readRecord?] at h
  split at h
  · cases h
  · rename_i hlong
    have hfront : (stream.take recordHeaderSize).length = recordHeaderSize := by
      rw [List.length_take] at hlong ⊢
      omega
    have hwords := RecordHeader.words_readWord hfront
    cases h
    refine ⟨⟨readWord (stream.take recordHeaderSize),
      readWord ((stream.take recordHeaderSize).drop 4),
      readWord ((stream.take recordHeaderSize).drop 8)⟩, rfl, rfl, ?_, ?_⟩
    · simp only [List.length_take] at hlong ⊢
      omega
    · rw [hwords, List.append_assoc, List.take_append_drop, List.take_append_drop]

theorem bytes_append_inj {header header' : RecordHeader} {rest rest' : Bytes}
    (h : header.bytes ++ rest = header'.bytes ++ rest') : header = header' ∧ rest = rest' := by
  have hread := readRecord?_bytes header rest
  rw [h, readRecord?_bytes] at hread
  simp only [Option.some.injEq, Reading.mk.injEq] at hread
  obtain ⟨hthread, hsequence, hbody, hrest⟩ := hread
  have hlength : header'.bodyLength = header.bodyLength := by
    simpa [UInt32.toNat_inj] using congrArg List.length hbody
  refine ⟨?_, hrest.symm⟩
  cases header
  cases header'
  simp_all

theorem bytes_ne_nil (header : RecordHeader) (rest : Bytes) : header.bytes ++ rest ≠ [] :=
  record_append_ne_nil _ _ _ rest

/-- The records that a stream begins with are the first ones, however it is taken apart. -/
theorem recordStream_append_eq {before records : List RecordHeader} {rest : Bytes}
    (h : recordStream before ++ rest = recordStream records) :
    ∃ more, records = before ++ more ∧ rest = recordStream more := by
  induction before generalizing records with
  | nil => exact ⟨records, rfl, h⟩
  | cons header before ih =>
      rw [recordStream_cons, List.append_assoc] at h
      cases records with
      | nil => exact absurd h (bytes_ne_nil header _)
      | cons header' records =>
          obtain ⟨rfl, hrest⟩ := bytes_append_inj h
          obtain ⟨more, rfl, hmore⟩ := ih hrest
          exact ⟨more, rfl, hmore⟩

theorem recordStream_injective {records records' : List RecordHeader}
    (h : recordStream records = recordStream records') : records = records' := by
  have hall : recordStream records ++ [] = recordStream records' := by rw [List.append_nil, h]
  obtain ⟨more, rfl, hmore⟩ := recordStream_append_eq hall
  cases more with
  | nil => rw [List.append_nil]
  | cons header more => exact absurd hmore.symm (bytes_ne_nil header _)

/-! ## What the check counts -/

/-- A run through records: each is the one that is due of its thread. -/
inductive Counted : Array Nat → List RecordHeader → Array Nat → Prop
  | done {next : Array Nat} : Counted next [] next
  | turn {next final : Array Nat} {header : RecordHeader} {records : List RecordHeader}
      (hdue : next[header.thread.toNat]? = some header.sequence.toNat)
      (h : Counted (next.setIfInBounds header.thread.toNat (header.sequence.toNat + 1))
        records final) :
      Counted next (header :: records) final

/-- The numbers of a thread's records, in the order of the stream. -/
def sequencesOf (thread : Nat) (records : List RecordHeader) : List Nat :=
  (records.filter fun header => header.thread.toNat = thread).map
    fun header => header.sequence.toNat

theorem sequencesOf_cons_self {header : RecordHeader} {thread : Nat}
    (h : header.thread.toNat = thread) (records : List RecordHeader) :
    sequencesOf thread (header :: records) =
      header.sequence.toNat :: sequencesOf thread records := by
  simp [sequencesOf, h]

theorem sequencesOf_cons_of_ne {header : RecordHeader} {thread : Nat}
    (h : header.thread.toNat ≠ thread) (records : List RecordHeader) :
    sequencesOf thread (header :: records) = sequencesOf thread records := by
  simp [sequencesOf, h]

/-- A body without another thread's byte makes a record. -/
theorem eq_bytes_of_readRecord? {stream : Bytes} {reading : Reading}
    (hread : readRecord? stream = some reading)
    (hbody : ¬ reading.body.any (· ≠ reading.thread.toUInt8) = true) :
    ∃ header : RecordHeader, header.thread = reading.thread ∧
      header.sequence = reading.sequence ∧
      reading.body.length = header.bodyLength.toNat ∧ stream = header.bytes ++ reading.rest := by
  obtain ⟨header, hthread, hsequence, hlength, hstream⟩ := eq_of_readRecord? hread
  refine ⟨header, hthread, hsequence, hlength, ?_⟩
  have hown : reading.body = List.replicate header.bodyLength.toNat header.thread.toUInt8 := by
    rw [List.eq_replicate_iff]
    refine ⟨hlength, fun b hb => ?_⟩
    by_contra hne
    rw [hthread] at hne
    exact hbody (List.any_eq_true.mpr ⟨b, hb, decide_eq_true hne⟩)
  rw [header.bytes_eq, ← hown, hstream]

/-- If the check finishes, it is at the end of the stream or in front of the record that is
due of some thread. -/
theorem scanRecords_eq_ok_cases {offset : Nat} {stream : Bytes} {next final : Array Nat}
    (h : scanRecords offset stream next = .ok final) :
    (stream = [] ∧ final = next) ∨
      ∃ (header : RecordHeader) (rest : Bytes), stream = header.bytes ++ rest ∧
        next[header.thread.toNat]? = some header.sequence.toNat ∧
        scanRecords (offset + recordHeaderSize + header.bodyLength.toNat) rest
          (next.setIfInBounds header.thread.toNat (header.sequence.toNat + 1)) = .ok final := by
  rw [scanRecords] at h
  split at h
  · rename_i hnil
    cases h
    exact .inl ⟨hnil, rfl⟩
  · split at h
    · cases h
    · rename_i reading hread
      split at h
      · cases h
      · rename_i due hdue
        split at h
        · cases h
        · rename_i hsequence
          split at h
          · cases h
          · rename_i hbody
            obtain ⟨header, hthread, hnumber, hlength, hstream⟩ :=
              eq_bytes_of_readRecord? hread hbody
            refine .inr ⟨header, reading.rest, hstream, ?_, ?_⟩
            · rw [hthread, hnumber, hdue, not_not.mp hsequence]
            · rw [hthread, hnumber, ← hlength, not_not.mp hsequence]
              exact h

/-- The check finishes exactly on the streams of records that are due one after the other. -/
theorem scanRecords_eq_ok_iff (offset : Nat) {stream : Bytes} {next final : Array Nat} :
    scanRecords offset stream next = .ok final ↔
      ∃ records, stream = recordStream records ∧ Counted next records final := by
  constructor
  · intro h
    induction hlength : stream.length using Nat.strongRecOn
      generalizing offset stream next with
    | ind length ih =>
        obtain ⟨rfl, rfl⟩ | ⟨header, rest, rfl, hdue, hrest⟩ := scanRecords_eq_ok_cases h
        · exact ⟨[], rfl, .done⟩
        · have hshorter : rest.length < length := by
            have hpos : 0 < header.bytes.length := by
              rw [header.bytes_eq, List.length_append, header.length_words, recordHeaderSize]
              omega
            rw [← hlength, List.length_append]
            omega
          obtain ⟨records, rfl, hcounted⟩ := ih _ hshorter _ hrest rfl
          exact ⟨header :: records, rfl, .turn hdue hcounted⟩
  · rintro ⟨records, rfl, hcounted⟩
    induction hcounted generalizing offset with
    | done => rw [recordStream, List.flatMap_nil, scanRecords, if_pos rfl]
    | @turn next final header records hdue _ ih =>
        rw [recordStream_cons, RecordHeader.bytes,
          scanRecords_record header.bodyLength.toNat_lt hdue, ih]

namespace Counted

variable {next final : Array Nat} {records : List RecordHeader}

theorem size_eq (h : Counted next records final) : final.size = next.size := by
  induction h with
  | done => rfl
  | turn _ _ ih => rw [ih, Array.size_setIfInBounds]

theorem thread_lt (h : Counted next records final) :
    ∀ header ∈ records, header.thread.toNat < next.size := by
  induction h with
  | done => simp
  | turn hdue _ ih =>
      rw [Array.size_setIfInBounds] at ih
      exact List.forall_mem_cons.mpr ⟨(Array.getElem?_eq_some_iff.mp hdue).1, ih⟩

/-- A thread's records go on where it was, without a gap, and move it on by their number. -/
theorem sequencesOf_eq (h : Counted next records final) {thread due : Nat}
    (hdue : next[thread]? = some due) :
    sequencesOf thread records = List.range' due (sequencesOf thread records).length ∧
      final[thread]? = some (due + (sequencesOf thread records).length) := by
  induction h generalizing due with
  | done => exact ⟨rfl, hdue⟩
  | @turn next final header records hown _ ih =>
      by_cases hthread : header.thread.toNat = thread
      · subst hthread
        rw [hown] at hdue
        cases hdue
        have hlt : header.thread.toNat < next.size := (Array.getElem?_eq_some_iff.mp hown).1
        obtain ⟨hrange, hfinal⟩ := ih (Array.getElem?_setIfInBounds_self_of_lt hlt)
        rw [sequencesOf_cons_self rfl, List.length_cons, List.range'_succ, ← hrange, hfinal]
        exact ⟨rfl, by congr 1; omega⟩
      · rw [sequencesOf_cons_of_ne hthread]
        exact ih (by rw [Array.getElem?_setIfInBounds_ne hthread, hdue])

/-- Records are due one after the other if those of every thread go on where it was. -/
theorem exists_of_sequencesOf (next : Array Nat) (records : List RecordHeader)
    (hknown : ∀ header ∈ records, header.thread.toNat < next.size)
    (hrange : ∀ thread due, next[thread]? = some due →
      sequencesOf thread records = List.range' due (sequencesOf thread records).length) :
    ∃ final, Counted next records final := by
  induction records generalizing next with
  | nil => exact ⟨next, .done⟩
  | cons header records ih =>
      obtain ⟨hthread, hothers⟩ := List.forall_mem_cons.mp hknown
      have hget : next[header.thread.toNat]? = some next[header.thread.toNat] :=
        Array.getElem?_eq_getElem hthread
      have hown := hrange header.thread.toNat _ hget
      rw [sequencesOf_cons_self rfl, List.length_cons, List.range'_succ] at hown
      obtain ⟨hfirst, hrest⟩ := List.cons.inj hown
      obtain ⟨final, hfinal⟩ := ih
        (next.setIfInBounds header.thread.toNat (header.sequence.toNat + 1))
        (by rwa [Array.size_setIfInBounds]) (by
          intro thread due hdue
          by_cases hsame : header.thread.toNat = thread
          · subst hsame
            rw [Array.getElem?_setIfInBounds_self_of_lt hthread] at hdue
            cases hdue
            rw [hfirst]
            exact hrest
          · rw [Array.getElem?_setIfInBounds_ne hsame] at hdue
            have hother := hrange thread due hdue
            rwa [sequencesOf_cons_of_ne hsame] at hother)
      exact ⟨final, .turn (by rw [hget, hfirst]) hfinal⟩

end Counted

theorem missingRecords_eq_ok_iff {expected thread : Nat} {found : List Nat} :
    missingRecords expected thread found = .ok () ↔ ∀ count ∈ found, count = expected := by
  induction found generalizing thread with
  | nil => simp [missingRecords]
  | cons count found ih =>
      by_cases h : count = expected
      · simp [missingRecords, h, ih]
      · simp [missingRecords, h]

/-! ## Clean streams -/

namespace Workload

variable {workload : Workload} {records : List RecordHeader}

/-- The records of a workload, all of them, those of each thread in order. -/
structure Clean (workload : Workload) (records : List RecordHeader) : Prop where
  known : ∀ header ∈ records, header.thread.toNat < workload.threads
  counted : ∀ thread < workload.threads,
    sequencesOf thread records = List.range workload.writesPerThread

theorem clean_iff_counted :
    workload.Clean records ↔
      Counted (Array.replicate workload.threads 0) records
        (Array.replicate workload.threads workload.writesPerThread) := by
  constructor
  · intro h
    obtain ⟨final, hfinal⟩ := Counted.exists_of_sequencesOf
      (Array.replicate workload.threads 0) records
      (by simpa using h.known) (by
        intro thread due hdue
        rw [Array.getElem?_replicate] at hdue
        split at hdue
        · rename_i hthread
          cases hdue
          rw [h.counted thread hthread, List.length_range, List.range_eq_range']
        · cases hdue)
    have hall : final = Array.replicate workload.threads workload.writesPerThread := by
      apply Array.ext_getElem?
      intro thread
      by_cases hthread : thread < workload.threads
      · have hzero : (Array.replicate workload.threads 0)[thread]? = some 0 := by
          rw [Array.getElem?_replicate, if_pos hthread]
        rw [(hfinal.sequencesOf_eq hzero).2, h.counted thread hthread, List.length_range,
          Array.getElem?_replicate, if_pos hthread, Nat.zero_add]
      · have hsize : final.size = workload.threads := by
          rw [hfinal.size_eq, Array.size_replicate]
        rw [Array.getElem?_eq_none (by omega), Array.getElem?_replicate, if_neg hthread]
    rwa [hall] at hfinal
  · intro h
    refine ⟨by simpa using h.thread_lt, fun thread hthread => ?_⟩
    have hzero : (Array.replicate workload.threads 0)[thread]? = some 0 := by
      rw [Array.getElem?_replicate, if_pos hthread]
    obtain ⟨hrange, hfinal⟩ := h.sequencesOf_eq hzero
    rw [Array.getElem?_replicate, if_pos hthread, Nat.zero_add] at hfinal
    rw [hrange, ← Option.some.inj hfinal, List.range_eq_range']

/-- Exactly the clean streams pass the check. -/
theorem checkRecords_eq_ok_iff (hwrites : workload.writesPerThread < UInt32.size)
    (stream : Bytes) :
    checkRecords stream workload = .ok () ↔
      ∃ records, stream = recordStream records ∧ workload.Clean records := by
  have hexpected : workload.writesPerThread.toUInt32.toNat = workload.writesPerThread :=
    UInt32.toNat_ofNat_of_lt' hwrites
  simp only [clean_iff_counted, ← scanRecords_eq_ok_iff 0, checkRecords, hexpected]
  split
  · rename_i fault hscan
    simp [hscan]
  · rename_i final hscan
    have hsize : final.size = workload.threads := by
      obtain ⟨records, -, hcounted⟩ := (scanRecords_eq_ok_iff 0).mp hscan
      rw [hcounted.size_eq, Array.size_replicate]
    rw [missingRecords_eq_ok_iff, hscan, Except.ok.injEq, Array.eq_replicate_iff]
    simp [hsize]

/-! ## Streams with something wrong -/

/-- What can go wrong with the records of a workload on their way into a stream. -/
inductive Damaged (workload : Workload) : Bytes → Prop
  | lost {before after : List RecordHeader} {header : RecordHeader}
      (h : workload.Clean (before ++ header :: after)) :
      Damaged workload (recordStream (before ++ after))
  | duplicated {before after : List RecordHeader} {header : RecordHeader}
      (h : workload.Clean (before ++ after)) (hmem : header ∈ before ++ after) :
      Damaged workload (recordStream (before ++ header :: after))
  | reordered {records records' : List RecordHeader} (h : workload.Clean records)
      (hperm : records'.Perm records) {thread : Nat} (hthread : thread < workload.threads)
      (horder : sequencesOf thread records' ≠ sequencesOf thread records) :
      Damaged workload (recordStream records')
  | foreign {records : List RecordHeader} {header : RecordHeader} (hmem : header ∈ records)
      (hthread : workload.threads ≤ header.thread.toNat) :
      Damaged workload (recordStream records)
  | truncated {records : List RecordHeader} {header : RecordHeader} {piece missing : Bytes}
      (hsplit : piece ++ missing = header.bytes) (hpiece : piece ≠ []) (hmissing : missing ≠ []) :
      Damaged workload (recordStream records ++ piece)
  | overwritten {records : List RecordHeader} {header : RecordHeader} {body : Bytes}
      (hbody : body.length = header.bodyLength.toNat) {b : UInt8} (hmem : b ∈ body)
      (hbyte : b ≠ header.thread.toUInt8) (rest : Bytes) :
      Damaged workload (recordStream records ++ (header.words ++ body ++ rest))

/-- A damaged stream is not a clean one that is taken apart differently. -/
theorem Damaged.not_clean {stream : Bytes} (h : workload.Damaged stream)
    (hrecords : stream = recordStream records) : ¬ workload.Clean records := by
  intro hclean
  cases h with
  | @lost before after header hfull =>
      obtain rfl := recordStream_injective hrecords
      have hthread : header.thread.toNat < workload.threads := hfull.known header (by simp)
      have hcount := congrArg List.length
        ((hfull.counted _ hthread).trans (hclean.counted _ hthread).symm)
      simp [sequencesOf] at hcount
  | @duplicated before after header hfull hmem =>
      obtain rfl := recordStream_injective hrecords
      have hthread : header.thread.toNat < workload.threads := hfull.known header hmem
      have hcount := congrArg List.length
        ((hfull.counted _ hthread).trans (hclean.counted _ hthread).symm)
      simp [sequencesOf] at hcount
  | reordered hfull _ hthread horder =>
      obtain rfl := recordStream_injective hrecords
      exact horder ((hclean.counted _ hthread).trans (hfull.counted _ hthread).symm)
  | foreign hmem hthread =>
      obtain rfl := recordStream_injective hrecords
      exact Nat.not_lt.mpr hthread (hclean.known _ hmem)
  | @truncated before header piece missing hsplit hpiece hmissing =>
      obtain ⟨more, rfl, rfl⟩ := recordStream_append_eq hrecords
      cases more with
      | nil => exact hpiece rfl
      | cons first more =>
          rw [recordStream_cons, List.append_assoc, ← List.append_nil header.bytes] at hsplit
          obtain ⟨-, hrest⟩ := bytes_append_inj hsplit
          exact hmissing (List.append_eq_nil_iff.mp hrest).2
  | @overwritten before header body hbody b hmem hbyte rest =>
      obtain ⟨more, rfl, hmore⟩ := recordStream_append_eq hrecords
      have hread := readRecord?_words header hbody rest
      cases more with
      | nil =>
          rw [hmore] at hread
          cases hread
      | cons first more =>
          rw [hmore, recordStream_cons, readRecord?_bytes] at hread
          simp only [Option.some.injEq, Reading.mk.injEq] at hread
          obtain ⟨hthread, -, hsame, -⟩ := hread
          rw [← hsame, hthread] at hmem
          exact hbyte (List.eq_of_mem_replicate hmem)

/-- The records of the threads, each thread's in order, taken one at a time. -/
inductive Merge (workload : Workload) :
    (Nat → List RecordHeader) → List RecordHeader → Prop
  | done {queues : Nat → List RecordHeader} (h : ∀ thread < workload.threads, queues thread = []) :
      Merge workload queues []
  | turn {queues : Nat → List RecordHeader} {thread : Nat} {header : RecordHeader}
      {left records : List RecordHeader} (hthread : thread < workload.threads)
      (hfirst : queues thread = header :: left)
      (h : Merge workload (Function.update queues thread left) records) :
      Merge workload queues (header :: records)

/-- What the threads have to write: each all of its records, in order, of any length. -/
structure Queues (workload : Workload) (queues : Nat → List RecordHeader) : Prop where
  own : ∀ thread < workload.threads, ∀ header ∈ queues thread, header.thread.toNat = thread
  counted : ∀ thread < workload.threads,
    (queues thread).map (fun header => header.sequence.toNat) =
      List.range workload.writesPerThread

/-- Merging leaves the records of each thread as they were. -/
theorem Merge.filter_eq {queues : Nat → List RecordHeader} (h : workload.Merge queues records)
    (hown : ∀ thread < workload.threads, ∀ header ∈ queues thread,
      header.thread.toNat = thread) :
    (∀ header ∈ records, header.thread.toNat < workload.threads) ∧
      ∀ thread < workload.threads,
        records.filter (fun header => header.thread.toNat = thread) = queues thread := by
  induction h with
  | done h => exact ⟨by simp, fun thread hthread => by rw [h thread hthread, List.filter_nil]⟩
  | @turn queues taken header left records htaken hfirst _ ih =>
      have hheader : header.thread.toNat = taken :=
        hown taken htaken header (by rw [hfirst]; exact List.mem_cons_self)
      obtain ⟨hknown, hfilter⟩ := ih (by
        intro thread hthread header' hmem
        by_cases hsame : thread = taken
        · subst hsame
          rw [Function.update_self] at hmem
          exact hown thread hthread header' (by rw [hfirst]; exact List.mem_cons_of_mem _ hmem)
        · rw [Function.update_of_ne hsame] at hmem
          exact hown thread hthread header' hmem)
      refine ⟨List.forall_mem_cons.mpr ⟨by rwa [hheader], hknown⟩, fun thread hthread => ?_⟩
      by_cases hsame : thread = taken
      · subst hsame
        rw [List.filter_cons_of_pos (by simpa using hheader), hfilter thread hthread,
          Function.update_self, hfirst]
      · have hne : header.thread.toNat ≠ thread := by
          rw [hheader]
          exact Ne.symm hsame
        rw [List.filter_cons_of_neg (by simpa using hne), hfilter thread hthread,
          Function.update_of_ne hsame]

theorem Merge.clean {queues : Nat → List RecordHeader} (h : workload.Merge queues records)
    (hqueues : workload.Queues queues) : workload.Clean records := by
  obtain ⟨hknown, hfilter⟩ := h.filter_eq hqueues.own
  refine ⟨hknown, fun thread hthread => ?_⟩
  rw [sequencesOf, hfilter thread hthread, hqueues.counted thread hthread]

end Workload
end SeekableArchive
