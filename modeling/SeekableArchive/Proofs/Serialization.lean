import SeekableArchive.Proofs.FrameLog
import SeekableArchive.Proofs.TableGrammar

/-!
# Recording, handing out and reading back

A fresh log takes every frame that its words can state, up to the limit on their number.
However the buffers are chosen into which it hands out its table, once they have drained
the log they hold the encoding; behind any body that is read back as the entries of the
log, and what a reader has accepted is reproduced by recording its entries.
-/

namespace SeekableArchive

open LittleEndian

/-- What is recorded about a frame. -/
structure FrameRecord where
  compressed : Nat
  uncompressed : Nat
  checksum : UInt32

namespace FrameRecord

/-- The sizes of the frame fit the words of an entry. -/
def Fits (frame : FrameRecord) : Prop :=
  frame.compressed ≤ maxFrameSize ∧ frame.uncompressed ≤ maxFrameSize

instance (frame : FrameRecord) : Decidable frame.Fits :=
  inferInstanceAs (Decidable (_ ∧ _))

def entry (checksums : Bool) (frame : FrameRecord) : FrameEntry :=
  ⟨UInt32.ofNat frame.compressed, UInt32.ofNat frame.uncompressed,
    if checksums then some frame.checksum else none⟩

/-- A record that leads to the entry; `unused` stands in for a checksum that is not kept. -/
def ofEntry (unused : UInt32) (e : FrameEntry) : FrameRecord :=
  ⟨e.compressedSize.toNat, e.uncompressedSize.toNat, e.checksum.getD unused⟩

theorem fits_ofEntry (unused : UInt32) (e : FrameEntry) : (ofEntry unused e).Fits :=
  ⟨Nat.le_of_lt_succ e.compressedSize.toNat_lt, Nat.le_of_lt_succ e.uncompressedSize.toNat_lt⟩

theorem entry_ofEntry {checksums : Bool} {e : FrameEntry} (h : e.checksum.isSome = checksums)
    (unused : UInt32) : (ofEntry unused e).entry checksums = e := by
  obtain ⟨compressed, uncompressed, checksum⟩ := e
  subst h
  cases checksum <;> simp [entry, ofEntry]

end FrameRecord

namespace FrameLog

/-- Records the frames in order, up to the first that is refused. -/
def recordAll (log : FrameLog) : List FrameRecord → Except RecordFault FrameLog
  | [] => .ok log
  | frame :: frames =>
      match log.record frame.compressed frame.uncompressed frame.checksum with
      | .error fault => .error fault
      | .ok log => log.recordAll frames

theorem exists_recordAll_eq_ok {log : FrameLog} {frames : List FrameRecord}
    (hhandout : log.handout = none) (hcount : log.size + frames.length ≤ maxFrames)
    (hfits : ∀ frame ∈ frames, frame.Fits) :
    ∃ log', log.recordAll frames = .ok log' ∧ log'.handout = none ∧
      log'.checksums = log.checksums ∧
      log'.entries.toList =
        log.entries.toList ++ frames.map (FrameRecord.entry log.checksums) := by
  induction frames generalizing log with
  | nil => exact ⟨log, rfl, hhandout, rfl, by simp⟩
  | cons frame frames ih =>
      rw [List.length_cons] at hcount
      obtain ⟨hcompressed, huncompressed⟩ := hfits frame (by simp)
      obtain ⟨next, hrecord⟩ := exists_record_eq_ok frame.checksum hhandout (by omega)
        hcompressed huncompressed
      obtain ⟨-, -, -, -, hnext, htable⟩ := record_eq_ok_iff.mp hrecord
      have hsize : next.size = log.size + 1 := by
        rw [size, htable]
        exact Array.size_push _
      have hchecksums : next.checksums = log.checksums := by
        rw [checksums, htable]
        rfl
      have hentries : next.entries.toList =
          log.entries.toList ++ [frame.entry log.checksums] := by
        rw [entries, htable]
        exact Array.toList_push
      obtain ⟨log', hrest, hhandout', hchecksums', hentries'⟩ :=
        ih hnext (by omega) fun later hlater => hfits later (by simp [hlater])
      refine ⟨log', ?_, hhandout', hchecksums'.trans hchecksums, ?_⟩
      · simp only [recordAll, hrecord, hrest]
      · rw [hentries', hentries, hchecksums, List.append_assoc]
        rfl

theorem withCapacity_eq_ok {capacity : Nat} {checksums : Bool} {fresh : FrameLog}
    (h : withCapacity capacity checksums = .ok fresh) : fresh = empty checksums := by
  simp only [withCapacity] at h
  split at h
  · cases h
    rfl
  · cases h

/-- A fresh log takes all frames that fit it, and its table lists them. -/
theorem exists_recordAll_fresh {capacity : Nat} {checksums : Bool} {fresh : FrameLog}
    {frames : List FrameRecord} (hfresh : withCapacity capacity checksums = .ok fresh)
    (hcount : frames.length ≤ maxFrames) (hfits : ∀ frame ∈ frames, frame.Fits) :
    ∃ log, fresh.recordAll frames = .ok log ∧ log.handout = none ∧ log.checksums = checksums ∧
      log.entries.toList = frames.map (FrameRecord.entry checksums) := by
  rw [withCapacity_eq_ok hfresh]
  have hroom : (empty checksums).size + frames.length ≤ maxFrames := by
    rw [show (empty checksums).size = 0 from rfl]
    omega
  obtain ⟨log, hrecord, hhandout, hchecksums, hentries⟩ :=
    exists_recordAll_eq_ok rfl hroom hfits
  exact ⟨log, hrecord, hhandout, hchecksums, hentries⟩

/-! ## Schedules -/

/-- Asks for one piece after the other, each as large as its buffer. -/
def serializeAll (log : FrameLog) : List Nat → List FooterStep × FrameLog
  | [] => ([], log)
  | room :: rooms =>
      let (step, log) := log.serialize room
      let (steps, log) := log.serializeAll rooms
      (step :: steps, log)

/-- The pieces for buffers of these sizes, one after the other. -/
def pieces (log : FrameLog) (rooms : List Nat) : Bytes :=
  ((log.serializeAll rooms).1.map FooterStep.output).flatten

/-- After the last piece nothing remains. -/
def DrainedBy (log : FrameLog) (rooms : List Nat) : Prop :=
  ∃ step, (log.serializeAll rooms).1.getLast? = some step ∧ step.remaining = 0

theorem serializeAll_cons (log : FrameLog) (room : Nat) (rooms : List Nat) :
    log.serializeAll (room :: rooms) =
      ((log.serialize room).1 :: ((log.serialize room).2.serializeAll rooms).1,
        ((log.serialize room).2.serializeAll rooms).2) := rfl

/-- The pieces and what is unread behind them make up what was unread. -/
theorem serializeAll_spec {log : FrameLog} (h : log.Coherent) (rooms : List Nat) :
    log.pieces rooms ++ (log.serializeAll rooms).2.unread = log.unread ∧
      ∀ step, (log.serializeAll rooms).1.getLast? = some step →
        step.remaining = (log.serializeAll rooms).2.unread.length := by
  induction rooms generalizing log with
  | nil => exact ⟨rfl, fun step hstep => by cases hstep⟩
  | cons room rooms ih =>
      obtain ⟨houtput, hremaining, hunread, -, hnext⟩ := serialize_spec h room
      obtain ⟨hpieces, hlast⟩ := ih hnext
      rw [serializeAll_cons]
      constructor
      · rw [pieces, serializeAll_cons, List.map_cons, List.flatten_cons, List.append_assoc, houtput]
        change _ ++ ((log.serialize room).2.pieces rooms ++ _) = _
        rw [hpieces, hunread, List.take_append_drop]
      · intro step hstep
        -- The first step is the last one only if no other buffer is left.
        cases hsteps : ((log.serialize room).2.serializeAll rooms).1 with
        | nil =>
            have hrooms : rooms = [] := by
              cases rooms with
              | nil => rfl
              | cons room' rooms =>
                  rw [serializeAll_cons] at hsteps
                  cases hsteps
            subst hrooms
            rw [hsteps, List.getLast?_singleton, Option.some.injEq] at hstep
            rw [← hstep, hremaining, ← hunread]
            rfl
        | cons first steps =>
            apply hlast
            rw [hsteps, List.getLast?_cons_cons] at hstep
            rw [hsteps, hstep]

/-- Whatever the sizes of the buffers, a log that is drained has handed out its table. -/
theorem pieces_of_drainedBy {log : FrameLog} {rooms : List Nat} (hhandout : log.handout = none)
    (h : log.DrainedBy rooms) : log.pieces rooms = log.table.encode := by
  obtain ⟨step, hstep, hdone⟩ := h
  obtain ⟨hpieces, hlast⟩ := serializeAll_spec (coherent_of_handout_eq_none hhandout) rooms
  have hnothing : (log.serializeAll rooms).2.unread = [] := by
    apply List.length_eq_zero_iff.mp
    rw [← hlast step hstep, hdone]
  rw [hnothing, List.append_nil, unread_of_handout_eq_none hhandout] at hpieces
  exact hpieces

/-- Frames are recorded in a fresh log, and its table is handed out by any schedule that
drains it.  The bytes are as many as the log says, their size and their count are those of
the table, and behind any body they are read back as the entries of the log. -/
theorem parse_append_pieces {capacity : Nat} {checksums : Bool} {fresh : FrameLog}
    {frames : List FrameRecord} (hfresh : withCapacity capacity checksums = .ok fresh)
    (hcount : frames.length ≤ maxFrames) (hfits : ∀ frame ∈ frames, frame.Fits) :
    ∃ log, fresh.recordAll frames = .ok log ∧
      (log.entries.toList.map fun entry =>
          (entry.compressedSize.toNat, entry.uncompressedSize.toNat, entry.checksum)) =
        (frames.map fun frame =>
          (frame.compressed, frame.uncompressed,
            if checksums then some frame.checksum else none)) ∧
      ∀ rooms, log.DrainedBy rooms →
        (log.pieces rooms).length = log.table.encodedSize ∧
        (readWord ((log.pieces rooms).drop 4)).toNat = (log.pieces rooms).length - 8 ∧
        (readWord ((log.pieces rooms).drop ((log.pieces rooms).length - 9))).toNat =
          log.entries.size ∧
        ∀ body, ∃ table, SeekTable.parse (body ++ log.pieces rooms) = .ok table ∧
          table.entries = log.entries ∧ table.checksums = checksums ∧
          (∀ entry ∈ table.entries, entry.checksum.isSome = checksums) ∧
          table.encodedSize = (log.pieces rooms).length := by
  obtain ⟨log, hrecord, hhandout, hchecksums, hentries⟩ :=
    exists_recordAll_fresh hfresh hcount hfits
  refine ⟨log, hrecord, ?_, ?_⟩
  · rw [hentries, List.map_map]
    apply List.map_congr_left
    intro frame hframe
    obtain ⟨hcompressed, huncompressed⟩ := hfits frame hframe
    simp only [Function.comp, FrameRecord.entry, SeekTable.toNat_ofNat_of_le hcompressed,
      SeekTable.toNat_ofNat_of_le huncompressed]
  · intro rooms hdrained
    have hsmall : log.table.encodedSize - SeekTable.headerSize ≤ maxFrameSize :=
      Nat.le_trans (Nat.sub_le _ _) (log.table.encodedSize_bound log.bounded)
    rw [pieces_of_drainedBy hhandout hdrained]
    refine ⟨log.table.length_encode, ?_, ?_, ?_⟩
    · rw [log.table.readWord_size hsmall, SeekTable.length_encode]
      rfl
    · have htrailer := log.table.drop_append_encode []
      rw [List.nil_append] at htrailer
      change (readWord (log.table.encode.drop
        (log.table.encode.length - SeekTable.footerSize))).toNat = _
      rw [htrailer, log.table.readWord_trailer hsmall]
      rfl
    · intro body
      refine ⟨log.table, log.table.parse_append_encode log.bounded body, rfl, hchecksums, ?_,
        log.table.length_encode.symm⟩
      intro entry hentry
      exact (log.table.uniform entry hentry).trans hchecksums

/-- Two frames with checksums, handed out in pieces of five, nothing, twenty and the rest,
behind a body that ends in the magic of a table. -/
theorem parse_append_pieces_of_two : ∃ log,
    (empty true).recordAll [⟨9, 7, 0xDEAD⟩, ⟨maxFrameSize, 0, 0⟩] = .ok log ∧
      log.DrainedBy [5, 0, 20, 1000] ∧
      ∃ table, SeekTable.parse (word Magic.seekable.word ++ log.pieces [5, 0, 20, 1000]) =
        .ok table ∧ table.entries = #[⟨9, 7, some 0xDEAD⟩, ⟨0xFFFF_FFFF, 0, some 0⟩] := by
  have hfresh : withCapacity 0 true = .ok (empty true) := rfl
  have hcount : [FrameRecord.mk 9 7 0xDEAD, ⟨maxFrameSize, 0, 0⟩].length ≤ maxFrames := by decide
  obtain ⟨log, hrecord, -, hread⟩ := parse_append_pieces hfresh hcount (by decide)
  have hlog : (empty true).recordAll [⟨9, 7, 0xDEAD⟩, ⟨maxFrameSize, 0, 0⟩] = .ok log := hrecord
  have hdrained : log.DrainedBy [5, 0, 20, 1000] := by
    cases hlog
    exact ⟨_, rfl, by decide +kernel⟩
  obtain ⟨-, -, -, hbody⟩ := hread _ hdrained
  obtain ⟨table, hparse, hentries, -⟩ := hbody (word Magic.seekable.word)
  refine ⟨log, hrecord, hdrained, table, hparse, hentries.trans ?_⟩
  cases hlog
  decide +kernel

end FrameLog

namespace SeekTable

theorem ext_of_entries {t t' : SeekTable} (hchecksums : t.checksums = t'.checksums)
    (hentries : t.entries.toList = t'.entries.toList) : t = t' := by
  obtain ⟨checksums, entries, uniform⟩ := t
  obtain ⟨checksums', entries', uniform'⟩ := t'
  have harrays : entries = entries' := Array.toList_inj.mp hentries
  cases hchecksums
  cases harrays
  rfl

/-- Recording the entries of a table and handing them out gives its encoding. -/
theorem exists_log_of_table (t : SeekTable) (h : t.entries.size ≤ maxFrames) {capacity : Nat}
    {fresh : FrameLog} (unused : UInt32)
    (hfresh : FrameLog.withCapacity capacity t.checksums = .ok fresh) :
    ∃ log, fresh.recordAll (t.entries.toList.map (FrameRecord.ofEntry unused)) = .ok log ∧
      ∀ rooms, log.DrainedBy rooms → log.pieces rooms = t.encode := by
  have hcount : (t.entries.toList.map (FrameRecord.ofEntry unused)).length ≤ maxFrames := by
    rw [List.length_map, Array.length_toList]
    exact h
  have hfits : ∀ frame ∈ t.entries.toList.map (FrameRecord.ofEntry unused), frame.Fits := by
    intro frame hframe
    obtain ⟨e, -, rfl⟩ := List.mem_map.mp hframe
    exact FrameRecord.fits_ofEntry unused e
  obtain ⟨log, hrecord, hhandout, hchecksums, hentries⟩ :=
    FrameLog.exists_recordAll_fresh hfresh hcount hfits
  refine ⟨log, hrecord, fun rooms hdrained => ?_⟩
  have hsame : log.table = t := by
    apply ext_of_entries hchecksums
    have hentry : ∀ e ∈ t.entries.toList,
        (FrameRecord.entry t.checksums ∘ FrameRecord.ofEntry unused) e = id e := by
      intro e he
      exact FrameRecord.entry_ofEntry (t.uniform e (by simpa using he)) unused
    have hlist : log.table.entries.toList =
        (t.entries.toList.map (FrameRecord.ofEntry unused)).map (FrameRecord.entry t.checksums) :=
      hentries
    rw [hlist, List.map_map, List.map_congr_left hentry, List.map_id]
  rw [FrameLog.pieces_of_drainedBy hhandout hdrained, hsame]

/-- An archive is accepted exactly if it ends in a table as it is written.  There is one
such end; it is as long as the table that is read says, and the table read is the one
written there, with entries of eight bytes, or twelve if there are checksums.  Up to the
limit on their number, recording the entries in a fresh log and handing it out gives these
bytes again. -/
theorem parse_accepts_written_tables (archive : Bytes) :
    ((∃ t, parse archive = .ok t) ↔
      ∃ (t : SeekTable) (block : Bytes), block <:+ archive ∧ t.WrittenAs block) ∧
    (∀ (t : SeekTable) (block : Bytes), block <:+ archive → t.WrittenAs block →
      parse archive = .ok t ∧ t.encodedSize = block.length ∧
        (∀ e ∈ t.entries, (e.words.flatMap word).length = if t.checksums then 12 else 8) ∧
        ∀ (t' : SeekTable) (block' : Bytes), block' <:+ archive → t'.WrittenAs block' →
          block' = block ∧ t' = t) ∧
    ∀ t, parse archive = .ok t → t.entries.size ≤ maxFrames →
      ∀ capacity fresh unused, FrameLog.withCapacity capacity t.checksums = .ok fresh →
        ∃ log, fresh.recordAll (t.entries.toList.map (FrameRecord.ofEntry unused)) = .ok log ∧
          ∀ rooms, log.DrainedBy rooms →
            log.pieces rooms = archive.drop (archive.length - t.encodedSize) := by
  refine ⟨?_, ?_, ?_⟩
  · constructor
    · rintro ⟨t, hparse⟩
      exact ⟨t, parse_eq_ok_iff_writtenAs.mp hparse⟩
    · rintro ⟨t, hwritten⟩
      exact ⟨t, parse_eq_ok_iff_writtenAs.mpr hwritten⟩
  · intro t block hsuffix hwritten
    have hparse := parse_eq_ok_iff_writtenAs.mpr ⟨block, hsuffix, hwritten⟩
    refine ⟨hparse, hwritten.length_eq.symm, ?_, ?_⟩
    · intro e he
      rw [e.length_flatMap_words, t.uniform e he]
    · intro t' block' hsuffix' hwritten'
      have hparse' := parse_eq_ok_iff_writtenAs.mpr ⟨block', hsuffix', hwritten'⟩
      have hsame : t' = t := by
        rw [hparse] at hparse'
        cases hparse'
        rfl
      subst hsame
      refine ⟨?_, rfl⟩
      rw [(writtenAs_iff.mp hwritten).1, (writtenAs_iff.mp hwritten').1]
  · intro t hparse hsize capacity fresh unused hfresh
    obtain ⟨-, -, hdrop⟩ := drop_eq_encode_of_parse hparse
    rw [hdrop]
    exact t.exists_log_of_table hsize unused hfresh

/-- A table without checksums of one frame, behind a body that looks like the beginning of a
table; the bytes that are handed out for it are the end of the archive. -/
theorem parse_accepts_written_table_of_one : ∃ t,
    parse (word Magic.skippable.word ++ [17, 0, 0, 0] ++ (word Magic.skippable.word ++
      [17, 0, 0, 0, 8, 0, 0, 0, 5, 0, 0, 0, 1, 0, 0, 0, 0] ++ word Magic.seekable.word)) = .ok t ∧
    ∃ log, (FrameLog.empty false).recordAll [⟨8, 5, 0⟩] = .ok log ∧
      log.pieces [3, 100] = word Magic.skippable.word ++
        [17, 0, 0, 0, 8, 0, 0, 0, 5, 0, 0, 0, 1, 0, 0, 0, 0] ++ word Magic.seekable.word := by
  obtain ⟨-, hwritten, hrecorded⟩ := parse_accepts_written_tables
    (word Magic.skippable.word ++ [17, 0, 0, 0] ++ (word Magic.skippable.word ++
      [17, 0, 0, 0, 8, 0, 0, 0, 5, 0, 0, 0, 1, 0, 0, 0, 0] ++ word Magic.seekable.word))
  have hparse := (hwritten ⟨false, #[⟨8, 5, none⟩], by simp⟩ _ (List.suffix_append _ _)
    ⟨17, 1, 0, rfl, rfl, rfl, rfl⟩).1
  obtain ⟨log, hlog, hpieces⟩ :=
    hrecorded _ hparse (by decide) 0 (FrameLog.empty false) 0 rfl
  have hrecord : (FrameLog.empty false).recordAll [⟨8, 5, 0⟩] = .ok log := hlog
  have hdrained : log.DrainedBy [3, 100] := by
    cases hrecord
    exact ⟨_, rfl, by decide +kernel⟩
  exact ⟨_, hparse, log, hrecord, hpieces _ hdrained⟩

end SeekTable
end SeekableArchive
