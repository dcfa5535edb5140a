import SeekableArchive.Proofs.Accounting
import SeekableArchive.Proofs.EagerEngine
import SeekableArchive.Proofs.Poisoning
import SeekableArchive.Proofs.Routing

/-!
# The checksums in a table

A frame is made up of whole writes, and only empty ones may be left over at the end.  If
checksums are kept, the table has for each frame the hash of its writes, one after the
other; if not, it has none and its entries are narrower.
-/

namespace SeekableArchive

/-- The segments are made up of whole writes, of which only empty ones are left over. -/
theorem exists_batchesFrom (floor : Nat) (batch writes : List Bytes) :
    ∃ (batches : List (List Bytes)) (left : List Bytes),
      batch ++ writes = batches.flatten ++ left ∧ left.flatten = [] ∧
        batches.map List.flatten = segmentsFrom floor batch.flatten writes := by
  induction writes generalizing batch with
  | nil =>
      by_cases hbatch : batch.flatten = []
      · exact ⟨[], batch, by simp, hbatch, by simp [segmentsFrom, hbatch]⟩
      · exact ⟨[batch], [], by simp, rfl, by simp [segmentsFrom, hbatch]⟩
  | cons data writes ih =>
      by_cases hfull : floor ≤ batch.flatten.length
      · obtain ⟨batches, left, hwrites, hleft, hsegments⟩ := ih [data]
        refine ⟨batch :: batches, left, ?_, hleft, ?_⟩
        · rw [List.flatten_cons, List.append_assoc, ← hwrites, List.singleton_append]
        · rw [List.map_cons, hsegments, segmentsFrom, if_pos hfull, List.flatten_singleton]
      · obtain ⟨batches, left, hwrites, hleft, hsegments⟩ := ih (batch ++ [data])
        refine ⟨batches, left, ?_, hleft, ?_⟩
        · rw [← hwrites, List.append_assoc, List.singleton_append]
        · rw [hsegments, segmentsFrom, if_neg hfull, List.flatten_append, List.flatten_singleton]

/-- The checksum that a table keeps of a content. -/
def keptChecksum (checksums : Bool) (content : Bytes) : Option UInt32 :=
  if checksums then some (Xxh64.checksum content) else none

theorem FrameLog.Describes.checksums {log : FrameLog} {ended : List Flow}
    (h : log.Describes ended) :
    log.table.entries.toList.map FrameEntry.checksum =
      ended.map fun flow => keptChecksum log.checksums flow.taken := by
  have hchecksums := List.rel_map (P := Eq) (fun _ _ hentry => hentry.checksum) h
  rwa [List.forall₂_eq_eq_eq] at hchecksums

namespace Writer

variable {ε σ : Type} [Engine ε] [Sink σ] {w : Writer ε σ}

theorem checksums_stable (flag : Bool) :
    Action.Stable (fun w : Writer ε σ => w.frameLog.checksums = flag)
      fun w => w.frameLog.checksums = flag where
  halts _ hw := hw
  compress _ _ _ := Action.ensures_onEngine fun _ _ _ hw => hw
  append _ := (Action.ensures_onSink fun _ _ _ hw => hw).bind fun _ =>
    Action.ensures_modify fun _ hw => hw
  record := by
    apply Action.ensures_recordFrame
    · exact fun _ hw => hw
    · intro w frameLog hrecord hw
      obtain ⟨-, -, -, -, -, htable⟩ := FrameLog.record_eq_ok_iff.mp hrecord
      exact (congrArg SeekTable.checksums htable).trans hw

theorem checksums_upheld (flag : Bool) :
    Upheld (fun w : Writer ε σ => w.frameLog.checksums = flag)
      fun w => w.frameLog.checksums = flag where
  accept _ := (checksums_stable flag).accept fun _ hw => hw
  poison _ hw := hw
  hang hw := hw

theorem checksums_complete (flag : Bool) :
    Action.Ensures (fun w : Writer ε σ => w.frameLog.checksums = flag) Action.complete
      (fun _ w => w.frameLog.checksums = flag) fun w => w.frameLog.checksums = flag := by
  apply (checksums_stable flag).complete
  · exact fun _ _ hw => hw
  · exact fun _ => Action.ensures_onSink fun _ _ _ hw => hw
  · exact fun _ _ hw => hw

end Writer

namespace CleanRun

variable {ε σ : Type} [Engine ε] [Sink σ] {config : Config} {engine : ε} {sink : σ}
  {limit : Nat} {writes : List Bytes} (run : CleanRun config engine sink limit writes)

theorem checksums_closed : run.closed.frameLog.checksums = config.checksums := by
  have hopened : run.opened.frameLog.checksums = config.checksums := by
    obtain ⟨-, e, j, -, -, -, hfresh⟩ := Writer.openWith_eq_ok run.opens
    rw [hfresh]
    rfl
  have hwritten := (Writer.checksums_upheld config.checksums).keeps_accepts
    run.balanced_opened.usable hopened run.accepts
  obtain ⟨-, v, s, hcomplete, -, -, hclosed⟩ := Writer.close_eq_ok run.closes
  have hv := (Writer.checksums_complete config.checksums).of_eq_ok hwritten hcomplete
  rwa [hclosed]

/-- The checksums are those of the segments. -/
theorem checksums_eq : run.closed.frameLog.table.entries.toList.map FrameEntry.checksum =
    (segments config.minFrameSize writes).map (keptChecksum config.checksums) := by
  rw [run.sealed_closed.described.checksums, run.checksums_closed, ← run.taken_ended_closed,
    List.map_map]
  rfl

end CleanRun

namespace Writer

variable {ε σ : Type} [Engine ε] [Sink σ]

/-- The table that is read back has for each frame the checksum of the writes that make up the
frame, or nothing but narrow entries without one.  It does not matter in how many writes a
content came, in which pieces the engine took it in, or what ended the frame. -/
theorem frame_checksums_are_recorded {config : Config} {engine : ε} {sink : σ} {limit : Nat}
    {opened written closed : Writer ε σ} {writes : List Bytes}
    {answers : List (Except Halt Unit)} {summary : Summary}
    (hopen : openWith config (.ok engine) (.ok sink) limit = .ok opened)
    (hwrites : opened.writeAll writes = (answers, written))
    (hclose : written.close = (.ok summary, closed))
    (appending : Sink.Appending σ) (hempty : appending.contents sink = []) :
    ∃ (table : SeekTable) (body : Bytes) (batches : List (List Bytes)) (left : List Bytes),
      SeekTable.parse (appending.contents closed.sink) = .ok table ∧
      appending.contents closed.sink = body ++ table.encode ∧
      writes = batches.flatten ++ left ∧ left.flatten = [] ∧
      batches.map List.flatten = segments config.minFrameSize writes ∧
      closed.journal.flows.ended.map Flow.taken = batches.map List.flatten ∧
      table.checksums = config.checksums ∧
      (config.checksums = true → table.entries.toList.map FrameEntry.checksum =
        batches.map fun batch => some (Xxh64.checksum batch.flatten)) ∧
      (config.checksums = false →
        ∀ entry ∈ table.entries, entry.checksum = none ∧ entry.encode.length = 8) := by
  let run := CleanRun.ofClosed hopen hwrites hclose
  obtain ⟨batches, left, hbatches, hleft, hsegments⟩ :=
    exists_batchesFrom config.minFrameSize [] writes
  have hsegments : batches.map List.flatten = segments config.minFrameSize writes := hsegments
  have hparse := (run.summary_matches_table hempty).1
  have hstored := (run.whole_closed hempty).contents.trans run.sealed_closed.stored
  have htaken := run.taken_ended_closed
  have hchecksums := run.checksums_eq
  rw [← hsegments] at htaken hchecksums
  refine ⟨run.closed.frameLog.table, run.closed.journal.flows.given, batches, left, hparse,
    hstored, hbatches, hleft, hsegments, htaken, run.checksums_closed, ?_, ?_⟩
  · intro hflag
    simp only [hchecksums, hflag, keptChecksum, if_true, List.map_map, Function.comp_def]
  · intro hflag entry hentry
    have hnone : entry.checksum = none := by
      have hmem := List.mem_map_of_mem (f := FrameEntry.checksum) (Array.mem_toList_iff.mpr hentry)
      rw [hchecksums, hflag] at hmem
      obtain ⟨content, -, hcontent⟩ := List.mem_map.mp hmem
      exact hcontent.symm
    rw [FrameEntry.length_encode, hnone]
    exact ⟨rfl, rfl⟩

end Writer

/-- The first frame is written in three pieces and ended by an empty write, the second by the
close. -/
def EagerEngine.checkedRun : CleanRun { EagerEngine.config with checksums := true }
    ({} : EagerEngine) ({} : MemorySink) 4 [[1, 2, 3], [], [4, 5, 6, 7], [], [8]] :=
  .ofAnswers ⟨2, 8, 59⟩ rfl (by decide +kernel) (by decide +kernel)

theorem Writer.frame_checksums_are_recorded_of_pieces : ∃ table : SeekTable,
    SeekTable.parse (MemorySink.appending.contents EagerEngine.checkedRun.closed.sink) =
        .ok table ∧
      table.entries.toList.map FrameEntry.checksum =
        [some (Xxh64.checksum [1, 2, 3, 4, 5, 6, 7]), some (Xxh64.checksum [8])] := by
  have hframes : EagerEngine.checkedRun.closed.journal.flows.ended.map Flow.taken =
      [[1, 2, 3, 4, 5, 6, 7], [8]] := by
    decide +kernel
  obtain ⟨table, -, batches, -, hparse, -, -, -, -, htaken, -, hchecksums, -⟩ :=
    Writer.frame_checksums_are_recorded EagerEngine.checkedRun.opens
      EagerEngine.checkedRun.accepts EagerEngine.checkedRun.closes MemorySink.appending rfl
  refine ⟨table, hparse, ?_⟩
  rw [hframes] at htaken
  have hhashes := congrArg (List.map fun content => some (Xxh64.checksum content)) htaken
  rw [List.map_map] at hhashes
  exact (hchecksums rfl).trans hhashes.symm

end SeekableArchive
