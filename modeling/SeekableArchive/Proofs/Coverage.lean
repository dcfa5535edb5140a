import SeekableArchive.Proofs.Layout

/-!
# Whether the table covers the archive

The table accounts for every byte in front of it, unless the writer, when it is closed,
has stored output of a frame that has taken in nothing.  Such a frame is not ended, and
a verifier rejects the archive.
-/

namespace SeekableArchive
namespace CleanRun

variable {ε σ : Type} [Engine ε] [Sink σ] {config : Config} {engine : ε} {sink : σ}
  {limit : Nat} {writes : List Bytes} (run : CleanRun config engine sink limit writes)

/-- Something is given out of a frame that is not ended exactly if the close finds output
of the open frame, but no input. -/
theorem given_current_closed_ne_nil_iff : run.closed.journal.flows.current.given ≠ [] ↔
    run.written.pendingUncompressed = 0 ∧ 0 < run.written.pendingCompressed := by
  rw [run.given_current_closed, run.balanced_written.1.compressed, List.length_pos_iff]
  by_cases hpending : run.written.pendingUncompressed = 0
  · simp [hpending]
  · simp [hpending]

variable (accepting : Sink.Accepting σ)

theorem length_contents (hopen : accepting.IsOpen sink)
    (hempty : accepting.contents sink = []) :
    (accepting.contents run.closed.sink).length =
      run.closed.frameLog.table.totalCompressed +
        run.closed.journal.flows.current.given.length +
        run.closed.frameLog.table.encodedSize := by
  rw [run.contents_eq accepting hopen hempty, SeekTable.totalCompressed_eq run.compressedSizes,
    List.length_append, List.length_append, SeekTable.length_encode]

/-- The compressed sizes and the size of the table add up to the size of the archive, and
verification finds the frames to cover it, unless the close finds output of the open frame
but no input. -/
theorem table_covers_archive_iff (hopen : accepting.IsOpen sink) (hempty : accepting.contents sink = [])
    (decode : Bytes → Except String Bytes) :
    (run.closed.frameLog.table.totalCompressed + run.closed.frameLog.table.encodedSize =
        (accepting.contents run.closed.sink).length ↔
      ¬ (run.written.pendingUncompressed = 0 ∧ 0 < run.written.pendingCompressed)) ∧
    ((∃ covered body, decodeFramesWith decode (accepting.contents run.closed.sink) =
        .error (.coverage covered body)) ↔
      run.written.pendingUncompressed = 0 ∧ 0 < run.written.pendingCompressed) := by
  have hlength := run.length_contents accepting hopen hempty
  have hparse : SeekTable.parse (accepting.contents run.closed.sink) =
      .ok run.closed.frameLog.table := by
    rw [run.contents_eq accepting hopen hempty]
    exact SeekTable.parse_append_encode _ run.closed.frameLog.bounded _
  have hbody : (accepting.contents run.closed.sink).length -
      run.closed.frameLog.table.encodedSize = run.closed.frameLog.table.totalCompressed +
        run.closed.journal.flows.current.given.length := by
    omega
  rw [← run.given_current_closed_ne_nil_iff, ← List.length_pos_iff]
  refine ⟨by omega, ?_⟩
  simp only [decodeFramesWith, hparse, hbody]
  by_cases hgiven : run.closed.journal.flows.current.given.length = 0
  · simp [hgiven, checkFrames_ne_coverage]
  · rw [if_pos (by omega)]
    exact ⟨fun _ => Nat.pos_of_ne_zero hgiven, fun _ => ⟨_, _, rfl⟩⟩

/-- An engine that begins its frames early respects its buffers, and yet the archive that
is closed after one empty write holds four bytes for which the table does not account. -/
theorem eager_empty_write_uncovered : Engine.RespectsBuffers EagerEngine ∧
    ∃ run : CleanRun EagerEngine.config ({} : EagerEngine) ({} : MemorySink) 4 [[]],
      run.closed.frameLog.table.totalCompressed + run.closed.frameLog.table.encodedSize ≠
        (MemorySink.accepting.contents run.closed.sink).length ∧
      decodeFrames (MemorySink.accepting.contents run.closed.sink) = .error (.coverage 0 4) := by
  refine ⟨EagerEngine.respectsBuffers, EagerEngine.emptyWriteRun, ?_, ?_⟩
  · decide +kernel
  · decide +kernel

/-- The close finds four bytes of output but no input, and verification fails. -/
theorem eager_archive_uncovered : ∃ covered body,
    decodeFrames (MemorySink.accepting.contents EagerEngine.emptyWriteRun.closed.sink) =
      .error (.coverage covered body) := by
  apply (EagerEngine.emptyWriteRun.table_covers_archive_iff MemorySink.accepting rfl rfl _).2.mpr
  decide +kernel

end CleanRun
end SeekableArchive
