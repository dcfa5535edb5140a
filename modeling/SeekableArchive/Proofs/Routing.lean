import SeekableArchive.Proofs.EagerEngine
import SeekableArchive.Segmentation

/-!
# Where the frames begin and end

The contents of the frames depend on the writes and on the floor only.  What links the
writer to `segments` are the contents that the frames will have had in the end: those of
the ended frames, and the segments of the writes to come that begin with the open frame.
No write changes them.
-/

namespace SeekableArchive

/-- The contents that the frames have in the end if `rest` is still to be written. -/
def Flows.destined (flows : Flows) (floor : Nat) (rest : List Bytes) : List Bytes :=
  flows.ended.map Flow.taken ++ segmentsFrom floor flows.current.taken rest

namespace Flows

@[simp] theorem destined_empty (floor : Nat) (rest : List Bytes) :
    destined {} floor rest = segments floor rest := rfl

theorem destined_of_full {flows : Flows} {floor : Nat} {data last given : Bytes}
    (hfull : floor ≤ flows.current.taken.length) (rest : List Bytes) :
    ((flows.fill [] last).finish.fill data given).destined floor rest =
      flows.destined floor (data :: rest) := by
  simp [destined, segmentsFrom, hfull]

theorem destined_of_not_full {flows : Flows} {floor : Nat} {data given : Bytes}
    (hfull : ¬ floor ≤ flows.current.taken.length) (rest : List Bytes) :
    (flows.fill data given).destined floor rest = flows.destined floor (data :: rest) := by
  simp [destined, segmentsFrom, hfull]

theorem destined_nil_of_empty {flows : Flows} {floor : Nat}
    (hempty : flows.current.taken = []) :
    flows.destined floor [] = flows.ended.map Flow.taken := by
  simp [destined, segmentsFrom, hempty]

theorem destined_nil_of_open {flows : Flows} {floor : Nat}
    (hopen : flows.current.taken ≠ []) (last : Bytes) :
    flows.destined floor [] = (flows.fill [] last).finish.ended.map Flow.taken := by
  simp [destined, segmentsFrom, hopen]

end Flows

namespace Writer

variable {ε σ : Type} [Engine ε] [Sink σ] {w w' : Writer ε σ}

/-- A write ends the open frame exactly if it finds it full. -/
theorem Balanced.write {data : Bytes} (h : w.Balanced) (hrun : w.write data = (.ok (), w')) :
    w'.journal.flows.ended.length = w.journal.flows.ended.length +
        (if w.minFrameSize ≤ w.pendingUncompressed then 1 else 0) ∧
      ∀ rest, w'.journal.flows.destined w.minFrameSize rest =
        w.journal.flows.destined w.minFrameSize (data :: rest) := by
  obtain ⟨-, -, -, last, given, hflows⟩ := h.accept (write_eq_ok h.usable hrun)
  by_cases hfull : w.minFrameSize ≤ w.pendingUncompressed
  · rw [if_pos hfull] at hflows
    rw [hflows, if_pos hfull]
    refine ⟨by simp, fun rest => ?_⟩
    exact Flows.destined_of_full (h.uncompressed ▸ hfull) rest
  · rw [if_neg hfull] at hflows
    rw [hflows, if_neg hfull]
    refine ⟨by simp, fun rest => ?_⟩
    exact Flows.destined_of_not_full (h.uncompressed ▸ hfull) rest

theorem Balanced.destined_accepts {writes : List Bytes} (h : w.Balanced)
    (hrun : w.Accepts writes w') :
    w'.journal.flows.destined w.minFrameSize [] =
      w.journal.flows.destined w.minFrameSize writes := by
  induction writes generalizing w with
  | nil =>
      cases accepts_nil_iff.mp hrun
      rfl
  | cons data writes ih =>
      obtain ⟨v, hwrite, hrest⟩ := accepts_cons_iff.mp hrun
      obtain ⟨hv, hfloor, -, -⟩ := h.accept (write_eq_ok h.usable hwrite)
      rw [← (h.write hwrite).2 writes, ← hfloor]
      exact ih hv hrest

end Writer

namespace CleanRun

variable {ε σ : Type} [Engine ε] [Sink σ] {config : Config} {engine : ε} {sink : σ}
  {limit : Nat} {writes : List Bytes} (run : CleanRun config engine sink limit writes)

theorem taken_ended_closed :
    run.closed.journal.flows.ended.map Flow.taken = segments config.minFrameSize writes := by
  obtain ⟨last, hflows⟩ := run.flows_closed
  have hwritten := run.balanced_opened.destined_accepts run.accepts
  rw [run.flows_opened, run.floor_opened, Flows.destined_empty] at hwritten
  rw [← hwritten, hflows]
  by_cases hopen : 0 < run.written.pendingUncompressed
  · rw [if_pos hopen]
    exact (Flows.destined_nil_of_open (run.balanced_written.1.pending_pos_iff.mp hopen) last).symm
  · rw [if_neg hopen]
    have hempty := run.balanced_written.1.pending_eq_zero_iff.mp (Nat.eq_zero_of_not_pos hopen)
    exact (Flows.destined_nil_of_empty hempty).symm

theorem taken_current_closed : run.closed.journal.flows.current.taken = [] := by
  obtain ⟨last, hflows⟩ := run.flows_closed
  rw [hflows]
  by_cases hopen : 0 < run.written.pendingUncompressed
  · rw [if_pos hopen, Flows.current_finish]
  · rw [if_neg hopen]
    exact run.balanced_written.1.pending_eq_zero_iff.mp (Nat.eq_zero_of_not_pos hopen)

theorem uncompressedSizes :
    (run.closed.frameLog.table.entries.toList.map fun entry => entry.uncompressedSize.toNat) =
      (segments config.minFrameSize writes).map List.length := by
  rw [← run.taken_ended_closed, List.map_map]
  exact run.sealed_closed.described.uncompressedSizes

/-- The writers around one of the writes. -/
theorem balanced_around {before after : List Bytes} {data : Bytes}
    (hsplit : writes = before ++ data :: after) :
    ∃ found left, run.opened.writeAll before =
        (List.replicate before.length (.ok ()), found) ∧ found.write data = (.ok (), left) ∧
      found.Balanced ∧ left.Balanced ∧ left.Accepts after run.written ∧
      found.minFrameSize = config.minFrameSize := by
  obtain ⟨found, hbefore, hrest, hfound, hfloor⟩ := run.balanced_between hsplit
  obtain ⟨left, hwrite, hafter⟩ := Writer.accepts_cons_iff.mp hrest
  obtain ⟨hleft, -⟩ := hfound.accept (Writer.write_eq_ok hfound.usable hwrite)
  exact ⟨found, left, hbefore, hwrite, hfound, hleft, hafter, hfloor⟩

theorem length_ended_closed : run.closed.journal.flows.ended.length =
    run.written.journal.flows.ended.length +
      (if 0 < run.written.pendingUncompressed then 1 else 0) := by
  obtain ⟨last, hflows⟩ := run.flows_closed
  rw [hflows]
  by_cases hopen : 0 < run.written.pendingUncompressed
  · rw [if_pos hopen, if_pos hopen, Flows.ended_finish, Flows.ended_fill, List.length_append,
      List.length_singleton]
  · rw [if_neg hopen, if_neg hopen, Nat.add_zero]

/-- Every recorded frame holds something, and every one but the last reaches the floor. -/
theorem uncompressedSize_bounds :
    (∀ entry ∈ run.closed.frameLog.table.entries.toList, 0 < entry.uncompressedSize.toNat) ∧
      ∀ entry ∈ run.closed.frameLog.table.entries.toList.dropLast,
        config.minFrameSize ≤ entry.uncompressedSize.toNat := by
  have hsizes := run.uncompressedSizes
  constructor
  · intro entry hentry
    have hmem : entry.uncompressedSize.toNat ∈
        (segments config.minFrameSize writes).map List.length :=
      hsizes ▸ List.mem_map_of_mem hentry
    obtain ⟨segment, hsegment, hlength⟩ := List.mem_map.mp hmem
    rw [← hlength, List.length_pos_iff]
    exact ne_nil_of_mem_segmentsFrom run.valid.floor_pos hsegment
  · intro entry hentry
    have hmem : entry.uncompressedSize.toNat ∈
        ((segments config.minFrameSize writes).map List.length).dropLast := by
      rw [← hsizes, ← List.map_dropLast]
      exact List.mem_map_of_mem hentry
    rw [← List.map_dropLast] at hmem
    obtain ⟨segment, hsegment, hlength⟩ := List.mem_map.mp hmem
    rw [← hlength]
    exact floor_le_of_mem_dropLast_segmentsFrom hsegment

/-- The engine is fed the segments of the writes, whatever it makes of each call: what it
takes in between two frame ends is one segment, and the last frame that it ends is the last
segment.  A write ends a frame exactly if it finds the floor reached, and the close exactly
if it finds anything. -/
theorem engine_is_fed_segments :
    run.closed.journal.flows.ended.map Flow.taken = segments config.minFrameSize writes ∧
      run.closed.journal.flows.current.taken = [] ∧
      (run.closed.journal.flows.ended.map Flow.taken).flatten = writes.flatten ∧
      (run.closed.frameLog.table.entries.toList.map fun entry =>
        entry.uncompressedSize.toNat) =
        (segments config.minFrameSize writes).map List.length ∧
      (∀ before data after, writes = before ++ data :: after →
        ∃ found left, run.opened.writeAll before =
            (List.replicate before.length (.ok ()), found) ∧ found.write data = (.ok (), left) ∧
          found.pendingUncompressed = found.journal.flows.current.taken.length ∧
          found.frames = found.journal.flows.ended.length ∧
          left.frames = left.journal.flows.ended.length ∧
          left.journal.flows.ended.length = found.journal.flows.ended.length +
            (if config.minFrameSize ≤ found.pendingUncompressed then 1 else 0)) ∧
      run.closed.journal.flows.ended.length = run.written.journal.flows.ended.length +
        (if 0 < run.written.pendingUncompressed then 1 else 0) ∧
      (∀ entry ∈ run.closed.frameLog.table.entries.toList,
        0 < entry.uncompressedSize.toNat) ∧
      ∀ entry ∈ run.closed.frameLog.table.entries.toList.dropLast,
        config.minFrameSize ≤ entry.uncompressedSize.toNat := by
  have htaken := run.taken_ended_closed
  obtain ⟨hpositive, hfloors⟩ := run.uncompressedSize_bounds
  refine ⟨htaken, run.taken_current_closed, ?_, run.uncompressedSizes, ?_,
    run.length_ended_closed, hpositive, hfloors⟩
  · rw [htaken, flatten_segments]
  · intro before data after hsplit
    obtain ⟨found, left, hbefore, hwrite, hfound, hleft, -, hfloor⟩ :=
      run.balanced_around hsplit
    have hended := (hfound.write hwrite).1
    rw [hfloor] at hended
    exact ⟨found, left, hbefore, hwrite, hfound.uncompressed, hfound.described.size_eq,
      hleft.described.size_eq, hended⟩

/-- A run in which an empty write ends the first frame. -/
theorem eager_engine_is_fed_segments :
    EagerEngine.run.closed.journal.flows.ended.map Flow.taken = [[1, 2, 3, 4, 5, 6, 7], [8]] :=
  EagerEngine.run.engine_is_fed_segments.1

end CleanRun

end SeekableArchive
