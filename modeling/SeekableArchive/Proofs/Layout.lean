import SeekableArchive.Proofs.Contents
import SeekableArchive.Proofs.Routing
import SeekableArchive.Verification

/-!
# The layout of an archive

An archive begins with the frames, each as the engine gave it out, and ends with the
table, whose compressed sizes cut the frames out of it.  In between lies what the engine
gave out of a frame that was never ended; the table does not account for it.
-/

namespace SeekableArchive

namespace SeekTable

/-- Ranges of the sizes of some byte strings cut these out of their concatenation. -/
theorem slices_rangesFrom {entries : List FrameEntry} {frames : List Bytes}
    (h : (entries.map fun entry => entry.compressedSize.toNat) = frames.map List.length)
    (front rest : Bytes) :
    ((rangesFrom front.length entries).map fun range =>
      range.slice (front ++ (frames.flatten ++ rest))) = frames := by
  induction entries generalizing frames front with
  | nil =>
      have hnil : frames = [] := by simpa using h.symm
      simp [rangesFrom, hnil]
  | cons entry entries ih =>
      obtain - | ⟨frame, frames⟩ := frames
      · simp at h
      · obtain ⟨hsize, hsizes⟩ := List.cons.inj h
        have htail := ih hsizes (front ++ frame)
        simp only [rangesFrom, List.map_cons, List.flatten_cons, hsize]
        rw [List.length_append] at htail
        congr 1
        · simp [Range.slice, List.append_assoc]
        · simpa [List.append_assoc] using htail

theorem totalCompressed_eq {t : SeekTable} {frames : List Bytes}
    (h : (t.entries.toList.map fun entry => entry.compressedSize.toNat) =
      frames.map List.length) : t.totalCompressed = frames.flatten.length := by
  rw [totalCompressed, h, List.length_flatten]
  rfl

end SeekTable

theorem checkFrame_ne_coverage {decode : Bytes → Except String Bytes} {index : Nat}
    {entry : FrameEntry} {frame : Bytes} {covered body : Nat} :
    checkFrame decode index entry frame ≠ .error (.coverage covered body) := by
  intro h
  simp only [checkFrame] at h
  split at h
  · cases h
  · split at h
    · cases h
    · split at h
      · cases h
      · split at h <;> cases h

theorem checkFrames_ne_coverage {decode : Bytes → Except String Bytes} {index : Nat}
    {entries : List FrameEntry} {front : Bytes} {contents : List Bytes} {covered body : Nat} :
    checkFrames decode index entries front contents ≠ .error (.coverage covered body) := by
  induction entries generalizing index front contents with
  | nil => simp [checkFrames]
  | cons entry entries ih =>
      simp only [checkFrames]
      cases hframe : checkFrame decode index entry (front.take entry.compressedSize.toNat) with
      | error defect =>
          intro h
          cases h
          exact checkFrame_ne_coverage hframe
      | ok content => exact ih

namespace Writer

variable {ε σ : Type} [Engine ε] [Sink σ] {w w' : Writer ε σ}

/-- What a write brings is at the end of the open frame. -/
theorem Balanced.taken_write {data : Bytes} (h : w.Balanced)
    (hrun : w.write data = (.ok (), w')) : data <:+ w'.journal.flows.current.taken := by
  obtain ⟨-, -, -, last, given, hflows⟩ := h.accept (write_eq_ok h.usable hrun)
  rw [hflows, Flows.taken_fill]
  exact List.suffix_append _ data

/-- As long as no frame is ended the open frame only grows. -/
theorem Balanced.taken_accepts {writes : List Bytes} (h : w.Balanced)
    (hrun : w.Accepts writes w') :
    w.journal.flows.ended.length ≤ w'.journal.flows.ended.length ∧
      (w'.journal.flows.ended.length = w.journal.flows.ended.length →
        w.journal.flows.current.taken <+: w'.journal.flows.current.taken) := by
  induction writes generalizing w with
  | nil =>
      cases accepts_nil_iff.mp hrun
      exact ⟨Nat.le_refl _, fun _ => List.prefix_refl _⟩
  | cons data writes ih =>
      obtain ⟨v, hwrite, hrest⟩ := accepts_cons_iff.mp hrun
      obtain ⟨hv, -, -, last, given, hflows⟩ := h.accept (write_eq_ok h.usable hwrite)
      obtain ⟨hle, hgrows⟩ := ih hv hrest
      by_cases hfull : w.minFrameSize ≤ w.pendingUncompressed
      · rw [if_pos hfull] at hflows
        have hmore : v.journal.flows.ended.length = w.journal.flows.ended.length + 1 := by
          simp [hflows]
        exact ⟨by omega, fun hsame => by omega⟩
      · rw [if_neg hfull] at hflows
        have hsame : v.journal.flows.ended.length = w.journal.flows.ended.length := by
          simp [hflows]
        refine ⟨by omega, fun hend => ?_⟩
        have hgrown : w.journal.flows.current.taken <+: v.journal.flows.current.taken := by
          rw [hflows, Flows.taken_fill]
          exact List.prefix_append _ data
        exact hgrown.trans (hgrows (by omega))

end Writer

namespace CleanRun

variable {ε σ : Type} [Engine ε] [Sink σ] {config : Config} {engine : ε} {sink : σ}
  {limit : Nat} {writes : List Bytes} (run : CleanRun config engine sink limit writes)

theorem compressedSizes :
    (run.closed.frameLog.table.entries.toList.map fun entry => entry.compressedSize.toNat) =
      (run.closed.journal.flows.ended.map Flow.given).map List.length := by
  rw [List.map_map]
  exact run.sealed_closed.described.compressedSizes

theorem contents_eq (accepting : Sink.Accepting σ) (hopen : accepting.IsOpen sink)
    (hempty : accepting.contents sink = []) :
    accepting.contents run.closed.sink =
      (run.closed.journal.flows.ended.map Flow.given).flatten ++
        run.closed.journal.flows.current.given ++ run.closed.frameLog.table.encode := by
  rw [run.contents_closed accepting hopen hempty, run.sealed_closed.stored, Flows.given]

/-- What is left of the open frame by the end of the run. -/
theorem given_current_closed : run.closed.journal.flows.current.given =
    if run.written.pendingUncompressed = 0 then run.written.journal.flows.current.given
    else [] := by
  obtain ⟨last, hflows⟩ := run.flows_closed
  rw [hflows]
  by_cases hpending : run.written.pendingUncompressed = 0
  · rw [if_pos hpending, if_neg (by omega)]
  · rw [if_neg hpending, if_pos (by omega), Flows.current_finish]

/-- A write after which no frame is ended any more brings nothing. -/
theorem eq_nil_of_last_end {found left : Writer ε σ} {before after : List Bytes} {data : Bytes}
    (hsplit : writes = before ++ data :: after)
    (hbefore : run.opened.Accepts before found) (hwrite : found.write data = (.ok (), left))
    (hlast : left.journal.flows.ended.length = run.closed.journal.flows.ended.length) :
    data = [] := by
  subst hsplit
  obtain ⟨found', hbefore', hrest⟩ := Writer.accepts_append_iff.mp run.accepts
  obtain ⟨left', hwrite', hafter⟩ := Writer.accepts_cons_iff.mp hrest
  have hfound' : found' = found := congrArg Prod.snd (hbefore'.symm.trans hbefore)
  subst hfound'
  have hleft' : left' = left := congrArg Prod.snd (hwrite'.symm.trans hwrite)
  subst hleft'
  obtain ⟨hfound, -⟩ := run.balanced_opened.accepts hbefore
  obtain ⟨hleft, -⟩ := hfound.accept (Writer.write_eq_ok hfound.usable hwrite)
  -- From then on the open frame only grows, and the close finds nothing in it.
  obtain ⟨hle, hgrows⟩ := hleft.taken_accepts hafter
  have hclosed := run.length_ended_closed
  have hpending : run.written.pendingUncompressed = 0 := by
    by_contra hopen
    rw [if_pos (Nat.pos_of_ne_zero hopen)] at hclosed
    omega
  rw [if_neg (by omega), Nat.add_zero] at hclosed
  have hnothing := run.balanced_written.1.pending_eq_zero_iff.mp hpending
  have htaken := hgrows (by omega)
  rw [hnothing, List.prefix_nil] at htaken
  have hdata := hfound.taken_write hwrite
  rwa [htaken, List.suffix_nil] at hdata

/-- The archive is made up of the frames as the engine gave them out, of what it gave out
after the last frame end, and of the table.  The table cuts out the frames, and every write
since the last frame end was empty. -/
theorem archive_layout (accepting : Sink.Accepting σ) (hopen : accepting.IsOpen sink)
    (hempty : accepting.contents sink = []) :
    accepting.contents run.closed.sink =
        (run.closed.journal.flows.ended.map Flow.given).flatten ++
          run.closed.journal.flows.current.given ++ run.closed.frameLog.table.encode ∧
      run.closed.frameLog.table.entries.size = run.closed.journal.flows.ended.length ∧
      (run.closed.frameLog.table.entries.toList.map fun entry => entry.compressedSize.toNat) =
        (run.closed.journal.flows.ended.map Flow.given).map List.length ∧
      SeekTable.parse (accepting.contents run.closed.sink) = .ok run.closed.frameLog.table ∧
      (run.closed.frameLog.table.frameRanges.map fun range =>
        range.slice (accepting.contents run.closed.sink)) =
        run.closed.journal.flows.ended.map Flow.given ∧
      ∀ before data after, writes = before ++ data :: after →
        ∃ found left, run.opened.writeAll before =
            (List.replicate before.length (.ok ()), found) ∧ found.write data = (.ok (), left) ∧
          (left.journal.flows.ended.length = run.closed.journal.flows.ended.length →
            data = []) := by
  have hcontents := run.contents_eq accepting hopen hempty
  refine ⟨hcontents, run.sealed_closed.described.size_eq, run.compressedSizes, ?_, ?_, ?_⟩
  · rw [hcontents]
    exact SeekTable.parse_append_encode _ run.closed.frameLog.bounded _
  · rw [hcontents, List.append_assoc]
    exact SeekTable.slices_rangesFrom run.compressedSizes [] _
  · intro before data after hsplit
    obtain ⟨found, left, hbefore, hwrite, -⟩ := run.balanced_around hsplit
    exact ⟨found, left, hbefore, hwrite, run.eq_nil_of_last_end hsplit hbefore hwrite⟩

/-- The layout of an archive of two frames. -/
theorem eager_archive_layout :
    MemorySink.accepting.contents EagerEngine.run.closed.sink =
      [0xF0, 3, 0, 0, 1, 2, 3, 4, 5, 6, 7, 0xFE, 0xF0, 3, 0, 0, 8, 0xFE] ++ [] ++
        EagerEngine.run.closed.frameLog.table.encode := by
  have hframes : EagerEngine.run.closed.journal.flows.ended.map Flow.given =
      [[0xF0, 3, 0, 0, 1, 2, 3, 4, 5, 6, 7, 0xFE], [0xF0, 3, 0, 0, 8, 0xFE]] := by
    decide +kernel
  have hloose : EagerEngine.run.closed.journal.flows.current.given = [] := by
    decide +kernel
  have hlayout := (EagerEngine.run.archive_layout MemorySink.accepting rfl rfl).1
  rw [hframes, hloose] at hlayout
  exact hlayout

end CleanRun

end SeekableArchive
