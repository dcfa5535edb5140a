import SeekableArchive.Proofs.EagerEngine
import SeekableArchive.Proofs.Lockstep
import SeekableArchive.Proofs.Progress
import SeekableArchive.Proofs.TableChunks

/-!
# The table and the size of its chunks

A writer offers nothing but engine output until a close gets past the frame end; then it
offers the table, and nothing after it.  The size of the chunks in which it does so shows
nowhere else: two writers that differ in it run in lockstep, and over a sink that accepts
everything the archives are the same.
-/

namespace SeekableArchive

namespace Writer

variable {ε σ : Type}

/-- The writers differ at most in their journals and in the size of their chunks. -/
def Alike (w w' : Writer ε σ) : Prop :=
  ∃ journal footerChunkSize, w' = { w with journal, footerChunkSize }

/-- The second writer differs in its chunks, which have that size, and in its journal as `r`
allows. -/
def Resized (size : Nat) (r : Journal → Journal → Prop) (w w' : Writer ε σ) : Prop :=
  ∃ journal, w' = { w with journal, footerChunkSize := size } ∧ r w.journal journal

theorem alike_iff_exists_resized {w w' : Writer ε σ} :
    w.Alike w' ↔ ∃ size, Resized size (fun _ _ => True) w w' := by
  simp only [Alike, Resized, and_true]
  exact exists_comm

end Writer

namespace Action

open Writer (Resized)

variable {ε σ : Type} [Sink σ] {size : Nat} {r : Journal → Journal → Prop}

theorem resized_offer (hnote : ∀ j j' event, r j j' → r (j.note event) (j'.note event))
    (chunk : Bytes) :
    Lockstep (Resized size r : Writer ε σ → Writer ε σ → Prop) (onSink (Sink.writeFully chunk))
      (onSink (Sink.writeFully chunk)) := by
  rintro w _ ⟨j, rfl, hr⟩
  by_cases hchunk : chunk = []
  · rw [hchunk]
    exact .inl ⟨(), w, _, rfl, rfl, j, rfl, hr⟩
  · rw [run_offer hchunk, run_offer hchunk]
    dsimp only
    cases Sink.write chunk w.sink with
    | error error s => exact .inr ⟨_, _, _, rfl, rfl, _, rfl, hnote _ _ _ hr⟩
    | ok accepted s =>
        by_cases hshort : accepted < chunk.length
        · simp only [if_pos hshort]
          exact .inr ⟨_, _, _, rfl, rfl, _, rfl, hnote _ _ _ hr⟩
        · simp only [if_neg hshort]
          exact .inl ⟨_, _, _, rfl, rfl, _, rfl, hnote _ _ _ hr⟩

variable [Engine ε]

/-- The size of the chunks shows nowhere but where the table is written. -/
theorem resized_coupled (hnote : ∀ j j' event, r j j' → r (j.note event) (j'.note event)) :
    Coupled (Resized size r : Writer ε σ → Writer ε σ → Prop) where
  room := by
    rintro w _ ⟨j, rfl, -⟩
    rfl
  limit := by
    rintro w _ ⟨j, rfl, -⟩
    rfl
  floor := by
    rintro w _ ⟨j, rfl, -⟩
    rfl
  pending := by
    rintro w _ ⟨j, rfl, -⟩
    rfl
  compress mode input room := by
    rintro w _ ⟨j, rfl, hr⟩
    rw [run_compress, run_compress]
    dsimp only
    cases Engine.compress mode input room w.engine with
    | error error e => exact .inr ⟨_, _, _, rfl, rfl, _, rfl, hnote _ _ _ hr⟩
    | ok step e => exact .inl ⟨_, _, _, rfl, rfl, _, rfl, hnote _ _ _ hr⟩
  append chunk := by
    apply (resized_offer hnote chunk).bind
    intro _
    apply lockstep_modify
    rintro w _ ⟨j, rfl, hr⟩
    exact ⟨j, rfl, hr⟩
  record := by
    rintro w _ ⟨j, rfl, hr⟩
    have hchecksum : frameChecksum { w with journal := j, footerChunkSize := size } =
        frameChecksum w := rfl
    rw [run_recordFrame, run_recordFrame, hchecksum]
    dsimp only
    cases w.frameLog.record w.pendingCompressed w.pendingUncompressed (frameChecksum w) with
    | error fault => exact .inr ⟨_, _, _, rfl, rfl, _, rfl, hr⟩
    | ok frameLog => exact .inl ⟨_, _, _, rfl, rfl, _, rfl, hnote _ _ _ hr⟩
  credit data := by
    rintro ⟨j, rfl, hr⟩
    exact ⟨j, rfl, hr⟩

end Action

namespace Writer

variable {ε σ : Type} [Engine ε] [Sink σ] {w w' : Writer ε σ} {size : Nat}
  {r : Journal → Journal → Prop}

theorem resized_companion (hnote : ∀ j j' event, r j j' → r (j.note event) (j'.note event)) :
    Companion (Resized size r : Writer ε σ → Writer ε σ → Prop) fun _ _ _ => False where
  toFollower := (Action.resized_coupled hnote).follower
  status := by
    rintro w _ ⟨j, rfl, -⟩
    rfl
  poison error := by
    rintro ⟨j, rfl, hr⟩
    exact ⟨_, rfl, hnote _ _ _ hr⟩
  hang := by
    rintro w _ ⟨j, rfl, hr⟩
    exact ⟨j, rfl, hr⟩

omit [Engine ε] [Sink σ] in
theorem Resized.pending_iff (h : Resized size r w w') :
    0 < w.pendingUncompressed ↔ 0 < w'.pendingUncompressed := by
  obtain ⟨j, rfl, -⟩ := h
  rfl

omit [Engine ε] [Sink σ] in
theorem Alike.status_eq (h : w.Alike w') : w'.status = w.status := by
  obtain ⟨j, size, rfl⟩ := h
  rfl

theorem Alike.writeAll (h : w.Alike w') (writes : List Bytes) :
    (w.writeAll writes).1 = (w'.writeAll writes).1 ∧
      (w.writeAll writes).2.Alike (w'.writeAll writes).2 := by
  obtain ⟨size, hw⟩ := alike_iff_exists_resized.mp h
  obtain ⟨hanswers, hlast⟩ :=
    (resized_companion fun _ _ _ _ => trivial).inStep hw writes writes List.prefix_rfl
  exact ⟨hanswers, alike_iff_exists_resized.mpr ⟨size, hlast⟩⟩

theorem alike_opened {config : Config} {size : Nat} {engine : Except ArchiveError ε}
    {sink : Except SinkError σ} {limit : Nat}
    (h : openWith config engine sink limit = .ok w)
    (h' : openWith { config with footerChunkSize := size } engine sink limit = .ok w') :
    w.Alike w' := by
  obtain ⟨e, s, rfl, rfl⟩ := exists_of_opened h
  obtain ⟨hvalid, -⟩ := openWith_eq_ok h
  obtain ⟨hvalid', -⟩ := openWith_eq_ok h'
  have hsettings : { config with footerChunkSize := size }.settings = config.settings := rfl
  simp only [openWith, Config.validate_eq_ok_iff.mpr hvalid] at h
  simp only [openWith, Config.validate_eq_ok_iff.mpr hvalid', hsettings] at h'
  cases hset : configureAll config.settings ⟨e, Journal.empty.note .engineCreated⟩ with
  | error error r => simp [hset] at h
  | ok u r =>
      simp only [hset] at h h'
      cases h
      cases h'
      exact ⟨_, size, rfl⟩

/-! ## Over a sink that accepts everything -/

theorem isOpen_upheld (accepting : Sink.Accepting σ) :
    Upheld (fun w : Writer ε σ => accepting.IsOpen w.sink)
      fun w => accepting.IsOpen w.sink where
  accept _ := (Action.isOpen_stable accepting).accept fun _ hw => hw
  poison _ hw := hw
  hang hw := hw

theorem close_accepted {accepting : Sink.Accepting σ} {v : Writer ε σ} {size : Nat}
    (husable : w.status = .usable)
    (hend : Action.endFrameIf (0 < w.pendingUncompressed) w = .ok () v)
    (hunwritten : v.Unwritten size) (hopen : accepting.IsOpen v.sink) (hchunk : 0 < size)
    (hreserve : Reservation.reserve size = .ok ()) :
    ∃ closed, w.close = (.ok ⟨v.frames, v.bytesIn, v.bytesOut + v.frameLog.table.encodedSize⟩,
        closed) ∧
      accepting.contents closed.sink =
        accepting.contents v.sink ++ v.frameLog.table.encode := by
  obtain ⟨hhandout, rfl⟩ := hunwritten
  obtain ⟨s, j, frameLog, hrun, htable, hopen', hcontents⟩ :=
    Action.writeTable_accepted hhandout hchunk hreserve hopen
  obtain ⟨s', hclose, hsame⟩ := accepting.close hopen'
  have hcomplete : Action.complete w = .ok () { v with
      sink := s, journal := j, frameLog
      bytesOut := v.bytesOut + v.frameLog.table.encodedSize } := by
    rw [Action.complete_of_end hend]
    exact hrun v.callLimit
  have hframes : frameLog.size = v.frameLog.size := by
    rw [FrameLog.size, htable]
    rfl
  simp only [close, husable, hcomplete, Action.onSink, Recorded.close, hclose, frames, hframes]
  exact ⟨_, rfl, hsame.trans hcontents⟩

theorem Alike.close {accepting : Sink.Accepting σ} {size size' : Nat} (h : w.Alike w')
    (hw : w.Unwritten size) (hw' : w'.Unwritten size') (hopen : accepting.IsOpen w.sink)
    (hchunk : 0 < size) (hchunk' : 0 < size')
    (hreserve : Reservation.reserve size = .ok ())
    (hreserve' : Reservation.reserve size' = .ok ()) :
    w.close.1 = w'.close.1 ∧
      accepting.contents w.close.2.sink = accepting.contents w'.close.2.sink := by
  have hstatus := h.status_eq
  cases husable : w.status with
  | closed | hung =>
      obtain ⟨j, size, rfl⟩ := h
      simp only [Writer.close, husable]
      exact ⟨trivial, trivial⟩
  | poisoned =>
      obtain ⟨j, size, rfl⟩ := h
      simp only [Writer.close, husable]
      exact ⟨trivial, rfl⟩
  | usable =>
      rw [husable] at hstatus
      obtain ⟨other, hresized⟩ := alike_iff_exists_resized.mp h
      have hlockstep := (Action.resized_coupled fun _ _ _ _ => trivial).endFrameIf
        hresized.pending_iff hresized
      rcases hlockstep with ⟨u, v, v', hend, hend', hv⟩ | ⟨halt, v, v', hend, hend', hv⟩
      · obtain ⟨closed, hclose, hcontents⟩ := close_accepted husable hend
          (((unwritten_stable size).endFrameIf _).of_eq_ok hw hend)
          (((Action.isOpen_stable accepting).endFrameIf _).of_eq_ok hopen hend) hchunk hreserve
        have hopen' : accepting.IsOpen w'.sink := by
          obtain ⟨j, size, rfl⟩ := h
          exact hopen
        obtain ⟨closed', hclose', hcontents'⟩ := close_accepted hstatus hend'
          (((unwritten_stable size').endFrameIf _).of_eq_ok hw' hend')
          (((Action.isOpen_stable accepting).endFrameIf _).of_eq_ok hopen' hend') hchunk' hreserve'
        obtain ⟨j, rfl, -⟩ := hv
        rw [hclose, hclose']
        exact ⟨rfl, hcontents.trans hcontents'.symm⟩
      · have hcomplete := Action.complete_of_end_eq_error hend
        have hcomplete' := Action.complete_of_end_eq_error hend'
        obtain ⟨j, rfl, -⟩ := hv
        simp only [Writer.close, husable, hstatus, hcomplete, hcomplete']
        cases halt with
        | failed error => exact ⟨rfl, rfl⟩
        | unfinished => exact ⟨rfl, rfl⟩

/-- The table is written once, at the end, and the size of its chunks matters to nothing else.
Until a close gets past the frame end with a buffer for the table, whatever is offered to the
sink is what the engine gave out, in the same pieces.  Then the encoded table is offered in
chunks of the configured size, up to the first that is refused, and nothing after it.  Over a
sink that accepts everything, another size leads to the same answers and the same contents. -/
theorem table_is_offered_last {config : Config} {engine : Except ArchiveError ε}
    {sink : Except SinkError σ} {limit : Nat} {opened w : Writer ε σ} {writes : List Bytes}
    {answers : List (Except Halt Unit)}
    (hopen : openWith config engine sink limit = .ok opened)
    (hrun : opened.writeAll writes = (answers, w)) :
    (∀ (config' : Config) (engine' : Except ArchiveError ε) (sink' : Except SinkError σ) limit'
      failure, openWith config' engine' sink' limit' = .error failure →
        failure.journal.offers = []) ∧
    opened.journal.offers = [] ∧
    w.journal.offers = w.journal.outputs ∧
    w.abandon.journal.offers = w.abandon.journal.outputs ∧
    ((∀ v, w.status = .usable → Action.endFrameIf (0 < w.pendingUncompressed) w = .ok () v →
        Reservation.reserve config.footerChunkSize ≠ .ok ()) →
      w.close.2.journal.offers = w.close.2.journal.outputs) ∧
    (∀ v, w.status = .usable → Action.endFrameIf (0 < w.pendingUncompressed) w = .ok () v →
      v.journal.offers = v.journal.outputs ∧
      (Reservation.reserve config.footerChunkSize = .ok () → ∃ chunks noted,
        chunks.flatten = v.frameLog.table.encode ∧
        (∀ chunk ∈ chunks, chunk ≠ [] ∧ chunk.length ≤ config.footerChunkSize) ∧
        (∀ chunk ∈ chunks.dropLast, chunk.length = config.footerChunkSize) ∧
        chunks.length = (v.frameLog.table.encodedSize + (config.footerChunkSize - 1)) /
          config.footerChunkSize ∧
        Concluded v.frames chunks w.close.1 noted ∧
        w.close.2.journal.events = v.journal.events ++ noted)) ∧
    ∀ (accepting : Sink.Accepting σ) (s : σ) (size : Nat) (opened' : Writer ε σ),
      sink = .ok s → accepting.IsOpen s →
      openWith { config with footerChunkSize := size } engine sink limit = .ok opened' →
      Reservation.reserve config.footerChunkSize = .ok () → Reservation.reserve size = .ok () →
      (opened'.writeAll writes).1 = answers ∧
        (opened'.writeAll writes).2.close.1 = w.close.1 ∧
        accepting.contents (opened'.writeAll writes).2.close.2.sink =
          accepting.contents w.close.2.sink := by
  have husable := status_opened hopen
  have hechoes := echoes_upheld.keeps husable (echoes_opened hopen) writes
  have hunwritten := (unwritten_upheld _).keeps husable (unwritten_opened hopen) writes
  obtain ⟨e, s, rfl, rfl⟩ := exists_of_opened hopen
  obtain ⟨hvalid, -⟩ := openWith_eq_ok hopen
  rw [hrun] at hechoes hunwritten
  refine ⟨?_, ?_, hechoes, echoes_abandon hechoes, ?_, ?_, ?_⟩
  · intro config' engine' sink' limit' failure hfailure
    have hsilent := silent_openWith config' engine' sink' limit'
    rw [hfailure] at hsilent
    exact hsilent.1
  · have hsilent := silent_openWith config (.ok e) (.ok s) limit
    rw [hopen] at hsilent
    exact hsilent.1
  · intro hstuck
    apply echoes_close hechoes
    intro v husable hend
    rw [(((unwritten_stable _).endFrameIf _).of_eq_ok hunwritten hend).chunk]
    exact hstuck v husable hend
  · intro v husable hend
    obtain ⟨hhandout, hsize⟩ := ((unwritten_stable _).endFrameIf _).of_eq_ok hunwritten hend
    refine ⟨(Action.echoes_relays.endFrameIf _).of_eq_ok hechoes hend, fun hreserve => ?_⟩
    rw [← hsize] at hreserve ⊢
    have hpos : 0 < v.footerChunkSize := hsize ▸ hvalid.chunk_pos
    obtain ⟨chunks, noted, hchunked, hconcluded, hevents⟩ :=
      close_concludes husable hend hpos hreserve hhandout
    refine ⟨chunks, noted, hchunked.flatten_eq, ?_, ?_, ?_, hconcluded, hevents⟩
    · exact fun chunk hchunk =>
        ⟨hchunked.ne_nil_of_mem hpos hchunk, hchunked.length_le_of_mem hchunk⟩
    · exact fun chunk hchunk => hchunked.length_eq_of_mem_dropLast hchunk
    · rw [hchunked.length_chunks hpos, SeekTable.length_encode]
  · intro accepting s' size opened' hsink hstarts hopen' hreserve hreserve'
    cases hsink
    obtain ⟨hvalid', -⟩ := openWith_eq_ok hopen'
    obtain ⟨hanswers, halike⟩ := (alike_opened hopen hopen').writeAll writes
    have hunwritten' :=
      (unwritten_upheld _).keeps (status_opened hopen') (unwritten_opened hopen') writes
    have hstarted : accepting.IsOpen opened.sink := by
      obtain ⟨-, e', j, -, -, -, rfl⟩ := openWith_eq_ok hopen
      exact hstarts
    have hstill := (isOpen_upheld accepting).keeps husable hstarted writes
    rw [hrun] at hanswers halike hstill
    obtain ⟨hclose, hcontents⟩ := halike.close hunwritten hunwritten' hstill hvalid.chunk_pos
      hvalid'.chunk_pos hreserve hreserve'
    exact ⟨hanswers.symm, hclose.symm, hcontents.symm⟩

/-- A table of 33 bytes is offered in seven chunks of at most five bytes, and in chunks of
eleven it is the end of the same archive. -/
theorem table_is_offered_last_in_seven_chunks :
    ∃ (opened opened' w v : Writer EagerEngine MemorySink) (chunks : List Bytes)
      (noted : List Event),
      openWith { EagerEngine.config with footerChunkSize := 5 } (.ok {}) (.ok {}) 4 =
        .ok opened ∧
      openWith { EagerEngine.config with footerChunkSize := 11 } (.ok {}) (.ok {}) 4 =
        .ok opened' ∧
      opened.writeAll [[1, 2, 3], [4, 5, 6, 7], [], [8]] = (List.replicate 4 (.ok ()), w) ∧
      Concluded v.frames chunks w.close.1 noted ∧ chunks.length = 7 ∧
      chunks.flatten = v.frameLog.table.encode ∧
      (opened'.writeAll [[1, 2, 3], [4, 5, 6, 7], [], [8]]).2.close.2.sink.contents =
        w.close.2.sink.contents := by
  have hwriters : ∃ opened opened' : Writer EagerEngine MemorySink,
      openWith { EagerEngine.config with footerChunkSize := 5 } (.ok {}) (.ok {}) 4 =
        .ok opened ∧
      openWith { EagerEngine.config with footerChunkSize := 11 } (.ok {}) (.ok {}) 4 =
        .ok opened' ∧
      (opened.writeAll [[1, 2, 3], [4, 5, 6, 7], [], [8]]).1 = List.replicate 4 (.ok ()) ∧
      (opened.writeAll [[1, 2, 3], [4, 5, 6, 7], [], [8]]).2.status = .usable ∧
      (match Action.endFrameIf
          (0 < (opened.writeAll [[1, 2, 3], [4, 5, 6, 7], [], [8]]).2.pendingUncompressed)
          (opened.writeAll [[1, 2, 3], [4, 5, 6, 7], [], [8]]).2 with
        | .ok _ v => v.frameLog.table.encodedSize
        | .error _ _ => 0) = 33 :=
    ⟨_, _, rfl, rfl, by decide +kernel, by decide +kernel, by decide +kernel⟩
  obtain ⟨opened, opened', hopen, hopen', hanswers, husable, hsize⟩ := hwriters
  obtain ⟨w, hw⟩ : ∃ w, w = (opened.writeAll [[1, 2, 3], [4, 5, 6, 7], [], [8]]).2 := ⟨_, rfl⟩
  have hrun : opened.writeAll [[1, 2, 3], [4, 5, 6, 7], [], [8]] =
      (List.replicate 4 (.ok ()), w) := Prod.ext hanswers hw.symm
  rw [← hw] at husable hsize
  have hreserve (size : Nat) (hsmall : size < Reservation.addressSpace) :
      Reservation.reserve size = .ok () := Reservation.reserve_eq_ok_iff.mpr hsmall
  obtain ⟨-, -, -, -, -, htable, hsame⟩ := table_is_offered_last hopen hrun
  cases hend : Action.endFrameIf (0 < w.pendingUncompressed) w with
  | error halt v => simp [hend] at hsize
  | ok u v =>
      rw [hend] at hsize
      obtain ⟨-, hoffered⟩ := htable v husable hend
      obtain ⟨chunks, noted, hflatten, -, -, hlength, hconcluded, -⟩ :=
        hoffered (hreserve 5 (by decide))
      obtain ⟨-, -, hcontents⟩ := hsame MemorySink.accepting {} 11 opened' rfl rfl hopen'
        (hreserve 5 (by decide)) (hreserve 11 (by decide))
      dsimp only at hsize
      rw [hsize] at hlength
      exact ⟨opened, opened', w, v, chunks, noted, hopen, hopen', hrun, hconcluded, hlength,
        hflatten, hcontents⟩

end Writer
end SeekableArchive
