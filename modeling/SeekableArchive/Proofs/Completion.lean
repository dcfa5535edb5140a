import SeekableArchive.Proofs.InSession
import SeekableArchive.Proofs.Progress
import SeekableArchive.Proofs.Routing

/-!
# Writes and closes that succeed

Over a dependable engine and an accepting sink, a write can fail only in that the frame
that it ends, or the one that it leaves open, is too long for the table.
-/

namespace SeekableArchive

open Filter

namespace Writer

variable {ε σ : Type} [Engine ε] [Sink σ] {start : ε} {accepting : Sink.Accepting σ}
  {w w' : Writer ε σ}

omit [Engine ε] [Sink σ] in
theorem balanced_within_iff {limit : Nat} : (w.within limit).Balanced ↔ w.Balanced :=
  ⟨fun h => ⟨h.usable, h.uncompressed, h.compressed, h.described, h.unserialized, h.hashed,
    h.stored⟩, fun h => ⟨h.usable, h.uncompressed, h.compressed, h.described, h.unserialized,
    h.hashed, h.stored⟩⟩

/-- A balanced writer over an open sink, in a session of its engine.  The buffer for its table
is not empty and can be reserved. -/
structure Ready (start : ε) (accepting : Sink.Accepting σ) (w : Writer ε σ) : Prop where
  balanced : w.Balanced
  session : Engine.Session start w.journal.flows w.engine
  isOpen : accepting.IsOpen w.sink
  chunk_pos : 0 < w.footerChunkSize
  chunk_reservable : Reservation.reserve w.footerChunkSize = .ok ()

theorem ready_within_iff {limit : Nat} :
    (w.within limit).Ready start accepting ↔ w.Ready start accepting :=
  ⟨fun h => ⟨balanced_within_iff.mp h.balanced, h.session, h.isOpen, h.chunk_pos,
    h.chunk_reservable⟩, fun h => ⟨balanced_within_iff.mpr h.balanced, h.session, h.isOpen,
    h.chunk_pos, h.chunk_reservable⟩⟩

theorem Ready.endFrame (h : w.Ready start accepting) (hrun : Action.endFrame w = .ok () w') :
    w'.Ready start accepting := by
  obtain ⟨hbalanced, -, hchunk, -⟩ := h.balanced.endFrame hrun
  have hopen := (Action.isOpen_stable accepting).endFrame.of_eq_ok h.isOpen hrun
  exact ⟨hbalanced, h.balanced.session_endFrame h.session hrun, hopen, hchunk ▸ h.chunk_pos,
    hchunk ▸ h.chunk_reservable⟩

theorem Ready.takeIn {data : Bytes} (h : w.Ready start accepting)
    (hrun : Action.takeIn data w = .ok () w') : w'.Ready start accepting := by
  obtain ⟨hbalanced, -, hchunk, -⟩ := h.balanced.takeIn hrun
  have hkept : Action.Ensures (fun w : Writer ε σ => accepting.IsOpen w.sink)
      (Action.takeIn data) (fun _ w => accepting.IsOpen w.sink) fun w => accepting.IsOpen w.sink :=
    (Action.isOpen_stable accepting).takeIn fun _ hw => hw
  exact ⟨hbalanced, session_takeIn h.session hrun, hkept.of_eq_ok h.isOpen hrun,
    hchunk ▸ h.chunk_pos, hchunk ▸ h.chunk_reservable⟩

/-! ## Settling -/

/-- What the engine has made of a frame that has been drained is counted. -/
theorem Balanced.pendingCompressed_drained {room calls : Nat} (h : w.Balanced)
    (hdrain : Action.drainFrame room calls w = .ok () w')
    (hsmall : ∀ flow ∈ w'.journal.flows.all, flow.given.length ≤ maxFrameSize) :
    w'.pendingCompressed ≤ maxFrameSize := by
  obtain ⟨e, s, j, given, rfl, -, hflows, -⟩ := Action.drainFrame_eq_ok hdrain
  have hended : (w.journal.flows.fill [] given).current ∈ j.flows.all := by
    simp [hflows, Flows.all]
  have hlength := hsmall _ hended
  rwa [Flows.given_current_fill, List.length_append, ← h.compressed] at hlength

/-- A frame end settles if the frame has not taken in too much for the table, and is refused
by the frame log if it has. -/
theorem Ready.endFrame_settles_or_fails (hdependable : Engine.Dependable start)
    (h : w.Ready start accepting) (hframes : w.frames < maxFrames)
    (hmoderate : Action.Moderate Action.endFrame w) :
    w.pendingUncompressed ≤ maxFrameSize ∧ (∃ w', Action.Settles Action.endFrame w () w') ∨
      maxFrameSize < w.pendingUncompressed ∧ ∀ᶠ limit in atTop, ∃ v,
        Action.endFrame (w.within limit) = .error (.failed (.frameLog
          (RecordFault.uncompressedTooLarge w.pendingUncompressed).message)) v := by
  have hreserve := hdependable.reservable h.session
  obtain ⟨given, e, hdrains⟩ := hdependable.ends h.session
  obtain ⟨v, enough, hloop⟩ := Action.drainFrame_settles hdrains rfl h.isOpen
  have hrun (limit : Nat) (hlimit : enough ≤ limit) :
      Action.endFrame (w.within limit) = Action.recordFrame (v.within limit) := by
    have hbuffer : Action.outputBuffer "frame end output buffer" (w.within limit) =
        .ok (Engine.outputChunkSize w.engine) (w.within limit) :=
      Action.outputBuffer_eq_ok_iff.mpr ⟨hreserve, rfl, rfl⟩
    exact (Action.bind_eq_of_ok hbuffer).trans (Action.bind_eq_of_ok (hloop limit hlimit limit))
  have hdrained := hloop enough (Nat.le_refl _)
  obtain ⟨e', s, j, output, hpump, -⟩ := Action.drainFrame_eq_ok (hdrained 0)
  have hpending : v.pendingUncompressed = w.pendingUncompressed :=
    (congrArg Writer.pendingUncompressed hpump :)
  have hlog : v.frameLog = w.frameLog := (congrArg Writer.frameLog hpump :)
  cases hrecord : v.frameLog.record v.pendingCompressed v.pendingUncompressed
      (Action.frameChecksum v) with
  | ok frameLog =>
      obtain ⟨-, -, -, hshort, -⟩ := FrameLog.record_eq_ok_iff.mp hrecord
      refine .inl ⟨hpending ▸ hshort, v.recorded frameLog,
        eventually_atTop.mpr ⟨enough, fun limit hlimit => ?_⟩⟩
      rw [hrun limit hlimit]
      exact Action.recordFrame_eq_ok_iff.mpr ⟨frameLog, hrecord, rfl⟩
  | error fault =>
      have hfail (limit : Nat) : Action.recordFrame (v.within limit) =
          .error (.failed (.frameLog fault.message))
            { v.within limit with hasher := some .start } := by
        rw [Action.run_recordFrame]
        simp only [within, Action.frameChecksum] at hrecord ⊢
        rw [hrecord]
      -- The engine has not given out too much then, by what moderation says of this failure.
      obtain ⟨limit, hlimit, hbound⟩ := ((eventually_ge_atTop enough).and hmoderate).exists
      have hsmall := hbound _ _ ((hrun limit hlimit).trans (hfail limit))
      have hgiven := (balanced_within_iff.mpr h.balanced).pendingCompressed_drained
        (hdrained limit) hsmall
      obtain ⟨hlong, rfl⟩ := FrameLog.record_eq_error (hlog ▸ h.balanced.unserialized)
        (hlog ▸ hframes) hgiven hrecord
      rw [hpending] at hlong hfail
      exact .inr ⟨hlong, eventually_atTop.mpr ⟨enough, fun limit hlimit =>
        ⟨_, (hrun limit hlimit).trans (hfail limit)⟩⟩⟩

theorem Ready.endFrame_settles (hdependable : Engine.Dependable start)
    (h : w.Ready start accepting) (hframes : w.frames < maxFrames)
    (htaken : w.pendingUncompressed ≤ maxFrameSize)
    (hmoderate : Action.Moderate Action.endFrame w) :
    ∃ w', Action.Settles Action.endFrame w () w' := by
  obtain ⟨-, hsettles⟩ | ⟨hlong, -⟩ := h.endFrame_settles_or_fails hdependable hframes hmoderate
  · exact hsettles
  · omega

theorem Ready.takeIn_settles {data : Bytes} (hdependable : Engine.Dependable start)
    (h : w.Ready start accepting) (hmoderate : Action.Moderate (Action.takeIn data) w) :
    ∃ w', Action.Settles (Action.takeIn data) w () w' := by
  have hreserve := hdependable.reservable h.session
  have hbuffer (limit : Nat) :
      Action.outputBuffer "compression output buffer" (w.within limit) =
        .ok (Engine.outputChunkSize w.engine) (w.within limit) :=
    Action.outputBuffer_eq_ok_iff.mpr ⟨hreserve, rfl, rfl⟩
  obtain ⟨limit, hlimit, hbound⟩ :=
    ((eventually_ge_atTop (data.length + maxFrameSize + 1)).and hmoderate).exists
  obtain ⟨v, hends⟩ | ⟨v, given, hhangs, hgiven, hcount⟩ :=
    Action.consume_settles_or_fills hdependable h.session limit data h.session h.isOpen
  · refine ⟨v.credit data, eventually_atTop.mpr ⟨limit, fun limit' hlimit' => ?_⟩⟩
    exact Action.takeIn_eq_ok_iff.mpr ⟨hreserve, _, hends limit' hlimit' limit', rfl⟩
  · exfalso
    have hloop : (Action.consume (Engine.outputChunkSize w.engine) limit data >>= fun _ =>
        modify fun w => w.credit data) (w.within limit) = .error .unfinished (v.within limit) :=
      Action.bind_eq_of_error (hhangs limit)
    have hfail : Action.takeIn data (w.within limit) = .error .unfinished (v.within limit) :=
      (Action.bind_eq_of_ok (hbuffer limit)).trans hloop
    have hsmall := hbound _ _ hfail v.journal.flows.current (by simp [Flows.all, within])
    rw [hgiven, List.length_append] at hsmall
    omega

theorem Ready.endFrameIf_settles {p : Prop} [Decidable p]
    (hdependable : Engine.Dependable start) (h : w.Ready start accepting)
    (hframes : p → w.frames < maxFrames) (htaken : p → w.pendingUncompressed ≤ maxFrameSize)
    (hmoderate : Action.Moderate (Action.endFrameIf p) w) :
    ∃ v, Action.Settles (Action.endFrameIf p) w () v ∧ v.Ready start accepting := by
  by_cases hp : p
  · rw [Action.endFrameIf, if_pos hp] at hmoderate ⊢
    obtain ⟨v, hsettles⟩ := h.endFrame_settles hdependable (hframes hp) (htaken hp) hmoderate
    obtain ⟨limit, hrun⟩ := hsettles.exists_limit
    exact ⟨v, hsettles, ready_within_iff.mp ((ready_within_iff.mpr h).endFrame hrun)⟩
  · rw [Action.endFrameIf, if_neg hp]
    exact ⟨w, Eventually.of_forall fun limit => rfl, h⟩

theorem Ready.accept_settles {data : Bytes} (hdependable : Engine.Dependable start)
    (h : w.Ready start accepting)
    (hframes : w.minFrameSize ≤ w.pendingUncompressed → w.frames < maxFrames)
    (htaken : w.minFrameSize ≤ w.pendingUncompressed → w.pendingUncompressed ≤ maxFrameSize)
    (hmoderate : Action.Moderate (Action.accept data) w) :
    ∃ w', Action.Settles (Action.accept data) w () w' ∧ w'.Ready start accepting := by
  have hrun (limit : Nat) := Action.run_accept data (w.within limit)
  replace hmoderate : Action.Moderate (Action.endFrameIf (w.minFrameSize ≤ w.pendingUncompressed)
      >>= fun _ => Action.takeIn data) w := hmoderate.of_run_eq fun limit => (hrun limit).symm
  obtain ⟨v, hend, hv⟩ := h.endFrameIf_settles hdependable hframes htaken hmoderate.left
  obtain ⟨w', htake⟩ := hv.takeIn_settles hdependable (hmoderate.right hend)
  obtain ⟨limit, htakes⟩ := htake.exists_limit
  refine ⟨w', ?_, ready_within_iff.mp ((ready_within_iff.mpr hv).takeIn htakes)⟩
  have hboth : Action.Settles (Action.endFrameIf (w.minFrameSize ≤ w.pendingUncompressed)
      >>= fun _ => Action.takeIn data) w () w' := hend.bind htake
  exact hboth.of_run_eq hrun

theorem Ready.complete_settles (hdependable : Engine.Dependable start)
    (h : w.Ready start accepting)
    (hframes : 0 < w.pendingUncompressed → w.frames < maxFrames)
    (htaken : 0 < w.pendingUncompressed → w.pendingUncompressed ≤ maxFrameSize)
    (hmoderate : Action.Moderate Action.complete w) :
    ∃ w', Action.Settles Action.complete w () w' ∧ accepting.IsOpen w'.sink := by
  have hrun (limit : Nat) := Action.run_complete (w.within limit)
  replace hmoderate : Action.Moderate (Action.endFrameIf (0 < w.pendingUncompressed)
      >>= fun _ => Action.writeTable) w := hmoderate.of_run_eq fun limit => (hrun limit).symm
  obtain ⟨v, hend, hv⟩ := h.endFrameIf_settles hdependable hframes htaken hmoderate.left
  obtain ⟨s, j, frameLog, htable, -, hopen, -⟩ := Action.writeTable_accepted
    hv.balanced.unserialized hv.chunk_pos hv.chunk_reservable hv.isOpen
  have hboth : Action.Settles (Action.endFrameIf (0 < w.pendingUncompressed)
      >>= fun _ => Action.writeTable) w () _ := hend.bind (Eventually.of_forall htable)
  exact ⟨_, hboth.of_run_eq hrun, hopen⟩

/-! ## Whole runs -/

/-- Under every large enough limit, no frame that the engine begins while the writes are
made and the writer is closed gets too long for the table. -/
def Fits (w : Writer ε σ) (writes : List Bytes) : Prop :=
  ∀ᶠ limit in atTop, ∀ flow ∈ ((w.within limit).writeAll writes).2.close.2.journal.flows.all,
    flow.given.length ≤ maxFrameSize

/-- A writer that has failed or hangs does nothing more that concerns its engine. -/
theorem flows_of_not_usable (h : w.status ≠ .usable) (writes : List Bytes) :
    (w.writeAll writes).2.close.2.journal.flows = w.journal.flows := by
  rw [writeAll_of_unusable h, close]
  split
  · rfl
  · rfl
  · rfl
  · exact absurd ‹_› h

theorem flows_write_of_error {data : Bytes} {halt : Halt} {v : Writer ε σ}
    (husable : w.status = .usable) (h : Action.accept data w = .error halt v) :
    (w.write data).2.status ≠ .usable ∧ (w.write data).2.journal.flows = v.journal.flows := by
  cases halt with
  | failed error =>
      rw [write, husable]
      simp only [h]
      exact ⟨by simp, rfl⟩
  | unfinished =>
      rw [write, husable]
      simp only [h]
      exact ⟨by simp, trivial⟩

theorem flows_close_of_error {halt : Halt} {v : Writer ε σ} (husable : w.status = .usable)
    (h : Action.complete w = .error halt v) :
    w.close.2.journal.flows = v.journal.flows := by
  cases halt with
  | failed error =>
      simp only [close, husable, h]
      rfl
  | unfinished => simp only [close, husable, h]

theorem Fits.moderate_accept {data : Bytes} {writes : List Bytes} (husable : w.status = .usable)
    (h : w.Fits (data :: writes)) : Action.Moderate (Action.accept data) w := by
  filter_upwards [h] with limit hfits halt v hfail flow hflow
  obtain ⟨hstopped, hflows⟩ := flows_write_of_error (w := w.within limit) husable hfail
  apply hfits
  rw [writeAll, flows_of_not_usable hstopped, hflows]
  exact hflow

theorem Fits.moderate_complete (husable : w.status = .usable) (h : w.Fits []) :
    Action.Moderate Action.complete w := by
  filter_upwards [h] with limit hfits halt v hfail flow hflow
  apply hfits
  rw [writeAll, flows_close_of_error (w := w.within limit) husable hfail]
  exact hflow

theorem Fits.accept {data : Bytes} {writes : List Bytes} (husable : w.status = .usable)
    (h : w.Fits (data :: writes)) (hsettles : Action.Settles (Action.accept data) w () w') :
    w'.Fits writes := by
  filter_upwards [h, hsettles] with limit hfits haccept flow hflow
  apply hfits
  have hwrite := write_of_accept (w := w.within limit) husable haccept
  simp only [writeAll, hwrite]
  exact hflow

omit [Engine ε] [Sink σ] in
/-- There is room for a frame that is about to end if there is room for all frames. -/
theorem Balanced.frames_lt {floor : Nat} {rest tail : List Bytes} (h : w.Balanced)
    (hends : w.journal.flows.destined floor rest =
      w.journal.flows.ended.map Flow.taken ++ w.journal.flows.current.taken :: tail)
    (hcount : (w.journal.flows.destined floor rest).length ≤ maxFrames) :
    w.frames < maxFrames := by
  have hframes : w.frames = w.journal.flows.ended.length := h.described.size_eq
  rw [hends, List.length_append, List.length_map, List.length_cons] at hcount
  omega

omit [Engine ε] [Sink σ] in
/-- A frame that is about to end fits the log if the contents that are destined for the
frames do. -/
theorem Balanced.fits_log {floor : Nat} {rest tail : List Bytes} (h : w.Balanced)
    (hends : w.journal.flows.destined floor rest =
      w.journal.flows.ended.map Flow.taken ++ w.journal.flows.current.taken :: tail)
    (hsizes : ∀ content ∈ w.journal.flows.destined floor rest, content.length ≤ maxFrameSize)
    (hcount : (w.journal.flows.destined floor rest).length ≤ maxFrames) :
    w.frames < maxFrames ∧ w.pendingUncompressed ≤ maxFrameSize := by
  refine ⟨h.frames_lt hends hcount, ?_⟩
  rw [h.uncompressed]
  rw [hends] at hsizes
  exact hsizes _ (by simp)

omit [Engine ε] [Sink σ] in
theorem Balanced.destined_of_full (h : w.Balanced) (hfull : w.minFrameSize ≤ w.pendingUncompressed)
    (data : Bytes) (writes : List Bytes) :
    w.journal.flows.destined w.minFrameSize (data :: writes) =
      w.journal.flows.ended.map Flow.taken ++ w.journal.flows.current.taken ::
        segmentsFrom w.minFrameSize data writes := by
  rw [h.uncompressed] at hfull
  simp [Flows.destined, segmentsFrom, hfull]

omit [Engine ε] [Sink σ] in
theorem Balanced.destined_of_open (h : w.Balanced) (hpending : 0 < w.pendingUncompressed)
    (floor : Nat) :
    w.journal.flows.destined floor [] =
      w.journal.flows.ended.map Flow.taken ++ [w.journal.flows.current.taken] := by
  simp [Flows.destined, segmentsFrom, h.pending_pos_iff.mp hpending]

/-- A write that settles changes nothing in what the frames will have held. -/
theorem Balanced.destined_settles {data : Bytes} (h : w.Balanced)
    (hsettles : Action.Settles (Action.accept data) w () w') :
    w'.minFrameSize = w.minFrameSize ∧ ∀ writes,
      w'.journal.flows.destined w.minFrameSize writes =
        w.journal.flows.destined w.minFrameSize (data :: writes) := by
  obtain ⟨limit, haccept⟩ := hsettles.exists_limit
  have hbalanced : (w.within limit).Balanced := balanced_within_iff.mpr h
  exact ⟨(hbalanced.accept haccept).2.1,
    (hbalanced.write (write_of_accept hbalanced.usable haccept)).2⟩

theorem Ready.accepts_settles {writes : List Bytes} (hdependable : Engine.Dependable start)
    (h : w.Ready start accepting)
    (hsizes : ∀ content ∈ w.journal.flows.destined w.minFrameSize writes,
      content.length ≤ maxFrameSize)
    (hcount : (w.journal.flows.destined w.minFrameSize writes).length ≤ maxFrames)
    (hfits : w.Fits writes) :
    ∃ w' : Writer ε σ, (∀ᶠ limit in atTop, (w.within limit).Accepts writes (w'.within limit)) ∧
      w'.Ready start accepting ∧ w'.Fits [] ∧ w'.minFrameSize = w.minFrameSize ∧
      w'.journal.flows.destined w.minFrameSize [] =
        w.journal.flows.destined w.minFrameSize writes := by
  induction writes generalizing w with
  | nil =>
      exact ⟨w, Eventually.of_forall fun limit => accepts_nil_iff.mpr rfl, h, hfits, rfl, rfl⟩
  | cons data writes ih =>
      have husable := h.balanced.usable
      have hlog (hfull : w.minFrameSize ≤ w.pendingUncompressed) :
          w.frames < maxFrames ∧ w.pendingUncompressed ≤ maxFrameSize :=
        h.balanced.fits_log (h.balanced.destined_of_full hfull data writes) hsizes hcount
      obtain ⟨v, hsettles, hv⟩ := h.accept_settles hdependable
        (fun hfull => (hlog hfull).1) (fun hfull => (hlog hfull).2) (hfits.moderate_accept husable)
      obtain ⟨hfloor, hdestined⟩ := h.balanced.destined_settles hsettles
      rw [← hdestined writes, ← hfloor] at hsizes hcount
      obtain ⟨w', haccepts, hw', hfits', hfloor', hdestined'⟩ :=
        ih hv hsizes hcount (hfits.accept husable hsettles)
      rw [hfloor] at hdestined'
      refine ⟨w', ?_, hw', hfits', hfloor'.trans hfloor, hdestined'.trans (hdestined writes)⟩
      filter_upwards [hsettles, haccepts] with limit hfirst hrest
      have hwrite := write_of_accept (w := w.within limit) husable hfirst
      exact accepts_cons_iff.mpr ⟨v.within limit, hwrite, hrest⟩

theorem Ready.closes (hdependable : Engine.Dependable start) (h : w.Ready start accepting)
    (hsizes : ∀ content ∈ w.journal.flows.destined w.minFrameSize [],
      content.length ≤ maxFrameSize)
    (hcount : (w.journal.flows.destined w.minFrameSize []).length ≤ maxFrames)
    (hfits : w.Fits []) :
    ∀ᶠ limit in atTop, ∃ summary closed, (w.within limit).close = (.ok summary, closed) := by
  have husable := h.balanced.usable
  have hlog (hpending : 0 < w.pendingUncompressed) :
      w.frames < maxFrames ∧ w.pendingUncompressed ≤ maxFrameSize :=
    h.balanced.fits_log (h.balanced.destined_of_open hpending _) hsizes hcount
  obtain ⟨v, hsettles, hopen⟩ := h.complete_settles hdependable
    (fun hpending => (hlog hpending).1) (fun hpending => (hlog hpending).2)
    (hfits.moderate_complete husable)
  filter_upwards [hsettles] with limit hcomplete
  obtain ⟨s, hclose, -⟩ := accepting.close hopen
  replace hclose : Sink.close (v.within limit).sink = .ok () s := hclose
  replace husable : (w.within limit).status = .usable := husable
  rw [close, husable]
  simp only [hcomplete, Action.onSink, Recorded.close, hclose]
  exact ⟨_, _, rfl⟩

end Writer

end SeekableArchive
