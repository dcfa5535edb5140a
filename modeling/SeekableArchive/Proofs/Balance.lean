import SeekableArchive.Proofs.Hashing
import SeekableArchive.Proofs.Loops
import SeekableArchive.Proofs.Opening

/-!
# Writes and the end of an archive

A write ends the open frame if it is full and then has the open frame take in its data;
the end of an archive ends the open frame if it has taken in anything and appends the
table.  Between its operations a writer is `Balanced`: its counters, its hash and its log
agree with what has flowed through its engine, and all of it is stored.
-/

namespace SeekableArchive

namespace Action

variable {ε σ : Type} [Engine ε] [Sink σ] {w w' : Writer ε σ}

/-- The checksum under which the open frame is recorded. -/
def frameChecksum (w : Writer ε σ) : UInt32 :=
  (w.hasher.map Xxh64.Hasher.checksum).getD 0

omit [Engine ε] [Sink σ] in
theorem run_recordFrame (w : Writer ε σ) :
    recordFrame w =
      match w.frameLog.record w.pendingCompressed w.pendingUncompressed (frameChecksum w) with
      | .error fault => .error (.failed (.frameLog fault.message)) { w with hasher := some .start }
      | .ok frameLog => .ok () (w.recorded frameLog) := by
  simp only [recordFrame, run_bind]
  show (match w.frameLog.record w.pendingCompressed w.pendingUncompressed (frameChecksum w) with
    | .error fault => _ | .ok frameLog => _ : Action ε σ Unit) _ = _
  cases w.frameLog.record w.pendingCompressed w.pendingUncompressed (frameChecksum w) <;> rfl

omit [Engine ε] [Sink σ] in
theorem recordFrame_eq_ok_iff :
    recordFrame w = .ok () w' ↔ ∃ frameLog,
      w.frameLog.record w.pendingCompressed w.pendingUncompressed (frameChecksum w) =
        .ok frameLog ∧ w' = w.recorded frameLog := by
  rw [run_recordFrame]
  cases w.frameLog.record w.pendingCompressed w.pendingUncompressed (frameChecksum w) with
  | error fault => simp
  | ok frameLog => simp [eq_comm]

theorem endFrame_eq_ok_iff :
    endFrame w = .ok () w' ↔
      Reservation.reserve (Engine.outputChunkSize w.engine) = .ok () ∧
        ∃ v, drainFrame (Engine.outputChunkSize w.engine) w.callLimit w = .ok () v ∧
          recordFrame v = .ok () w' := by
  simp only [endFrame, bind_eq_ok_iff, outputBuffer_eq_ok_iff, run_get_bind]
  constructor
  · rintro ⟨_, _, ⟨hreserve, rfl, rfl⟩, _, v, hdrain, hrecord⟩
    exact ⟨hreserve, v, hdrain, hrecord⟩
  · rintro ⟨hreserve, v, hdrain, hrecord⟩
    exact ⟨_, _, ⟨hreserve, rfl, rfl⟩, (), v, hdrain, hrecord⟩

/-! ## Writes and the end of the archive -/

/-- Ends the open frame on a condition. -/
def endFrameIf (p : Prop) [Decidable p] : Action ε σ Unit :=
  if p then endFrame else pure ()

/-- The second half of a write, in which the open frame takes in the data. -/
def takeIn (data : Bytes) : Action ε σ Unit := do
  let room ← outputBuffer "compression output buffer"
  consume room (← get).callLimit data
  modify fun w => w.credit data

theorem endFrameIf_eq_ok_iff {p : Prop} [Decidable p] :
    endFrameIf p w = .ok () w' ↔ if p then endFrame w = .ok () w' else w' = w := by
  by_cases hp : p
  · simp only [endFrameIf, hp, if_true]
  · simp only [endFrameIf, hp, if_false]
    exact ⟨fun h => by cases h; rfl, fun h => h ▸ rfl⟩

theorem takeIn_eq_ok_iff {data : Bytes} :
    takeIn data w = .ok () w' ↔
      Reservation.reserve (Engine.outputChunkSize w.engine) = .ok () ∧
        ∃ v, consume (Engine.outputChunkSize w.engine) w.callLimit data w = .ok () v ∧
          w' = v.credit data := by
  simp only [takeIn, bind_eq_ok_iff, outputBuffer_eq_ok_iff, run_get_bind]
  constructor
  · rintro ⟨_, _, ⟨hreserve, rfl, rfl⟩, _, v, hconsume, hcredit⟩
    cases hcredit
    exact ⟨hreserve, v, hconsume, rfl⟩
  · rintro ⟨hreserve, v, hconsume, rfl⟩
    exact ⟨_, _, ⟨hreserve, rfl, rfl⟩, (), v, hconsume, rfl⟩

theorem run_accept (data : Bytes) (w : Writer ε σ) :
    accept data w =
      (endFrameIf (w.minFrameSize ≤ w.pendingUncompressed) >>= fun _ => takeIn data) w := by
  by_cases hfull : w.minFrameSize ≤ w.pendingUncompressed
  · simp only [accept, run_get_bind, endFrameIf, hfull, if_true]
    rfl
  · simp only [accept, run_get_bind, endFrameIf, hfull, if_false]
    rfl

theorem run_complete (w : Writer ε σ) :
    complete w = (endFrameIf (0 < w.pendingUncompressed) >>= fun _ => writeTable) w := by
  by_cases hopen : 0 < w.pendingUncompressed
  · simp only [complete, run_get_bind, endFrameIf, hopen, if_true]
  · simp only [complete, run_get_bind, endFrameIf, hopen, if_false]
    rfl

theorem complete_of_end {v : Writer ε σ}
    (hend : endFrameIf (0 < w.pendingUncompressed) w = .ok () v) : complete w = writeTable v := by
  rw [run_complete, run_bind, hend]

theorem complete_of_end_eq_error {v : Writer ε σ} {halt : Halt}
    (hend : endFrameIf (0 < w.pendingUncompressed) w = .error halt v) :
    complete w = .error halt v := by
  rw [run_complete, run_bind, hend]

omit [Engine ε] in
theorem writeTable_eq_ok_iff :
    writeTable w = .ok () w' ↔
      Reservation.reserve w.footerChunkSize = .ok () ∧
        ∃ v, drainTable w.footerChunkSize w.frameLog.table.encodedSize w = .ok () v ∧
          w' = v.note (.logged (.tableWritten w.frames)) := by
  rw [writeTable, run_get_bind, run_ofExcept_bind,
    ← buffer_eq_ok_iff "seek table buffer"]
  cases Reservation.buffer "seek table buffer" w.footerChunkSize with
  | error error => simp
  | ok u =>
      simp only [bind_eq_ok_iff, true_and]
      constructor
      · rintro ⟨_, v, hdrain, hlog⟩
        cases hlog
        exact ⟨v, hdrain, rfl⟩
      · rintro ⟨v, hdrain, rfl⟩
        exact ⟨(), v, hdrain, rfl⟩

omit [Engine ε] in
/-- Without a buffer nothing of the table is handed out. -/
theorem writeTable_of_buffer_eq_error {error : ArchiveError}
    (h : Reservation.buffer "seek table buffer" w.footerChunkSize = .error error) :
    writeTable w = .error (.failed error) w := by
  rw [writeTable, run_get_bind, run_ofExcept_bind, h]

omit [Engine ε] in
theorem writeTable_of_unreservable (h : Reservation.reserve w.footerChunkSize ≠ .ok ()) :
    ∃ error, writeTable w = .error (.failed error) w := by
  cases hbuffer : Reservation.buffer "seek table buffer" w.footerChunkSize with
  | error error => exact ⟨error, writeTable_of_buffer_eq_error hbuffer⟩
  | ok u => exact absurd ((buffer_eq_ok_iff _).mp hbuffer) h

end Action

namespace Writer

variable {ε σ : Type} {w w' : Writer ε σ}

/-- The counters, the hash and the log of a usable writer agree with what has flowed
through its engine, and everything given out is stored. -/
structure Balanced (w : Writer ε σ) : Prop where
  usable : w.status = .usable
  uncompressed : w.pendingUncompressed = w.journal.flows.current.taken.length
  compressed : w.pendingCompressed = w.journal.flows.current.given.length
  described : w.frameLog.Describes w.journal.flows.ended
  unserialized : w.frameLog.handout = none
  hashed : w.frameLog.checksums = true →
    w.hasher = some (Xxh64.Hasher.start.update w.journal.flows.current.taken)
  stored : w.journal.stored = w.journal.flows.given

theorem balanced_fresh {config : Config} {e : ε} {s : σ} {j : Journal} {limit : Nat}
    (hflows : j.flows = {}) (hstored : j.stored = []) :
    (fresh config e s j limit).Balanced where
  usable := rfl
  uncompressed := by simp [fresh, hflows]
  compressed := by simp [fresh, hflows]
  described := by
    simp only [fresh, hflows]
    exact .nil
  unserialized := rfl
  hashed hflag := by
    have hchecksums : config.checksums = true := hflag
    simp [fresh, hflows, hchecksums]
  stored := by simp [fresh, hflows, hstored, Flows.given]

theorem Balanced.pending_pos_iff (h : w.Balanced) :
    0 < w.pendingUncompressed ↔ w.journal.flows.current.taken ≠ [] := by
  rw [h.uncompressed, List.length_pos_iff]

theorem Balanced.pending_eq_zero_iff (h : w.Balanced) :
    w.pendingUncompressed = 0 ↔ w.journal.flows.current.taken = [] := by
  rw [h.uncompressed, List.length_eq_zero_iff]

theorem Balanced.frameChecksum (h : w.Balanced) (hflag : w.frameLog.checksums = true) :
    Action.frameChecksum w = Xxh64.checksum w.journal.flows.current.taken := by
  rw [Action.frameChecksum, h.hashed hflag, Option.map_some, Option.getD_some,
    Xxh64.Hasher.checksum_start_update]

/-- What is recorded about the open frame once it is drained describes it. -/
theorem Balanced.recorded {e : ε} {s : σ} {j : Journal} {given : Bytes} {frameLog : FrameLog}
    (h : w.Balanced) (hflows : j.flows = (w.journal.flows.fill [] given).finish)
    (hstored : j.stored = w.journal.stored ++ given)
    (hrecord : w.frameLog.record (w.pendingCompressed + given.length) w.pendingUncompressed
      (Action.frameChecksum w) = .ok frameLog) :
    ((w.pump e s j given.length).recorded frameLog).Balanced := by
  have hnote : ((w.pump e s j given.length).recorded frameLog).journal.flows =
      (w.journal.flows.fill [] given).finish := hflows
  have hchecksum (hflag : w.frameLog.checksums = true) : Action.frameChecksum w =
      Xxh64.checksum (w.journal.flows.fill [] given).current.taken := by
    rw [h.frameChecksum hflag, Flows.taken_fill, List.append_nil]
  have hdescribed : frameLog.Describes
      (w.journal.flows.ended ++ [(w.journal.flows.fill [] given).current]) := by
    apply h.described.record hchecksum
    rw [Flows.taken_fill, Flows.given_current_fill, List.append_nil, List.length_append,
      ← h.compressed, ← h.uncompressed]
    exact hrecord
  obtain ⟨-, -, -, -, hhandout, -⟩ := FrameLog.record_eq_ok_iff.mp hrecord
  constructor
  · exact h.usable
  · rw [hnote]
    rfl
  · rw [hnote]
    rfl
  · rw [hnote]
    exact hdescribed
  · exact hhandout
  · intro _
    rw [hnote, Flows.current_finish, Xxh64.Hasher.start_update_nil]
    rfl
  · rw [hnote, Flows.given_finish, Flows.given_fill, ← h.stored, ← hstored]
    exact List.append_nil _

variable [Engine ε] [Sink σ]

theorem Balanced.endFrame (h : w.Balanced) (hrun : Action.endFrame w = .ok () w') :
    w'.Balanced ∧ w'.minFrameSize = w.minFrameSize ∧ w'.footerChunkSize = w.footerChunkSize ∧
      ∃ given, Engine.Drains (Engine.outputChunkSize w.engine) w.engine given w'.engine ∧
        w'.journal.flows = (w.journal.flows.fill [] given).finish := by
  obtain ⟨-, v, hdrain, hrecord⟩ := Action.endFrame_eq_ok_iff.mp hrun
  obtain ⟨e, s, j, given, rfl, hdrains, hflows, hstored⟩ := Action.drainFrame_eq_ok hdrain
  obtain ⟨frameLog, hlog, rfl⟩ := Action.recordFrame_eq_ok_iff.mp hrecord
  exact ⟨h.recorded hflows hstored hlog, rfl, rfl, given, hdrains, hflows⟩

theorem Balanced.takeIn {data : Bytes} (h : w.Balanced)
    (hrun : Action.takeIn data w = .ok () w') :
    w'.Balanced ∧ w'.minFrameSize = w.minFrameSize ∧ w'.footerChunkSize = w.footerChunkSize ∧
      ∃ given, Engine.Feeds (Engine.outputChunkSize w.engine) w.engine data given w'.engine ∧
        w'.journal.flows = w.journal.flows.fill data given := by
  obtain ⟨-, v, hconsume, rfl⟩ := Action.takeIn_eq_ok_iff.mp hrun
  obtain ⟨e, s, j, given, rfl, hfeeds, hflows, hstored⟩ := Action.consume_eq_ok hconsume
  have hnote : ((w.pump e s j given.length).credit data).journal.flows =
      w.journal.flows.fill data given := hflows
  refine ⟨?_, rfl, rfl, given, hfeeds, hflows⟩
  constructor
  · exact h.usable
  · rw [hnote, Flows.taken_fill, List.length_append, ← h.uncompressed]
    rfl
  · rw [hnote, Flows.given_current_fill, List.length_append, ← h.compressed]
    rfl
  · rw [hnote, Flows.ended_fill]
    exact h.described
  · exact h.unserialized
  · intro hflag
    rw [hnote, Flows.taken_fill, ← Xxh64.Hasher.update_update]
    exact congrArg (Option.map (·.update data)) (h.hashed hflag)
  · rw [hnote, Flows.given_fill, ← h.stored, ← hstored]
    rfl

/-- The effect of an accepted write on what has flowed.  A full frame is ended first. -/
theorem Balanced.accept {data : Bytes} (h : w.Balanced)
    (hrun : Action.accept data w = .ok () w') :
    w'.Balanced ∧ w'.minFrameSize = w.minFrameSize ∧ w'.footerChunkSize = w.footerChunkSize ∧
      ∃ last given, w'.journal.flows =
        (if w.minFrameSize ≤ w.pendingUncompressed then (w.journal.flows.fill [] last).finish
          else w.journal.flows).fill data given := by
  rw [Action.run_accept, Action.bind_eq_ok_iff] at hrun
  obtain ⟨_, v, hend, htake⟩ := hrun
  rw [Action.endFrameIf_eq_ok_iff] at hend
  by_cases hfull : w.minFrameSize ≤ w.pendingUncompressed
  · rw [if_pos hfull] at hend
    obtain ⟨hv, hfloor, hchunk, last, -, hflows⟩ := h.endFrame hend
    obtain ⟨hw', hfloor', hchunk', given, -, hflows'⟩ := hv.takeIn htake
    refine ⟨hw', hfloor'.trans hfloor, hchunk'.trans hchunk, last, given, ?_⟩
    rw [if_pos hfull, hflows', hflows]
  · rw [if_neg hfull] at hend
    subst hend
    obtain ⟨hw', hfloor, hchunk, given, -, hflows⟩ := h.takeIn htake
    refine ⟨hw', hfloor, hchunk, [], given, ?_⟩
    rw [if_neg hfull, hflows]

/-- The table of a finished archive describes the frames that have ended, and everything
given out is stored with the table behind it. -/
structure Sealed (w : Writer ε σ) : Prop where
  described : w.frameLog.Describes w.journal.flows.ended
  stored : w.journal.stored = w.journal.flows.given ++ w.frameLog.table.encode

omit [Engine ε] in
theorem Balanced.writeTable (h : w.Balanced) (hrun : Action.writeTable w = .ok () w') :
    w'.Sealed ∧ w'.journal.flows = w.journal.flows := by
  obtain ⟨-, v, hdrain, rfl⟩ := Action.writeTable_eq_ok_iff.mp hrun
  obtain ⟨s, j, frameLog, rfl, htable, hflows, hstored⟩ :=
    Action.drainTable_eq_ok (FrameLog.coherent_of_handout_eq_none h.unserialized) hdrain
  refine ⟨⟨?_, ?_⟩, hflows⟩
  · have hdescribed := h.described
    rw [← hflows] at hdescribed
    exact hdescribed.of_table_eq htable
  · rw [FrameLog.unread_of_handout_eq_none h.unserialized, h.stored, ← htable, ← hflows]
      at hstored
    exact (List.append_nil _).trans hstored

theorem Balanced.complete (h : w.Balanced) (hrun : Action.complete w = .ok () w') :
    w'.Sealed ∧ ∃ last,
      (0 < w.pendingUncompressed →
        ∃ e, Engine.Drains (Engine.outputChunkSize w.engine) w.engine last e) ∧
      w'.journal.flows =
        if 0 < w.pendingUncompressed then (w.journal.flows.fill [] last).finish
        else w.journal.flows := by
  rw [Action.run_complete, Action.bind_eq_ok_iff] at hrun
  obtain ⟨_, v, hend, htable⟩ := hrun
  rw [Action.endFrameIf_eq_ok_iff] at hend
  by_cases hopen : 0 < w.pendingUncompressed
  · rw [if_pos hopen] at hend
    obtain ⟨hv, -, -, last, hdrains, hflows⟩ := h.endFrame hend
    obtain ⟨hsealed, hsame⟩ := hv.writeTable htable
    exact ⟨hsealed, last, fun _ => ⟨_, hdrains⟩, by rw [if_pos hopen, hsame, hflows]⟩
  · rw [if_neg hopen] at hend
    subst hend
    obtain ⟨hsealed, hsame⟩ := h.writeTable htable
    exact ⟨hsealed, [], fun h => absurd h hopen, by rw [if_neg hopen, hsame]⟩

theorem close_eq_ok {summary : Summary} (hrun : w.close = (.ok summary, w')) :
    w.status = .usable ∧ ∃ v s, Action.complete w = .ok () v ∧
      Sink.close v.sink = .ok () s ∧ summary = ⟨v.frames, v.bytesIn, v.bytesOut⟩ ∧
      w' = { v with
        sink := s
        journal := (((v.journal.note (.sinkClosed true)).note .sinkReleased).note
          .engineReleased).note (.logged (.closed v.frames v.bytesIn v.bytesOut))
        status := .closed } := by
  cases hstatus : w.status with
  | closed => simp [close, hstatus] at hrun
  | poisoned => simp [close, hstatus] at hrun
  | hung => simp [close, hstatus] at hrun
  | usable =>
      simp only [close, hstatus] at hrun
      cases hcomplete : Action.complete w with
      | error halt v => cases halt <;> simp [hcomplete] at hrun
      | ok u v =>
          simp only [hcomplete, Action.onSink, Recorded.close] at hrun
          cases hclose : Sink.close v.sink with
          | error error s => simp [hclose] at hrun
          | ok u s =>
              simp only [hclose] at hrun
              cases hrun
              exact ⟨rfl, v, s, rfl, hclose, rfl, rfl⟩

theorem Balanced.close {summary : Summary} (h : w.Balanced)
    (hrun : w.close = (.ok summary, w')) :
    w'.Sealed ∧ ∃ last,
      (0 < w.pendingUncompressed →
        ∃ e, Engine.Drains (Engine.outputChunkSize w.engine) w.engine last e) ∧
      w'.journal.flows =
        if 0 < w.pendingUncompressed then (w.journal.flows.fill [] last).finish
        else w.journal.flows := by
  obtain ⟨-, v, s, hcomplete, -, -, rfl⟩ := close_eq_ok hrun
  obtain ⟨hsealed, last, hdrains, hflows⟩ := h.complete hcomplete
  refine ⟨⟨hsealed.described, ?_⟩, last, hdrains, hflows⟩
  simp only [Journal.stored_note, Event.stored, List.append_nil]
  exact hsealed.stored

end Writer

end SeekableArchive
