import Mathlib
import SeekableArchive.Proofs.CleanRun
import SeekableArchive.Proofs.EagerEngine
import SeekableArchive.Proofs.Refusal

/-!
# The counters of a writer

The counters agree with the log, with the payloads that have been taken in and with the
contents of the sink, whatever sequence of writes a writer has been through and however
these were answered.  The summary of a close agrees with the table that is read back.
-/

namespace SeekableArchive

namespace SeekTable

theorem totalCompressed_push (t : SeekTable) (compressed uncompressed checksum : UInt32) :
    (t.push compressed uncompressed checksum).totalCompressed =
      t.totalCompressed + compressed.toNat := by
  show List.sum _ = List.sum _ + _
  simp [push]

theorem totalUncompressed_push (t : SeekTable) (compressed uncompressed checksum : UInt32) :
    (t.push compressed uncompressed checksum).totalUncompressed =
      t.totalUncompressed + uncompressed.toNat := by
  show List.sum _ = List.sum _ + _
  simp [push]

end SeekTable

namespace Writer

variable {ε σ : Type}

/-- Every byte that is counted is recorded in the log or pending, and `total` bytes have
been taken in. -/
structure Tallied (total : Nat) (w : Writer ε σ) : Prop where
  bytesOut : w.bytesOut = w.frameLog.table.totalCompressed + w.pendingCompressed
  bytesIn : w.bytesIn = w.frameLog.table.totalUncompressed + w.pendingUncompressed
  total : w.bytesIn = total

variable {total : Nat} {w w' : Writer ε σ}

theorem Tallied.credit (h : w.Tallied total) (data : Bytes) :
    (w.credit data).Tallied (total + data.length) := by
  constructor
  · exact h.bytesOut
  · rw [Writer.credit, h.bytesIn, Nat.add_assoc]
  · rw [Writer.credit, h.total]

theorem Tallied.pump (h : w.Tallied total) (e : ε) (s : σ) (j : Journal) (count : Nat) :
    (w.pump e s j count).Tallied total := by
  constructor
  · rw [Writer.pump, h.bytesOut, Nat.add_assoc]
  · exact h.bytesIn
  · exact h.total

/-- What was pending is recorded, not more and not less. -/
theorem Tallied.recorded (h : w.Tallied total) {frameLog : FrameLog} {checksum : UInt32}
    (hrecord : w.frameLog.record w.pendingCompressed w.pendingUncompressed checksum =
      .ok frameLog) : (w.recorded frameLog).Tallied total := by
  obtain ⟨-, -, hcompressed, huncompressed, -, htable⟩ := FrameLog.record_eq_ok_iff.mp hrecord
  constructor
  · show w.bytesOut = frameLog.table.totalCompressed + 0
    rw [htable, SeekTable.totalCompressed_push, SeekTable.toNat_ofNat_of_le hcompressed,
      h.bytesOut, Nat.add_zero]
  · show w.bytesIn = frameLog.table.totalUncompressed + 0
    rw [htable, SeekTable.totalUncompressed_push, SeekTable.toNat_ofNat_of_le huncompressed,
      h.bytesIn, Nat.add_zero]
  · exact h.total

end Writer

namespace Action

open Writer (Tallied Whole Cut)

variable {ε σ : Type} [Engine ε] [Sink σ] {total : Nat}

theorem tallied_stable :
    Stable (Tallied total : Writer ε σ → Prop) (Tallied total) where
  halts _ hw := hw
  compress _ _ _ := ensures_onEngine fun _ _ _ hw => ⟨hw.bytesOut, hw.bytesIn, hw.total⟩
  append chunk := by
    apply (ensures_onSink fun _ _ _ hw => ⟨hw.bytesOut, hw.bytesIn, hw.total⟩).bind
    intro _
    exact ensures_modify fun w hw => hw.pump w.engine w.sink w.journal chunk.length
  record := by
    apply ensures_recordFrame
    · exact fun _ hw => ⟨hw.bytesOut, hw.bytesIn, hw.total⟩
    · exact fun _ _ hrecord hw => hw.recorded hrecord

theorem status_stable (status : Status) :
    Stable (fun w : Writer ε σ => w.status = status) fun w => w.status = status where
  halts _ hw := hw
  compress _ _ _ := ensures_onEngine fun _ _ _ hw => hw
  append _ := (ensures_onSink fun _ _ _ hw => hw).bind fun _ => ensures_modify fun _ hw => hw
  record := ensures_recordFrame (fun _ hw => hw) fun _ _ _ hw => hw

theorem status_accept (status : Status) (data : Bytes) :
    Ensures (fun w : Writer ε σ => w.status = status) (accept data)
      (fun _ w => w.status = status) fun w => w.status = status :=
  (status_stable status).accept fun _ hw => hw

theorem tallied_accept (data : Bytes) :
    Ensures (Tallied total : Writer ε σ → Prop) (accept data)
      (fun _ => Tallied (total + data.length)) (Tallied total) :=
  tallied_stable.accept fun _ hw => hw.credit data

theorem whole_accept (appending : Sink.Appending σ) (data : Bytes) :
    Ensures (Whole appending : Writer ε σ → Prop) (accept data) (fun _ => Whole appending)
      fun w => w.Whole appending ∨ w.Cut appending :=
  whole_stable.accept fun _ hw => ⟨hw.unrefused, hw.contents, hw.counted⟩

end Action

namespace Writer

variable {ε σ : Type} [Engine ε] [Sink σ] {appending : Sink.Appending σ} {total : Nat}
  {w w' : Writer ε σ}

/-- The counters are right, and only a writer that takes no more writes may have been
refused. -/
structure Accounted (appending : Sink.Appending σ) (total : Nat) (w : Writer ε σ) : Prop where
  tallied : w.Tallied total
  sink : w.Whole appending ∨ w.Cut appending
  usable : w.status = .usable → w.Whole appending
  unclosed : w.status ≠ .closed

/-- The payloads whose write was answered by a success. -/
def succeeded : List (Except Halt Unit) → List Bytes → List Bytes
  | .ok () :: answers, data :: writes => data :: succeeded answers writes
  | .error _ :: answers, _ :: writes => succeeded answers writes
  | _, _ => []

theorem succeeded_replicate (writes : List Bytes) :
    succeeded (List.replicate writes.length (.ok ())) writes = writes := by
  induction writes with
  | nil => rfl
  | cons data writes ih => exact congrArg (data :: ·) ih

omit [Engine ε] in
/-- A failed write leaves a writer behind that takes no more writes. -/
theorem accounted_of_halted (htallied : w.Tallied total)
    (hsink : w.Whole appending ∨ w.Cut appending) {status : Status} (husable : status ≠ .usable)
    (hunclosed : status ≠ .closed) : Accounted appending total { w with status } where
  tallied := ⟨htallied.bytesOut, htallied.bytesIn, htallied.total⟩
  sink := hsink.imp (fun hw => ⟨hw.unrefused, hw.contents, hw.counted⟩) id
  usable h := absurd h husable
  unclosed := hunclosed

theorem Accounted.write (h : w.Accounted appending total) (data : Bytes) :
    match w.write data with
    | (.ok (), w') => w'.Accounted appending (total + data.length)
    | (.error _, w') => w'.Accounted appending total := by
  by_cases hstatus : w.status = .usable
  · simp only [Writer.write, hstatus]
    cases hrun : Action.accept data w with
    | ok u v =>
        have htallied := (Action.tallied_accept data).of_eq_ok h.tallied hrun
        have hwhole := (Action.whole_accept appending data).of_eq_ok (h.usable hstatus) hrun
        have husable : v.status = .usable :=
          (Action.status_accept .usable data).of_eq_ok hstatus hrun
        exact ⟨htallied, .inl hwhole, fun _ => hwhole, by simp [husable]⟩
    | error halt v =>
        have htallied := (Action.tallied_accept data).of_eq_error h.tallied hrun
        have hsink := (Action.whole_accept appending data).of_eq_error (h.usable hstatus) hrun
        cases halt with
        | unfinished => exact accounted_of_halted htallied hsink (by simp) (by simp)
        | failed error =>
            have hnoted : (v.note (.logged (.writeFailed error))).Tallied total :=
              ⟨htallied.bytesOut, htallied.bytesIn, htallied.total⟩
            exact accounted_of_halted hnoted (hsink.imp (·.note _ rfl rfl) (·.note _ rfl))
              (by simp) (by simp)
  · obtain ⟨halt, hturned⟩ := write_of_unusable hstatus data
    rw [hturned]
    exact h

theorem Accounted.writeAll {writes : List Bytes} {answers : List (Except Halt Unit)}
    (h : w.Accounted appending total) (hrun : w.writeAll writes = (answers, w')) :
    w'.Accounted appending (total + ((succeeded answers writes).map List.length).sum) := by
  -- The total is general, since the answers to the later writes add to that of the first.
  induction writes generalizing w total answers with
  | nil =>
      cases hrun
      exact h
  | cons data writes ih =>
      have hfirst := h.write data
      rw [Writer.writeAll] at hrun
      cases hwrite : w.write data with
      | mk answer v =>
          cases hrest : v.writeAll writes with
          | mk rest u =>
              simp only [hwrite, hrest, Prod.mk.injEq] at hrun hfirst
              obtain ⟨rfl, rfl⟩ := hrun
              cases answer with
              | ok _ =>
                  simp only [succeeded, List.map_cons, List.sum_cons, ← Nat.add_assoc]
                  exact ih hfirst hrest
              | error halt => exact ih hfirst hrest

theorem Tallied.accepts {writes : List Bytes} (h : w.Tallied total) (hw : w.Balanced)
    (hrun : w.Accepts writes w') : w'.Tallied (total + (writes.map List.length).sum) := by
  induction writes generalizing w total with
  | nil =>
      cases accepts_nil_iff.mp hrun
      exact h
  | cons data writes ih =>
      obtain ⟨v, hwrite, hrest⟩ := accepts_cons_iff.mp hrun
      have haccept := write_eq_ok hw.usable hwrite
      rw [List.map_cons, List.sum_cons, ← Nat.add_assoc]
      exact ih ((Action.tallied_accept data).of_eq_ok h haccept) (hw.accept haccept).1 hrest

/-! ## Opening and closing -/

theorem refusals_opened {config : Config} {engine : ε} {sink : σ} {limit : Nat}
    (h : openWith config (.ok engine) (.ok sink) limit = .ok w) : w.journal.refusals = [] := by
  cases hvalid : config.validate with
  | error fault => simp [openWith, hvalid] at h
  | ok u =>
      cases hset : configureAll config.settings ⟨engine, Journal.empty.note .engineCreated⟩ with
      | error error r => simp [openWith, hvalid, hset] at h
      | ok u r =>
          have hrefusals := (configureAll_eq_ok hset).2 Journal.refusals
            fun _ _ => Journal.refusals_note_of_not rfl _
          simp only [openWith, hvalid, hset] at h
          cases h
          rw [Journal.refusals_note_of_not rfl, Journal.refusals_note_of_not rfl, hrefusals]
          rfl

theorem accounted_opened {config : Config} {engine : ε} {sink : σ} {limit : Nat}
    (hempty : appending.contents sink = [])
    (h : openWith config (.ok engine) (.ok sink) limit = .ok w) : w.Accounted appending 0 := by
  have hrefusals := refusals_opened h
  obtain ⟨-, e, j, -, -, hstored, rfl⟩ := openWith_eq_ok h
  have hwhole : (fresh config e sink j limit).Whole appending :=
    ⟨hrefusals, hempty.trans hstored.symm, congrArg List.length hstored⟩
  exact ⟨⟨rfl, rfl, rfl⟩, .inl hwhole, fun _ => hwhole, by simp [fresh]⟩

/-- The end of an archive leaves nothing pending. -/
theorem Tallied.complete (h : w.Tallied total) (hrun : Action.complete w = .ok () w') :
    w'.frameLog.table.totalUncompressed = total ∧ w'.bytesIn = total := by
  rw [Action.run_complete, Action.bind_eq_ok_iff] at hrun
  obtain ⟨_, v, hend, htable⟩ := hrun
  have hv := (Action.tallied_stable.endFrameIf _).of_eq_ok h hend
  have hpending : v.pendingUncompressed = 0 := by
    rw [Action.endFrameIf_eq_ok_iff] at hend
    by_cases hopen : 0 < w.pendingUncompressed
    · rw [if_pos hopen] at hend
      obtain ⟨-, u, -, hrecord⟩ := Action.endFrame_eq_ok_iff.mp hend
      obtain ⟨frameLog, -, rfl⟩ := Action.recordFrame_eq_ok_iff.mp hrecord
      rfl
    · rw [if_neg hopen] at hend
      rw [hend]
      exact Nat.eq_zero_of_not_pos hopen
  have hrecorded : v.frameLog.table.totalUncompressed = total := by
    have hbytes := hv.bytesIn
    rw [hpending, hv.total] at hbytes
    exact hbytes.symm
  have hkept : Action.Ensures
      (fun u : Writer ε σ => u.frameLog.table.totalUncompressed = total ∧ u.bytesIn = total)
      Action.writeTable
      (fun _ u => u.frameLog.table.totalUncompressed = total ∧ u.bytesIn = total)
      fun u => u.frameLog.table.totalUncompressed = total ∧ u.bytesIn = total := by
    apply Action.ensures_writeTable
    · exact fun _ hu => hu
    · exact fun _ _ hu => hu
    · exact fun _ => Action.ensures_onSink fun _ _ _ hu => hu
    · exact fun _ _ hu => hu
  exact hkept.of_eq_ok ⟨hrecorded, hv.total⟩ htable

end Writer

namespace CleanRun

variable {ε σ : Type} [Engine ε] [Sink σ] {config : Config} {engine : ε} {sink : σ}
  {limit : Nat} {writes : List Bytes} (run : CleanRun config engine sink limit writes)
  {appending : Sink.Appending σ}

theorem tallied_written : run.written.Tallied (writes.map List.length).sum := by
  have hopened : run.opened.Tallied 0 := by
    obtain ⟨-, e, j, -, -, -, hfresh⟩ := Writer.openWith_eq_ok run.opens
    rw [hfresh]
    exact ⟨rfl, rfl, rfl⟩
  have hwritten := hopened.accepts run.balanced_opened run.accepts
  rwa [Nat.zero_add] at hwritten

theorem bytesIn_written : run.written.stats.bytesIn = (writes.map List.length).sum := by
  rw [Writer.stats, if_neg (by simp [run.balanced_written.1.usable])]
  exact run.tallied_written.total

theorem bytesIn_summary : run.summary.bytesIn = (writes.map List.length).sum := by
  obtain ⟨-, v, s, hcomplete, -, hsummary, -⟩ := Writer.close_eq_ok run.closes
  rw [hsummary]
  exact (run.tallied_written.complete hcomplete).2

theorem accounted_written (hempty : appending.contents sink = []) :
    run.written.Accounted appending (writes.map List.length).sum := by
  have haccounted := (Writer.accounted_opened hempty run.opens).writeAll run.accepts
  rwa [Writer.succeeded_replicate, Nat.zero_add] at haccounted

/-- In the end a sink that appends what it accepts holds what has been stored. -/
theorem whole_closed (hempty : appending.contents sink = []) :
    run.closed.Whole appending := by
  have hwritten := (run.accounted_written hempty).usable run.balanced_written.1.usable
  obtain ⟨-, v, s, hcomplete, hclose, -, hclosed⟩ := Writer.close_eq_ok run.closes
  have hv := Action.whole_complete.of_eq_ok hwritten hcomplete
  rw [hclosed]
  constructor
  · rw [Journal.refusals_note_of_not rfl, Journal.refusals_note_of_not rfl,
      Journal.refusals_note_of_not rfl, Journal.refusals_note_of_not rfl]
    exact hv.unrefused
  · simp only [Journal.stored_note, Event.stored, List.append_nil]
    exact (appending.close hclose).trans hv.contents
  · simp only [Journal.stored_note, Event.stored, List.append_nil]
    exact hv.counted

theorem totals_closed (hempty : appending.contents sink = []) :
    run.closed.frameLog.table.totalUncompressed = (writes.map List.length).sum ∧
      run.closed.bytesIn = (writes.map List.length).sum := by
  obtain ⟨-, v, s, hcomplete, -, -, hclosed⟩ := Writer.close_eq_ok run.closes
  have hv := (run.accounted_written hempty).tallied.complete hcomplete
  rw [hclosed]
  exact hv

/-- The table is found in the archive, and the summary is about it. -/
theorem summary_matches_table (hempty : appending.contents sink = []) :
    SeekTable.parse (appending.contents run.closed.sink) = .ok run.closed.frameLog.table ∧
      run.summary = ⟨run.closed.frameLog.table.entries.size, (writes.map List.length).sum,
        (appending.contents run.closed.sink).length⟩ := by
  have hwhole := run.whole_closed hempty
  have hsummary : run.summary =
      ⟨run.closed.frames, run.closed.bytesIn, run.closed.bytesOut⟩ := by
    obtain ⟨-, v, s, -, -, hsummary, hclosed⟩ := Writer.close_eq_ok run.closes
    rw [hclosed]
    exact hsummary
  obtain ⟨-, hbytesIn⟩ := run.totals_closed hempty
  constructor
  · rw [hwhole.contents, run.sealed_closed.stored]
    exact SeekTable.parse_append_encode _ run.closed.frameLog.bounded _
  · rw [hsummary, hbytesIn, hwhole.length_contents]
    rfl

end CleanRun

namespace Writer

variable {ε σ : Type} [Engine ε] [Sink σ]

/-- The counters agree whatever the writes were answered.  The sink is not behind what has been
counted, and ahead only by what it accepted of the offer that it refused.  A summary tells how
long the archive is, and how many frames and bytes the table lists that is found at its end. -/
theorem counters_agree (appending : Sink.Appending σ) {config : Config} {engine : ε}
    {sink : σ} {limit : Nat} {opened w : Writer ε σ} {writes : List Bytes}
    {answers : List (Except Halt Unit)} (hempty : appending.contents sink = [])
    (hopen : openWith config (.ok engine) (.ok sink) limit = .ok opened)
    (hrun : opened.writeAll writes = (answers, w)) :
    w.stats.bytesOut = w.frameLog.table.totalCompressed + w.stats.pendingCompressed ∧
    w.stats.bytesIn = w.frameLog.table.totalUncompressed + w.stats.pendingUncompressed ∧
    w.stats.bytesIn = ((succeeded answers writes).map List.length).sum ∧
    w.stats.frames = w.frameLog.entries.size ∧
    (w.journal.refusals = [] ∧ (appending.contents w.sink).length = w.stats.bytesOut ∨
      ∃ data s event, w.journal.refusals = [event] ∧ Sink.Refuses data s event w.sink ∧
        (appending.contents w.sink).length =
          w.stats.bytesOut + (appending.accepted data s).length) ∧
    ∀ summary closed, w.close = (.ok summary, closed) → ∃ table,
      SeekTable.parse (appending.contents closed.sink) = .ok table ∧
      summary.bytesOut = (appending.contents closed.sink).length ∧
      summary.frames = table.entries.size ∧
      summary.bytesIn = table.totalUncompressed ∧
      summary.bytesIn = (writes.map List.length).sum := by
  have haccounted := (accounted_opened hempty hopen).writeAll hrun
  rw [Nat.zero_add] at haccounted
  obtain ⟨⟨hbytesOut, hbytesIn, htotal⟩, hsink, -, hunclosed⟩ := haccounted
  simp only [stats, if_neg hunclosed]
  refine ⟨hbytesOut, hbytesIn, htotal, rfl, ?_, ?_⟩
  · exact hsink.imp (fun hwhole => ⟨hwhole.unrefused, hwhole.length_contents⟩) id
  · intro summary closed hclose
    let run := CleanRun.ofClosed hopen hrun hclose
    obtain ⟨hparse, hsummary⟩ := run.summary_matches_table hempty
    have hfields : summary = ⟨closed.frameLog.table.entries.size, (writes.map List.length).sum,
      (appending.contents closed.sink).length⟩ := hsummary
    refine ⟨closed.frameLog.table, hparse, ?_⟩
    rw [hfields]
    exact ⟨rfl, rfl, (run.totals_closed hempty).1.symm, rfl⟩

/-- The third write ends a frame, and of what it offers next two bytes are accepted.  The run
that nothing disturbs can be closed. -/
theorem counters_agree_after_short_write :
    (∃ opened w : Writer EagerEngine (FaultySink MemorySink),
      openWith EagerEngine.config (.ok {}) (.ok EagerEngine.shortSink) 4 = .ok opened ∧
      opened.writeAll [[1, 2, 3], [4, 5, 6, 7], [8], [9]] =
        ([.ok (), .ok (), .error (.failed (.sink (.shortWrite 5 2))),
          .error (.failed .poisoned)], w) ∧
      w.stats.bytesIn = 7 ∧ w.sink.sink.contents.length = w.stats.bytesOut + 2) ∧
    ∃ table, SeekTable.parse (MemorySink.appending.contents EagerEngine.run.closed.sink) =
        .ok table ∧
      51 = (MemorySink.appending.contents EagerEngine.run.closed.sink).length ∧
      2 = table.entries.size ∧ 8 = table.totalUncompressed := by
  constructor
  · have hshort : ∃ opened : Writer EagerEngine (FaultySink MemorySink),
        openWith EagerEngine.config (.ok {}) (.ok EagerEngine.shortSink) 4 = .ok opened ∧
        (opened.writeAll [[1, 2, 3], [4, 5, 6, 7], [8], [9]]).1 =
          [.ok (), .ok (), .error (.failed (.sink (.shortWrite 5 2))),
            .error (.failed .poisoned)] ∧
        (opened.writeAll [[1, 2, 3], [4, 5, 6, 7], [8], [9]]).2.journal.refusals =
          [.sinkOffered [0xF0, 3, 0, 0, 8] (some 2)] :=
      ⟨_, rfl, by decide +kernel, by decide +kernel⟩
    obtain ⟨opened, hopen, hanswers, hrefusals⟩ := hshort
    have hrun : opened.writeAll [[1, 2, 3], [4, 5, 6, 7], [8], [9]] = (_, _) :=
      Prod.ext hanswers rfl
    obtain ⟨-, -, hbytesIn, -, hsink, -⟩ :=
      counters_agree (FaultySink.appending MemorySink.appending) rfl hopen hrun
    refine ⟨opened, _, hopen, hrun, hbytesIn, ?_⟩
    rcases hsink with ⟨hnone, -⟩ | ⟨data, s, event, hone, hrefuses, hlength⟩
    · rw [hrefusals] at hnone
      cases hnone
    · rw [hrefusals] at hone
      cases hone
      cases hrefuses with
      | short hwrite hshort =>
          obtain ⟨htwo, -⟩ := (FaultySink.appending MemorySink.appending).write_ok hwrite
          rw [← htwo] at hlength
          exact hlength
  · obtain ⟨-, -, -, -, -, hclose⟩ := counters_agree MemorySink.appending rfl
      EagerEngine.run.opens EagerEngine.run.accepts
    have hsummary : EagerEngine.run.summary = ⟨2, 8, 51⟩ := rfl
    obtain ⟨table, hparse, hlength, hframes, hbytesIn, -⟩ := hclose _ _ EagerEngine.run.closes
    rw [hsummary] at hlength hframes hbytesIn
    exact ⟨table, hparse, hlength, hframes, hbytesIn⟩

end Writer
end SeekableArchive
