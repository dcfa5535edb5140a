import SeekableArchive.Proofs.EngineCalls
import SeekableArchive.Proofs.Progress

/-!
# Engines that stall

A write that meets a stalled engine is given up.  A frame end is not: the engine is told to
complete the frame again and again, for as long as it says that something is left.
-/

namespace SeekableArchive

/-! ## An engine that idles at the end of a frame -/

structure IdleEngine where
  /-- How many completing calls are to make no difference; without a number all of them. -/
  idle : Option Nat := none

namespace IdleEngine

instance : Engine IdleEngine where
  configure _ e := .ok () e
  outputChunkSize _ := 64
  compress mode input room e :=
    match mode, e.idle with
    | .proceed, _ => .ok ⟨input.length, [], 0⟩ e
    | .complete, none => .ok ⟨0, [], 1⟩ e
    | .complete, some (count + 1) => .ok ⟨0, [], 1⟩ ⟨some count⟩
    | .complete, some 0 =>
        if room = 0 then .ok ⟨0, [], 1⟩ e else .ok ⟨input.length, [0xFE], 0⟩ e

theorem respectsBuffers : Engine.RespectsBuffers IdleEngine := by
  intro mode input room e e' step h
  simp only [Engine.compress] at h
  split at h
  · cases h
    exact ⟨Nat.le_refl _, Nat.zero_le _⟩
  · cases h
    exact ⟨Nat.zero_le _, Nat.zero_le _⟩
  · cases h
    exact ⟨Nat.zero_le _, Nat.zero_le _⟩
  · split at h
    · cases h
      exact ⟨Nat.zero_le _, Nat.zero_le _⟩
    · cases h
      exact ⟨Nat.le_refl _, by simp only [List.length_singleton]; omega⟩

def config : Config where
  minFrameSize := 64

variable {σ : Type} [Sink σ]

/-- An engine that idles for ever keeps the loop busy up to its limit. -/
theorem drainFrame_of_idle {w : Writer IdleEngine σ} (h : w.engine.idle = none)
    (room calls : Nat) : ∃ journal,
      Action.drainFrame room calls w = .error .unfinished { w with journal } ∧
      journal.calls =
        w.journal.calls ++ List.replicate calls ⟨.complete, [], room, some ⟨0, [], 1⟩⟩ := by
  induction calls generalizing w with
  | zero => exact ⟨w.journal, rfl, (List.append_nil _).symm⟩
  | succ calls ih =>
      have hidle : Engine.compress .complete [] room w.engine = .ok ⟨0, [], 1⟩ w.engine := by
        simp only [Engine.compress, h]
      obtain ⟨journal, hrest, hcalls⟩ := ih (w := { w with
        journal := w.journal.note (.engineCalled .complete [] room (some ⟨0, [], 1⟩)) }) h
      refine ⟨journal, ?_, ?_⟩
      · rw [Action.run_drainFrame_succ, Action.run_compress, hidle]
        exact hrest
      · rw [hcalls, Journal.calls_note, List.append_assoc]
        rfl

theorem close_of_idle {w : Writer IdleEngine σ} (husable : w.status = .usable)
    (hidle : w.engine.idle = none) (hpending : 0 < w.pendingUncompressed) :
    w.close.1 = .error .unfinished ∧ w.close.2.journal.calls = w.journal.calls ++
      List.replicate w.callLimit ⟨.complete, [], 64, some ⟨0, [], 1⟩⟩ := by
  obtain ⟨journal, hdrain, hcalls⟩ := drainFrame_of_idle hidle 64 w.callLimit
  have hbuffer : Action.outputBuffer "frame end output buffer" w = .ok 64 w :=
    Action.outputBuffer_eq_ok_iff.mpr ⟨rfl, rfl, rfl⟩
  have hloop : (Action.drainFrame 64 w.callLimit >>= fun _ => Action.recordFrame) w =
      .error .unfinished { w with journal } := Action.bind_eq_of_error hdrain
  have hend : Action.endFrame w = .error .unfinished { w with journal } :=
    (Action.bind_eq_of_ok hbuffer).trans hloop
  have hcomplete : Action.complete w = .error .unfinished { w with journal } := by
    rw [Action.run_complete, Action.endFrameIf, if_pos hpending]
    exact Action.bind_eq_of_error hend
  simp only [Writer.close, husable, hcomplete]
  exact ⟨trivial, hcalls⟩

end IdleEngine

/-! ## Writes and closes -/

namespace Writer

variable {ε σ : Type} [Engine ε] [Sink σ] {w : Writer ε σ}

theorem drives_write (h : w.status ≠ .hung) (data : Bytes) :
    ∃ calls, (w.write data).2.journal.calls = w.journal.calls ++ calls ∧
      Drives w.callLimit (data.length + 2) calls (w.write data).1 := by
  cases husable : w.status with
  | hung => exact absurd husable h
  | closed | poisoned =>
      simp only [Writer.write, husable]
      exact ⟨[], (List.append_nil _).symm, .nil (by simp)⟩
  | usable =>
      have haccept := Action.makes_accept data w rfl
      simp only [Writer.write, husable]
      cases hrun : Action.accept data w with
      | ok u v =>
          rw [hrun] at haccept
          exact haccept.2
      | error halt v =>
          rw [hrun] at haccept
          obtain ⟨calls, hcalls, hdrives⟩ := haccept
          cases halt with
          | unfinished => exact ⟨calls, hcalls, hdrives⟩
          | failed error =>
              refine ⟨calls, ?_, hdrives⟩
              simpa [note, Event.call?] using hcalls

omit [Engine ε] [Sink σ] in
theorem calls_release (w : Writer ε σ) : w.release.journal.calls = w.journal.calls := by
  simp [release, note, Event.call?]

theorem drives_close {size : Nat} (h : w.status ≠ .hung) (hunwritten : w.Unwritten size)
    (hsize : 0 < size) :
    ∃ calls, w.close.2.journal.calls = w.journal.calls ++ calls ∧
      Drives w.callLimit 1 calls w.close.1 := by
  cases husable : w.status with
  | hung => exact absurd husable h
  | closed =>
      simp only [Writer.close, husable]
      exact ⟨[], (List.append_nil _).symm, .nil (by simp)⟩
  | poisoned =>
      simp only [Writer.close, husable, calls_release]
      exact ⟨[], by simp [note, Event.call?], .nil (by simp)⟩
  | usable =>
      have hcalls := Action.makes_endFrameIf (0 < w.pendingUncompressed) w rfl
      cases hend : Action.endFrameIf (0 < w.pendingUncompressed) w with
      | error halt v =>
          rw [hend] at hcalls
          obtain ⟨calls, hcalls, hdrives⟩ := hcalls
          have hcomplete := Action.complete_of_end_eq_error hend
          simp only [Writer.close, husable, hcomplete]
          cases halt with
          | unfinished => exact ⟨calls, hcalls, hdrives.of_error (Nat.le_refl _)⟩
          | failed error =>
              exact ⟨calls, (calls_release v).trans hcalls, hdrives.of_error (Nat.le_refl _)⟩
      | ok u v =>
          rw [hend] at hcalls
          obtain ⟨-, calls, hcalls, hdrives⟩ := hcalls
          have hcomplete := Action.complete_of_end hend
          have hv := ((unwritten_stable size).endFrameIf _).of_eq_ok hunwritten hend
          simp only [Writer.close, husable, hcomplete]
          rcases Action.writeTable_outcome hv hsize with
            ⟨error, u, htable, hsame⟩ | ⟨u, htable, hsame⟩
          · simp only [htable]
            exact ⟨calls, (calls_release u).trans (hsame.trans hcalls), hdrives.of_ok (by simp)⟩
          · simp only [htable, Action.onSink, Recorded.close]
            cases Sink.close u.sink with
            | error error s =>
                refine ⟨calls, (calls_release _).trans ?_, hdrives.of_ok (by simp)⟩
                simpa [Event.call?] using hsame.trans hcalls
            | ok _ s =>
                refine ⟨calls, ?_, hdrives.of_ok (by simp)⟩
                simpa [note, release, Event.call?] using hsame.trans hcalls

theorem limit_stable (limit : Nat) :
    Action.Stable (fun w : Writer ε σ => w.callLimit = limit) fun w => w.callLimit = limit where
  halts _ hw := hw
  compress _ _ _ := Action.ensures_onEngine fun _ _ _ hw => hw
  append _ := (Action.ensures_onSink fun _ _ _ hw => hw).bind fun _ =>
    Action.ensures_modify fun _ hw => hw
  record := Action.ensures_recordFrame (fun _ hw => hw) fun _ _ _ hw => hw

theorem limit_upheld (limit : Nat) :
    Upheld (fun w : Writer ε σ => w.callLimit = limit) fun w => w.callLimit = limit where
  accept _ := (limit_stable limit).accept fun _ hw => hw
  poison _ hw := hw
  hang hw := hw

/-- A stalled engine is reported if it has been offered input, and asked again if it has been
told to complete a frame.  Whatever has been written before, and unless an operation is still
waiting for the engine, a write and a close drive the engine as `Drives` says. -/
theorem stalls_in_input_are_reported {config : Config} {engine : Except ArchiveError ε}
    {sink : Except SinkError σ} {limit : Nat} {opened w : Writer ε σ} {writes : List Bytes}
    {answers : List (Except Halt Unit)}
    (hopen : openWith config engine sink limit = .ok opened)
    (hrun : opened.writeAll writes = (answers, w)) (hstarts : w.status ≠ .hung) :
    (∀ data, ∃ calls, (w.write data).2.journal.calls = w.journal.calls ++ calls ∧
      Drives limit (data.length + 2) calls (w.write data).1) ∧
    ∃ calls, w.close.2.journal.calls = w.journal.calls ++ calls ∧
      Drives limit 1 calls w.close.1 := by
  have husable := status_opened hopen
  have hunwritten := (unwritten_upheld _).keeps husable (unwritten_opened hopen) writes
  obtain ⟨e, s, rfl, rfl⟩ := exists_of_opened hopen
  obtain ⟨hvalid, e', j, -, -, -, hfresh⟩ := openWith_eq_ok hopen
  have hlimit := (limit_upheld limit).keeps husable (hfresh ▸ rfl) writes
  rw [hrun] at hunwritten hlimit
  have hdrives := drives_close hstarts hunwritten hvalid.chunk_pos
  subst hlimit
  exact ⟨drives_write hstarts, hdrives⟩

/-- The engine leaves the first payload that it is offered where it is. -/
theorem stalled_write_is_reported :
    ∃ opened : Writer (FaultyEngine EagerEngine) MemorySink,
      openWith EagerEngine.config (FaultyEngine.create { stall := true } {}) (.ok {}) 4 =
        .ok opened ∧
      (opened.write [1, 2, 3]).1 = .error (.failed .stalled) := by
  have hstall : ∃ opened : Writer (FaultyEngine EagerEngine) MemorySink,
      openWith EagerEngine.config (FaultyEngine.create { stall := true } {}) (.ok {}) 4 =
        .ok opened ∧
      opened.journal.calls = [] ∧
      (opened.write [1, 2, 3]).2.journal.calls = [⟨.proceed, [1, 2, 3], 64, some .idle⟩] :=
    ⟨_, rfl, by decide +kernel, by decide +kernel⟩
  obtain ⟨opened, hopen, hnone, hone⟩ := hstall
  have hstarts : opened.status ≠ .hung := by
    rw [status_opened hopen]
    decide
  have hfirst : opened.writeAll [] = ([], opened) := rfl
  obtain ⟨hwrites, -⟩ := stalls_in_input_are_reported hopen hfirst hstarts
  obtain ⟨calls, hcalls, hdrives⟩ := hwrites [1, 2, 3]
  rw [hnone, hone, List.nil_append] at hcalls
  have hlast : calls = [] ++ [⟨.proceed, [1, 2, 3], 64, some .idle⟩] := hcalls.symm
  exact ⟨opened, hopen, (hdrives.reported hlast ⟨rfl, rfl⟩ nofun).2⟩

/-- A close that meets a stalled engine asks it again and succeeds.  If the engine goes on
like that, so does the close, up to whatever limit there is on the calls. -/
theorem stalled_close_is_not_reported :
    Engine.RespectsBuffers IdleEngine ∧
      (∃ opened w : Writer IdleEngine MemorySink,
        openWith IdleEngine.config (.ok ⟨some 1⟩) (.ok {}) 4 = .ok opened ∧
        opened.writeAll [[1, 2, 3]] = ([.ok ()], w) ∧ w.close.1 = .ok ⟨1, 3, 26⟩ ∧
        w.close.2.journal.calls = w.journal.calls ++
          [⟨.complete, [], 64, some ⟨0, [], 1⟩⟩, ⟨.complete, [], 64, some ⟨0, [0xFE], 0⟩⟩]) ∧
      ∀ limit, ∃ opened w : Writer IdleEngine MemorySink,
        openWith IdleEngine.config (.ok {}) (.ok {}) (limit + 1) = .ok opened ∧
        opened.writeAll [[1, 2, 3]] = ([.ok ()], w) ∧ w.close.1 = .error .unfinished ∧
        w.close.2.journal.calls = w.journal.calls ++
          List.replicate (limit + 1) ⟨.complete, [], 64, some ⟨0, [], 1⟩⟩ := by
  refine ⟨IdleEngine.respectsBuffers, ?_, fun limit => ?_⟩
  · have hagain : ∃ opened : Writer IdleEngine MemorySink,
        openWith IdleEngine.config (.ok ⟨some 1⟩) (.ok {}) 4 = .ok opened ∧
        (opened.writeAll [[1, 2, 3]]).1 = [.ok ()] ∧
        (opened.writeAll [[1, 2, 3]]).2.close.1 = .ok ⟨1, 3, 26⟩ ∧
        (opened.writeAll [[1, 2, 3]]).2.close.2.journal.calls =
          (opened.writeAll [[1, 2, 3]]).2.journal.calls ++
          [⟨.complete, [], 64, some ⟨0, [], 1⟩⟩, ⟨.complete, [], 64, some ⟨0, [0xFE], 0⟩⟩] :=
      ⟨_, rfl, by decide +kernel, by decide +kernel, by decide +kernel⟩
    obtain ⟨opened, hopen, hanswers, hclose, hcalls⟩ := hagain
    exact ⟨opened, _, hopen, Prod.ext hanswers rfl, hclose, hcalls⟩
  · have hwritten : ∃ opened w : Writer IdleEngine MemorySink,
        openWith IdleEngine.config (.ok {}) (.ok {}) (limit + 1) = .ok opened ∧
        opened.writeAll [[1, 2, 3]] = ([.ok ()], w) ∧ w.status = .usable ∧
        w.engine.idle = none ∧ w.pendingUncompressed = 3 ∧ w.callLimit = limit + 1 :=
      ⟨_, _, rfl, Prod.ext rfl rfl, rfl, rfl, rfl, rfl⟩
    obtain ⟨opened, w, hopen, hrun, husable, hidle, hpending, hlimit⟩ := hwritten
    have hclose := IdleEngine.close_of_idle husable hidle (by omega)
    rw [hlimit] at hclose
    exact ⟨opened, w, hopen, hrun, hclose⟩

end Writer
end SeekableArchive
