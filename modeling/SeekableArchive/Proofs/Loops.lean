import SeekableArchive.Proofs.Action
import SeekableArchive.Proofs.FrameLog
import SeekableArchive.Proofs.Session

/-!
# What the loops achieve

What the loops of a writer have done when they succeed, for every engine and every
sink: `consume` has had exactly its data taken in, `drainFrame` has had nothing taken
in and the frame ended, and whatever was given out meanwhile has been stored and
counted.  `drainTable` has stored the rest of the encoded table.
-/

namespace SeekableArchive

/-- A call that may idle only on the empty input, and leaves something, takes in or gives out a
byte. -/
theorem EngineStep.length_drop_lt {step : EngineStep} {data : Bytes}
    (hmoves : step.Stalled → data = []) (hmore : data.drop step.consumed ≠ []) :
    (data.drop step.consumed).length < data.length + step.output.length := by
  have hleft := List.length_pos_iff.mpr hmore
  have hmoved : 0 < step.consumed ∨ 0 < step.output.length := by
    by_contra hidle
    have hdata := hmoves ⟨by omega, List.length_eq_zero_iff.mp (by omega)⟩
    exact hmore (by rw [hdata, List.drop_nil])
  rw [List.length_drop] at hleft ⊢
  omega

namespace Action

variable {ε σ : Type} [Engine ε] [Sink σ] {w w' : Writer ε σ}

/-- One call and the offer of its output, both of which succeed. -/
theorem compress_append_eq_ok {mode : FlushMode} {input : Bytes} {room : Nat}
    {step : EngineStep} {v : Writer ε σ}
    (hcall : onEngine (Recorded.compress mode input room) w = .ok step v)
    (happend : append step.output v = .ok () w') :
    ∃ e s j, w' = w.pump e s j step.output.length ∧
      Engine.compress mode input room w.engine = .ok step e ∧
      j.flows = w.journal.flows.call mode input step ∧
      j.stored = w.journal.stored ++ step.output := by
  rw [run_compress] at hcall
  cases hengine : Engine.compress mode input room w.engine with
  | error error e => simp [hengine] at hcall
  | ok made e =>
      simp only [hengine] at hcall
      cases hcall
      obtain ⟨s, j, rfl, hflows, hstored⟩ := append_eq_ok happend
      exact ⟨e, s, j, rfl, rfl, hflows, by simpa [Event.stored] using hstored⟩

theorem run_consume_succ (room calls : Nat) (data : Bytes) (w : Writer ε σ) :
    consume room (calls + 1) data w =
      match onEngine (Recorded.compress .proceed data room) w with
      | .error halt v => .error halt v
      | .ok step v =>
          if step.Stalled ∧ data ≠ [] then .error (.failed .stalled) v
          else match append step.output v with
            | .error halt u => .error halt u
            | .ok () u =>
                if data.drop step.consumed = [] then .ok () u
                else consume room calls (data.drop step.consumed) u := by
  rw [consume, run_bind]
  cases onEngine (Recorded.compress .proceed data room) w with
  | error halt v => rfl
  | ok step v =>
      simp only [run_ite, run_bind]
      by_cases hstalled : step.Stalled ∧ data ≠ []
      · rw [if_pos hstalled, if_pos hstalled]
        rfl
      · rw [if_neg hstalled, if_neg hstalled]
        cases append step.output v <;> rfl

theorem run_drainFrame_succ (room calls : Nat) (w : Writer ε σ) :
    drainFrame room (calls + 1) w =
      match onEngine (Recorded.compress .complete [] room) w with
      | .error halt v => .error halt v
      | .ok step v =>
          match append step.output v with
          | .error halt u => .error halt u
          | .ok () u => if step.remaining = 0 then .ok () u else drainFrame room calls u := by
  rw [drainFrame, run_bind]
  cases onEngine (Recorded.compress .complete [] room) w with
  | error halt v => rfl
  | ok step v =>
      simp only [run_ite, run_bind]
      cases append step.output v <;> rfl

/-- What a round of `consume` has done if the loop succeeds, and what is left for the next. -/
theorem consume_succ_eq_ok {room calls : Nat} {data : Bytes}
    (h : consume room (calls + 1) data w = .ok () w') :
    ∃ e s j step, Engine.compress .proceed data room w.engine = .ok step e ∧
      j.flows = w.journal.flows.fill (data.take step.consumed) step.output ∧
      j.stored = w.journal.stored ++ step.output ∧
      if data.drop step.consumed = [] then w' = w.pump e s j step.output.length
      else consume room calls (data.drop step.consumed) (w.pump e s j step.output.length) =
        .ok () w' := by
  rw [run_consume_succ] at h
  split at h
  · cases h
  · rename_i step v hcall
    split at h
    · cases h
    · split at h
      · cases h
      · rename_i u happend
        obtain ⟨e, s, j, rfl, hengine, hflows, hstored⟩ := compress_append_eq_ok hcall happend
        rw [Flows.call_proceed] at hflows
        refine ⟨e, s, j, step, hengine, hflows, hstored, ?_⟩
        by_cases hrest : data.drop step.consumed = []
        · rw [if_pos hrest] at h ⊢
          cases h
          rfl
        · rw [if_neg hrest] at h ⊢
          exact h

theorem consume_eq_ok {room calls : Nat} {data : Bytes}
    (h : consume room calls data w = .ok () w') :
    ∃ e s j given, w' = w.pump e s j given.length ∧ Engine.Feeds room w.engine data given e ∧
      j.flows = w.journal.flows.fill data given ∧ j.stored = w.journal.stored ++ given := by
  induction calls generalizing data w with
  | zero => cases h
  | succ calls ih =>
      obtain ⟨e, s, j, step, hengine, hflows, hstored, hnext⟩ := consume_succ_eq_ok h
      by_cases hrest : data.drop step.consumed = []
      · rw [if_pos hrest] at hnext
        refine ⟨e, s, j, step.output, hnext, .last hengine hrest, ?_, hstored⟩
        rw [hflows, List.take_of_length_le (List.drop_eq_nil_iff.mp hrest)]
      · rw [if_neg hrest] at hnext
        obtain ⟨e', s', j', given, rfl, hfeeds, hflows', hstored'⟩ := ih hnext
        refine ⟨e', s', j', step.output ++ given, by simp, .more hengine hrest hfeeds, ?_, ?_⟩
        · change j'.flows = j.flows.fill _ _ at hflows'
          rw [hflows', hflows, Flows.fill_fill, List.take_append_drop]
        · change j'.stored = j.stored ++ _ at hstored'
          rw [hstored', hstored, List.append_assoc]

theorem drainFrame_eq_ok {room calls : Nat} (h : drainFrame room calls w = .ok () w') :
    ∃ e s j given, w' = w.pump e s j given.length ∧ Engine.Drains room w.engine given e ∧
      j.flows = (w.journal.flows.fill [] given).finish ∧
      j.stored = w.journal.stored ++ given := by
  induction calls generalizing w with
  | zero => cases h
  | succ calls ih =>
      rw [run_drainFrame_succ] at h
      split at h
      · cases h
      · rename_i step v hcall
        split at h
        · cases h
        · rename_i u happend
          obtain ⟨e, s, j, rfl, hengine, hflows, hstored⟩ := compress_append_eq_ok hcall happend
          split at h
          · rename_i hdone
            cases h
            rw [Flows.call_complete_of_eq_zero _ hdone] at hflows
            exact ⟨e, s, j, step.output, rfl, .last hengine hdone, hflows, hstored⟩
          · rename_i hmore
            rw [Flows.call_complete_of_ne_zero _ hmore] at hflows
            obtain ⟨e', s', j', given, rfl, hdrains, hflows', hstored'⟩ := ih h
            refine ⟨e', s', j', step.output ++ given, by simp, .more hengine hmore hdrains,
              ?_, ?_⟩
            · change j'.flows = (j.flows.fill [] given).finish at hflows'
              rw [hflows', hflows, Flows.fill_fill, List.append_nil]
            · change j'.stored = j.stored ++ given at hstored'
              rw [hstored', hstored, List.append_assoc]

/-- The calls of `consume` continue a session. -/
theorem session_consume {start asking : ε} {asked : Flows} {calls : Nat} {data : Bytes}
    (hasked : Engine.Session start asked asking)
    (hsession : Engine.Session start w.journal.flows w.engine)
    (h : consume (Engine.outputChunkSize asking) calls data w = .ok () w') :
    Engine.Session start w'.journal.flows w'.engine := by
  induction calls generalizing data w with
  | zero => cases h
  | succ calls ih =>
      obtain ⟨e, s, j, step, hengine, hflows, -, hnext⟩ := consume_succ_eq_ok h
      have hsession' : Engine.Session start j.flows e := by
        rw [hflows]
        exact .proceed hasked hsession hengine
      by_cases hrest : data.drop step.consumed = []
      · rw [if_pos hrest] at hnext
        rw [hnext]
        exact hsession'
      · rw [if_neg hrest] at hnext
        exact ih hsession' hnext

/-- What `drainTable` does with a piece of the table that the log has handed out. -/
def tableRound (room pieces : Nat) (step : FooterStep) : Action ε σ Unit := do
  onSink (Sink.writeFully step.output)
  modify fun w => { w with bytesOut := w.bytesOut + step.output.length }
  if step.remaining = 0 then pure () else drainTable room pieces

omit [Engine ε] in
theorem run_drainTable_round (room pieces : Nat) (w : Writer ε σ) :
    drainTable room (pieces + 1) w = tableRound room pieces (w.frameLog.serialize room).1
      { w with frameLog := (w.frameLog.serialize room).2 } := by
  rw [drainTable, run_get_bind, run_ofExcept_bind, FrameLog.reserveTable_eq_ok]
  rfl

omit [Engine ε] in
theorem run_drainTable_succ (room pieces : Nat) (w : Writer ε σ) :
    drainTable room (pieces + 1) w =
      match onSink (Sink.writeFully (w.frameLog.serialize room).1.output)
        { w with frameLog := (w.frameLog.serialize room).2 } with
      | .error halt v => .error halt v
      | .ok () v =>
          let counted := { v with
            bytesOut := v.bytesOut + (w.frameLog.serialize room).1.output.length }
          if (w.frameLog.serialize room).1.remaining = 0 then .ok () counted
          else drainTable room pieces counted := by
  rw [run_drainTable_round, tableRound, run_bind]
  cases onSink (Sink.writeFully (w.frameLog.serialize room).1.output)
      { w with frameLog := (w.frameLog.serialize room).2 } with
  | error halt v => rfl
  | ok u v => exact run_ite ((w.frameLog.serialize room).1.remaining = 0) _ _ _

omit [Engine ε] in
theorem drainTable_eq_ok {room pieces : Nat} (hcoherent : w.frameLog.Coherent)
    (h : drainTable room pieces w = .ok () w') :
    ∃ s j frameLog, w' = { w with
        sink := s, journal := j, frameLog
        bytesOut := w.bytesOut + w.frameLog.unread.length } ∧
      frameLog.table = w.frameLog.table ∧ j.flows = w.journal.flows ∧
      j.stored = w.journal.stored ++ w.frameLog.unread := by
  induction pieces generalizing w with
  | zero => cases h
  | succ pieces ih =>
      obtain ⟨houtput, hremaining, hunread, htable, hnext⟩ :=
        FrameLog.serialize_spec hcoherent room
      rw [run_drainTable_succ] at h
      split at h
      · cases h
      · rename_i v hoffer
        obtain ⟨s, j, rfl, hflows, hstored⟩ := offer_eq_ok hoffer
        split at h
        · rename_i hdone
          have hall : w.frameLog.unread.take room = w.frameLog.unread := by
            apply List.take_of_length_le
            rw [hdone, List.length_drop] at hremaining
            omega
          cases h
          rw [houtput, hall] at hstored
          refine ⟨s, j, _, by rw [houtput, hall], htable, hflows, hstored⟩
        · obtain ⟨s', j', frameLog, rfl, htable', hflows', hstored'⟩ := ih hnext h
          refine ⟨s', j', frameLog, ?_, htable'.trans htable, hflows'.trans hflows, ?_⟩
          · have hlength : w.frameLog.unread.length =
                (w.frameLog.serialize room).1.output.length +
                  (w.frameLog.serialize room).2.unread.length := by
              rw [houtput, hunread, ← List.length_append, List.take_append_drop]
            simp only [hlength, Nat.add_assoc]
          · change j'.stored = j.stored ++ (w.frameLog.serialize room).2.unread at hstored'
            rw [hstored', hstored, houtput, hunread, List.append_assoc, List.take_append_drop]

end Action

end SeekableArchive
