import SeekableArchive.Proofs.Poisoning
import SeekableArchive.Proofs.Progress

/-!
# An engine with short frames

The engine takes in whatever it is offered and ends a frame with a single byte.  So a frame
may hold more than the table can state, although what the engine has made of it is short.
-/

namespace SeekableArchive

/-! ## What engine calls keep -/

namespace Action

variable {ε σ : Type} [Sink σ] {R : Flows → Prop}

theorem flows_offer (chunk : Bytes) :
    Ensures (fun w : Writer ε σ => R w.journal.flows) (onSink (Sink.writeFully chunk))
      (fun _ w => R w.journal.flows) fun w => R w.journal.flows :=
  journal_offer (R := fun j => R j.flows) (fun _ _ hj => hj) chunk

variable [Engine ε]

theorem flows_stable
    (hcall : ∀ {flows mode input room} {e e' : ε} {step}, R flows →
      Engine.compress mode input room e = .ok step e' → R (flows.call mode input step)) :
    Stable (fun w : Writer ε σ => R w.journal.flows) fun w => R w.journal.flows where
  halts _ hw := hw
  compress mode input room := by
    intro w hw
    rw [run_compress]
    cases hstep : Engine.compress mode input room w.engine with
    | error error e => exact hw
    | ok step e => exact hcall hw hstep
  append chunk := (flows_offer chunk).bind fun _ => ensures_modify fun _ hw => hw
  record := ensures_recordFrame (fun _ hw => hw) fun _ _ _ hw => hw

end Action

namespace Writer

/-- What every call of the engine keeps of the flows is kept by a whole run. -/
theorem flows_keep {ε σ : Type} [Engine ε] [Sink σ] {w : Writer ε σ} {R : Flows → Prop}
    (hcall : ∀ {flows mode input room} {e e' : ε} {step}, R flows →
      Engine.compress mode input room e = .ok step e' → R (flows.call mode input step))
    (husable : w.status = .usable) (hw : R w.journal.flows) (writes : List Bytes) :
    R (w.writeAll writes).2.close.2.journal.flows := by
  have hstable : Action.Stable (fun w : Writer ε σ => R w.journal.flows)
      fun w => R w.journal.flows := Action.flows_stable hcall
  have hupheld : Upheld (fun w : Writer ε σ => R w.journal.flows) fun w => R w.journal.flows :=
    ⟨fun _ => hstable.accept fun _ hw => hw, fun _ hw => hw, fun hw => hw⟩
  have hwritten := hupheld.keeps husable hw writes
  generalize (w.writeAll writes).2 = v at hwritten ⊢
  have hcomplete := hstable.complete (fun _ _ hw => hw) Action.flows_offer (fun _ _ hw => hw)
    v hwritten
  cases hstatus : v.status with
  | closed | hung | poisoned =>
      simp only [close, hstatus]
      exact hwritten
  | usable =>
      simp only [close, hstatus]
      cases hrun : Action.complete v with
      | error halt u =>
          rw [hrun] at hcomplete
          cases halt <;> exact hcomplete
      | ok _ u =>
          rw [hrun] at hcomplete
          simp only [Action.onSink, Recorded.close]
          cases Sink.close u.sink with
          | error error s => exact hcomplete
          | ok _ s => exact hcomplete

end Writer

/-- An engine that says nothing of what it takes in and ends every frame with one byte. -/
structure TerseEngine where

namespace TerseEngine

instance : Engine TerseEngine where
  configure _ e := .ok () e
  outputChunkSize _ := 64
  compress mode input room e :=
    match mode with
    | .proceed => .ok ⟨input.length, [], 0⟩ e
    | .complete => if room = 0 then .ok ⟨0, [], 1⟩ e else .ok ⟨input.length, [0xFE], 0⟩ e

theorem respectsBuffers : Engine.RespectsBuffers TerseEngine := by
  intro mode input room e e' step h
  cases mode with
  | proceed =>
      cases h
      exact ⟨Nat.le_refl _, Nat.zero_le _⟩
  | complete =>
      simp only [Engine.compress] at h
      split at h
      · cases h
        exact ⟨Nat.zero_le _, Nat.zero_le _⟩
      · cases h
        exact ⟨Nat.le_refl _, by simp only [List.length_singleton]; omega⟩

theorem dependable (e : TerseEngine) : Engine.Dependable e where
  reservable _ := by
    have hspace : 64 < Reservation.addressSpace := by decide
    exact Reservation.reserve_eq_ok_iff.mpr hspace
  proceeds input _ _ := ⟨_, _, rfl, fun hstalled => List.length_eq_zero_iff.mp hstalled.1⟩
  ends _ := ⟨_, _, .last rfl rfl⟩

/-- A frame has one byte when it has ended, and none before. -/
def Short (flows : Flows) : Prop :=
  (∀ flow ∈ flows.ended, flow.given.length ≤ 1) ∧ flows.current.given = []

theorem short_call {flows : Flows} {mode : FlushMode} {input : Bytes} {room : Nat}
    {e e' : TerseEngine} {step : EngineStep} (h : Short flows)
    (hcall : Engine.compress mode input room e = .ok step e') :
    Short (flows.call mode input step) := by
  obtain ⟨hended, hcurrent⟩ := h
  cases mode with
  | proceed =>
      cases hcall
      rw [Flows.call_proceed]
      exact ⟨hended, by rw [Flows.given_current_fill, hcurrent]; rfl⟩
  | complete =>
      simp only [Engine.compress] at hcall
      split at hcall
      · cases hcall
        exact ⟨hended, by simp [Flows.call, hcurrent]⟩
      · cases hcall
        refine ⟨fun flow hflow => ?_, by simp [Flows.call]⟩
        simp only [Flows.call, and_self, if_true, Flows.ended_finish, Flows.ended_fill,
          List.mem_append, List.mem_singleton] at hflow
        rcases hflow with hflow | rfl
        · exact hended flow hflow
        · simp [hcurrent]

theorem frames_short {σ : Type} [Sink σ] {config : Config} {sink : σ} {limit : Nat}
    {opened : Writer TerseEngine σ}
    (h : Writer.openWith config (.ok {}) (.ok sink) limit = .ok opened) (writes : List Bytes) :
    ∀ flow ∈ (opened.writeAll writes).2.close.2.journal.flows.all,
      flow.given.length ≤ maxFrameSize := by
  have husable := Writer.status_opened h
  have hopened : Short opened.journal.flows := by
    obtain ⟨-, e, j, -, hflows, -, rfl⟩ := Writer.openWith_eq_ok h
    change Short j.flows
    rw [hflows]
    exact ⟨by simp, rfl⟩
  obtain ⟨hended, hcurrent⟩ := Writer.flows_keep short_call husable hopened writes
  intro flow hflow
  rw [Flows.all, List.mem_append, List.mem_singleton] at hflow
  rcases hflow with hflow | rfl
  · exact (hended flow hflow).trans (by decide)
  · rw [hcurrent]
    exact Nat.zero_le _

end TerseEngine

namespace TerseEngine

def config : Config where
  minFrameSize := 2

theorem configured : Engine.Configured config.settings ({} : TerseEngine) {} :=
  .set rfl (.set rfl (.set rfl .done))

variable {σ : Type} [Sink σ] {accepting : Sink.Accepting σ} {w : Writer TerseEngine σ}
  {limit size : Nat}

/-- Nothing has been recorded yet, and the open frame has taken in so many bytes. -/
structure Holds (accepting : Sink.Accepting σ) (limit : Nat) (w : Writer TerseEngine σ)
    (size : Nat) : Prop where
  usable : w.status = .usable
  callLimit : w.callLimit = limit + 1
  isOpen : accepting.IsOpen w.sink
  frameLog : w.frameLog = .empty false
  pendingCompressed : w.pendingCompressed = 0
  pendingUncompressed : w.pendingUncompressed = size
  minFrameSize : w.minFrameSize = 2

theorem consume_eq (limit : Nat) (data : Bytes) :
    ∃ journal, Action.consume 64 (limit + 1) data w = .ok () { w with journal } := by
  have hmoves : ¬ ((⟨data.length, [], 0⟩ : EngineStep).Stalled ∧ data ≠ []) :=
    fun hstalled => hstalled.2 (List.length_eq_zero_iff.mp hstalled.1.1)
  refine ⟨w.journal.note (.engineCalled .proceed data 64 (some ⟨data.length, [], 0⟩)), ?_⟩
  rw [Action.run_consume_succ, Action.run_compress]
  simp only [Engine.compress, if_neg hmoves, Action.run_append, Action.run_offer_nil,
    List.drop_length, if_true]
  rfl

theorem Holds.write (h : Holds accepting limit w size) (hsize : size < 2) (data : Bytes) :
    ∃ w', w.write data = (.ok (), w') ∧ Holds accepting limit w' (size + data.length) := by
  obtain ⟨journal, hconsume⟩ := consume_eq (w := w) limit data
  rw [← h.callLimit] at hconsume
  have hopen : ¬ w.minFrameSize ≤ w.pendingUncompressed := by
    rw [h.minFrameSize, h.pendingUncompressed]
    omega
  have haccept : Action.accept data w = .ok () ({ w with journal }.credit data) := by
    rw [Action.run_accept, Action.endFrameIf, if_neg hopen]
    exact Action.takeIn_eq_ok_iff.mpr ⟨rfl, _, hconsume, rfl⟩
  exact ⟨_, Writer.write_of_accept h.usable haccept, h.usable, h.callLimit, h.isOpen, h.frameLog,
    h.pendingCompressed, congrArg (· + data.length) h.pendingUncompressed, h.minFrameSize⟩

theorem Holds.endFrame (h : Holds accepting limit w size) :
    ∃ s j, Action.endFrame w = Action.recordFrame (w.pump w.engine s j 1) := by
  have hcall : Engine.compress .complete [] 64 w.engine = .ok ⟨0, [0xFE], 0⟩ w.engine := rfl
  obtain ⟨v, s, j, hrun, happend, -⟩ := Action.call_settles h.isOpen hcall
  have hbuffer : Action.outputBuffer "frame end output buffer" w = .ok 64 w :=
    Action.outputBuffer_eq_ok_iff.mpr ⟨rfl, rfl, rfl⟩
  have hdrain : Action.drainFrame 64 w.callLimit w = .ok () (w.pump w.engine s j 1) := by
    have hrun : Action.onEngine (Recorded.compress .complete [] 64) w = _ := hrun w.callLimit
    rw [h.callLimit, Action.run_drainFrame_succ, hrun]
    simp only [happend, if_true]
    rfl
  exact ⟨s, j, (Action.bind_eq_of_ok hbuffer).trans (Action.bind_eq_of_ok hdrain)⟩

theorem Holds.close (h : Holds accepting limit w size) (hlong : maxFrameSize < size) :
    w.close.1 = .error (.failed (.frameLog (RecordFault.uncompressedTooLarge size).message)) := by
  obtain ⟨s, j, hend⟩ := h.endFrame
  have hpending : 0 < w.pendingUncompressed := by
    rw [h.pendingUncompressed]
    omega
  have hrecord : (w.pump w.engine s j 1).frameLog.record (w.pump w.engine s j 1).pendingCompressed
      (w.pump w.engine s j 1).pendingUncompressed
      (Action.frameChecksum (w.pump w.engine s j 1)) = .error (.uncompressedTooLarge size) := by
    have hpositive : maxFrameSize ≠ 0 := by decide
    simp [Writer.pump, FrameLog.record, FrameLog.empty, h.frameLog, h.pendingCompressed,
      h.pendingUncompressed, hlong, hpositive, maxFrames]
  have hcomplete : ∃ v, Action.complete w = .error
      (.failed (.frameLog (RecordFault.uncompressedTooLarge size).message)) v := by
    rw [Action.run_complete, Action.run_bind, Action.endFrameIf, if_pos hpending, hend,
      Action.run_recordFrame, hrecord]
    exact ⟨_, rfl⟩
  obtain ⟨v, hcomplete⟩ := hcomplete
  simp only [Writer.close, h.usable, hcomplete]

theorem run_of_long {data : Bytes} (hdata : data.length = maxFrameSize) (limit : Nat) :
    ∃ opened w : Writer TerseEngine MemorySink,
      Writer.openWith config (.ok {}) (.ok {}) (limit + 1) = .ok opened ∧
      opened.writeAll [[0], data] = ([.ok (), .ok ()], w) ∧
      w.close.1 = .error (.failed (.frameLog
        (RecordFault.uncompressedTooLarge 4294967296).message)) := by
  obtain ⟨j, -, -, hopens⟩ := Writer.openWith_of_configured ({} : MemorySink)
    (Config.validate_eq_ok_iff.mp rfl) configured
  have hopened : Holds MemorySink.accepting limit (.fresh config {} {} j (limit + 1)) 0 :=
    ⟨rfl, rfl, rfl, rfl, rfl, rfl, rfl⟩
  obtain ⟨v, hfirst, hv⟩ := hopened.write (by decide) [0]
  obtain ⟨w, hsecond, hw⟩ := hv.write (by decide) data
  have hsize : 0 + 1 + data.length = 4294967296 := by
    rw [hdata]
    rfl
  rw [List.length_singleton, hsize] at hw
  refine ⟨_, w, hopens (limit + 1), ?_, hw.close (by decide)⟩
  simp only [Writer.writeAll, hfirst, hsecond]

/-- One byte, and after it many. -/
def writes (count : Nat) : List Bytes :=
  [[0], List.replicate count 0]

end TerseEngine
end SeekableArchive
