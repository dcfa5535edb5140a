import SeekableArchive.Proofs.Balance

/-!
# What actions ensure

An action either ends or stops early, and leaves a writer behind in both cases.  What holds
of that writer is said by two postconditions.  A property that an engine call, the offer of
its output and the record of a frame keep is kept by the loops, and so by every write; what a
write leaves behind when it stops need be shown for these three alone.
-/

namespace SeekableArchive
namespace Action

variable {ε σ α β : Type}

/-- From a writer with `P`, the action ends in one with `Q` or stops in one with `E`. -/
def Ensures (P : Writer ε σ → Prop) (act : Action ε σ α) (Q : α → Writer ε σ → Prop)
    (E : Writer ε σ → Prop) : Prop :=
  ∀ w, P w → match act w with
    | .ok a w' => Q a w'
    | .error _ w' => E w'

section Rules

variable {P : Writer ε σ → Prop} {Q : α → Writer ε σ → Prop} {E : Writer ε σ → Prop}

theorem Ensures.of_eq_ok {act : Action ε σ α} {w w' : Writer ε σ} {a : α}
    (h : Ensures P act Q E) (hw : P w) (hrun : act w = .ok a w') : Q a w' := by
  have hact := h w hw
  rwa [hrun] at hact

theorem Ensures.of_eq_error {act : Action ε σ α} {w w' : Writer ε σ} {halt : Halt}
    (h : Ensures P act Q E) (hw : P w) (hrun : act w = .error halt w') : E w' := by
  have hact := h w hw
  rwa [hrun] at hact

theorem Ensures.weaken {act : Action ε σ α} {E' : Writer ε σ → Prop} (h : Ensures P act Q E)
    (hhalt : ∀ w, E w → E' w) : Ensures P act Q E' := by
  intro w hw
  cases hrun : act w with
  | error halt v => exact hhalt v (h.of_eq_error hw hrun)
  | ok a v => exact h.of_eq_ok hw hrun

theorem Ensures.and {act : Action ε σ α} {P' : Writer ε σ → Prop}
    {Q' : α → Writer ε σ → Prop} {E' : Writer ε σ → Prop} (h : Ensures P act Q E)
    (h' : Ensures P' act Q' E') :
    Ensures (fun w => P w ∧ P' w) act (fun a w => Q a w ∧ Q' a w) fun w => E w ∧ E' w := by
  rintro w ⟨hw, hw'⟩
  cases hrun : act w with
  | error halt v => exact ⟨h.of_eq_error hw hrun, h'.of_eq_error hw' hrun⟩
  | ok a v => exact ⟨h.of_eq_ok hw hrun, h'.of_eq_ok hw' hrun⟩

theorem Ensures.bind {act : Action ε σ α} {next : α → Action ε σ β}
    {R : β → Writer ε σ → Prop} (h : Ensures P act Q E)
    (hnext : ∀ a, Ensures (Q a) (next a) R E) : Ensures P (act >>= next) R E := by
  intro w hw
  rw [run_bind]
  cases hrun : act w with
  | error halt v => exact h.of_eq_error hw hrun
  | ok a v => exact hnext a v (h.of_eq_ok hw hrun)

theorem Ensures.ite {p : Prop} [Decidable p] {act act' : Action ε σ α}
    (h : Ensures P act Q E) (h' : Ensures P act' Q E) :
    Ensures P (if p then act else act') Q E := by
  by_cases hp : p
  · rwa [if_pos hp]
  · rwa [if_neg hp]

/-- The action goes on from the state that it looks at. -/
theorem ensures_get_bind {next : Writer ε σ → Action ε σ α}
    (h : ∀ w, Ensures P (next w) Q E) : Ensures P (get >>= next) Q E :=
  fun w hw => h w w hw

theorem ensures_pure {a : α} (h : ∀ w, P w → Q a w) : Ensures P (pure a) Q E :=
  h

theorem ensures_throw (halt : Halt) (h : ∀ w, P w → E w) : Ensures P (throw halt) Q E :=
  h

theorem ensures_modify {R : PUnit → Writer ε σ → Prop} {f : Writer ε σ → Writer ε σ}
    (h : ∀ w, P w → R ⟨⟩ (f w)) : Ensures P (modify f) R E :=
  h

theorem ensures_ofExcept (result : Except ArchiveError α) (h : ∀ w, P w → E w) :
    Ensures P (ofExcept result) (fun _ => P) E := by
  cases result with
  | error error => exact ensures_throw _ h
  | ok a => exact ensures_pure fun _ hw => hw

theorem ensures_onEngine {act : EStateM ArchiveError (Recorded ε) α}
    (h : ∀ w engine journal, P w → P { w with engine, journal }) :
    Ensures P (onEngine act) (fun _ => P) P := by
  intro w hw
  rw [onEngine]
  cases act ⟨w.engine, w.journal⟩ with
  | error error r => exact h w r.resource r.journal hw
  | ok a r => exact h w r.resource r.journal hw

theorem ensures_onSink {act : EStateM SinkError (Recorded σ) α}
    (h : ∀ w sink journal, P w → P { w with sink, journal }) :
    Ensures P (onSink act) (fun _ => P) P := by
  intro w hw
  rw [onSink]
  cases act ⟨w.sink, w.journal⟩ with
  | error error r => exact h w r.resource r.journal hw
  | ok a r => exact h w r.resource r.journal hw

end Rules

variable [Sink σ] {P E : Writer ε σ → Prop}

/-- The empty chunk is not offered; any other one is noted and refused, cut or taken. -/
theorem ensures_offer {chunk : Bytes} {Q : Writer ε σ → Prop}
    (hempty : chunk = [] → ∀ w, P w → Q w)
    (hrefused : ∀ ⦃w error s⦄, P w → chunk ≠ [] → Sink.write chunk w.sink = .error error s →
      E { w with sink := s, journal := w.journal.note (.sinkOffered chunk none) })
    (hcut : ∀ ⦃w count s⦄, P w → Sink.write chunk w.sink = .ok count s → count < chunk.length →
      E { w with sink := s, journal := w.journal.note (.sinkOffered chunk (some count)) })
    (htaken : ∀ ⦃w count s⦄, P w → chunk ≠ [] → Sink.write chunk w.sink = .ok count s →
      chunk.length ≤ count →
        Q { w with sink := s, journal := w.journal.note (.sinkOffered chunk (some count)) }) :
    Ensures P (onSink (Sink.writeFully chunk)) (fun _ => Q) E := by
  intro w hw
  by_cases hchunk : chunk = []
  · rw [hchunk, run_offer_nil]
    exact hempty hchunk w hw
  · rw [run_offer hchunk]
    cases hwrite : Sink.write chunk w.sink with
    | error error s => exact hrefused hw hchunk hwrite
    | ok count s =>
        by_cases hshort : count < chunk.length
        · simp only [if_pos hshort]
          exact hcut hw hwrite hshort
        · simp only [if_neg hshort]
          exact htaken hw hchunk hwrite (Nat.not_lt.mp hshort)

theorem journal_offer {R : Journal → Prop}
    (hoffer : ∀ {j} data accepted, R j → R (j.note (.sinkOffered data accepted))) (chunk : Bytes) :
    Ensures (fun w : Writer ε σ => R w.journal) (onSink (Sink.writeFully chunk))
      (fun _ w => R w.journal) fun w => R w.journal :=
  ensures_offer (fun _ _ hw => hw) (fun _ _ _ hw _ _ => hoffer chunk none hw)
    (fun _ count _ hw _ _ => hoffer chunk (some count) hw)
    fun _ count _ hw _ _ _ => hoffer chunk (some count) hw

/-- `P` is kept where the log hands out a piece and where the offer of it is counted. -/
theorem ensures_drainTable (hhalt : ∀ w, P w → E w)
    (hlog : ∀ w room, P w → P { w with frameLog := (w.frameLog.serialize room).2 })
    (hoffer : ∀ chunk, Ensures P (onSink (Sink.writeFully chunk))
      (fun _ w => P { w with bytesOut := w.bytesOut + chunk.length }) E)
    (room pieces : Nat) : Ensures P (drainTable room pieces) (fun _ => P) E := by
  induction pieces with
  | zero => exact ensures_throw _ hhalt
  | succ pieces ih =>
      intro w hw
      rw [run_drainTable_succ]
      have hfirst := hoffer (w.frameLog.serialize room).1.output _ (hlog w room hw)
      cases hrun : onSink (Sink.writeFully (w.frameLog.serialize room).1.output)
          { w with frameLog := (w.frameLog.serialize room).2 } with
      | error halt v =>
          rw [hrun] at hfirst
          exact hfirst
      | ok u v =>
          rw [hrun] at hfirst
          by_cases hdone : (w.frameLog.serialize room).1.remaining = 0
          · simp only [if_pos hdone]
            exact hfirst
          · simp only [if_neg hdone]
            exact ih _ hfirst

theorem ensures_writeTable (hhalt : ∀ w, P w → E w)
    (hlog : ∀ w room, P w → P { w with frameLog := (w.frameLog.serialize room).2 })
    (hoffer : ∀ chunk, Ensures P (onSink (Sink.writeFully chunk))
      (fun _ w => P { w with bytesOut := w.bytesOut + chunk.length }) E)
    (hnote : ∀ w record, P w → P (w.note (.logged record))) :
    Ensures P writeTable (fun _ => P) E := by
  apply ensures_get_bind
  intro w
  apply (ensures_ofExcept _ hhalt).bind
  intro _
  apply (ensures_drainTable hhalt hlog hoffer _ _).bind
  intro _
  exact ensures_modify fun v => hnote v _

theorem journal_writeTable {R : Journal → Prop}
    (hoffer : ∀ {j} data accepted, R j → R (j.note (.sinkOffered data accepted)))
    (hlog : ∀ {j} record, R j → R (j.note (.logged record))) :
    Ensures (fun w : Writer ε σ => R w.journal) writeTable (fun _ w => R w.journal)
      fun w => R w.journal :=
  ensures_writeTable (fun _ hw => hw) (fun _ _ hw => hw) (journal_offer hoffer)
    fun _ record hw => hlog record hw

omit [Sink σ] in
theorem ensures_recordFrame (hfault : ∀ w, P w → E { w with hasher := some .start })
    (hrecorded : ∀ w frameLog,
      w.frameLog.record w.pendingCompressed w.pendingUncompressed (frameChecksum w) =
        .ok frameLog → P w → P (w.recorded frameLog)) :
    Ensures P recordFrame (fun _ => P) E := by
  intro w hw
  rw [run_recordFrame]
  cases hrecord : w.frameLog.record w.pendingCompressed w.pendingUncompressed
      (frameChecksum w) with
  | error fault => exact hfault w hw
  | ok frameLog => exact hrecorded w frameLog hrecord hw

variable [Engine ε]

omit [Sink σ] in
theorem ensures_outputBuffer (hhalt : ∀ w, P w → E w) (what : String) :
    Ensures P (outputBuffer what) (fun _ => P) E := by
  apply ensures_get_bind
  intro w
  apply (ensures_ofExcept _ hhalt).bind
  intro _
  exact ensures_pure fun _ hw => hw

/-- An engine call hands its output over to the offer of it: the call leads from `P` to `M` of
the output, and the offer leads back.  The record of a frame keeps `P`.  All that fails, a
call without output that stalls among it, leaves `E`. -/
structure Relays (P : Writer ε σ → Prop) (M : Bytes → Writer ε σ → Prop)
    (E : Writer ε σ → Prop) : Prop where
  halts : ∀ w, P w → E w
  stalls : ∀ w, M [] w → E w
  compress (mode : FlushMode) (input : Bytes) (room : Nat) :
    Ensures P (onEngine (Recorded.compress mode input room)) (fun step => M step.output) E
  append (chunk : Bytes) : Ensures (M chunk) (append chunk) (fun _ => P) E
  record : Ensures P recordFrame (fun _ => P) E

namespace Relays

variable {M : Bytes → Writer ε σ → Prop}

theorem outputBuffer (h : Relays P M E) (what : String) :
    Ensures P (outputBuffer what) (fun _ => P) E :=
  ensures_outputBuffer h.halts what

theorem consume (h : Relays P M E) (room calls : Nat) (data : Bytes) :
    Ensures P (consume room calls data) (fun _ => P) E := by
  induction calls generalizing data with
  | zero => exact ensures_throw _ h.halts
  | succ calls ih =>
      apply (h.compress .proceed data room).bind
      intro step
      by_cases hstalled : step.Stalled ∧ data ≠ []
      · rw [if_pos hstalled, hstalled.1.2]
        exact ensures_throw _ h.stalls
      · rw [if_neg hstalled]
        apply (h.append step.output).bind
        intro _
        apply Ensures.ite
        · exact ensures_pure fun _ hw => hw
        · exact ih _

theorem drainFrame (h : Relays P M E) (room calls : Nat) :
    Ensures P (drainFrame room calls) (fun _ => P) E := by
  induction calls with
  | zero => exact ensures_throw _ h.halts
  | succ calls ih =>
      apply (h.compress .complete [] room).bind
      intro step
      apply (h.append step.output).bind
      intro _
      apply Ensures.ite
      · exact ensures_pure fun _ hw => hw
      · exact ih

theorem endFrame (h : Relays P M E) : Ensures P endFrame (fun _ => P) E := by
  apply (h.outputBuffer _).bind
  intro room
  apply ensures_get_bind
  intro w
  apply (h.drainFrame room w.callLimit).bind
  intro _
  exact h.record

theorem endFrameIf (h : Relays P M E) (p : Prop) [Decidable p] :
    Ensures P (endFrameIf p) (fun _ => P) E := by
  apply Ensures.ite
  · exact h.endFrame
  · exact ensures_pure fun _ hw => hw

variable {Q : Writer ε σ → Prop} {data : Bytes}

theorem takeIn (h : Relays P M E) (hcredit : ∀ w, P w → Q (w.credit data)) :
    Ensures P (takeIn data) (fun _ => Q) E := by
  apply (h.outputBuffer _).bind
  intro room
  apply ensures_get_bind
  intro w
  apply (h.consume room w.callLimit data).bind
  intro _
  exact ensures_modify hcredit

/-- Only the last step of a write counts its data. -/
theorem accept (h : Relays P M E) (hcredit : ∀ w, P w → Q (w.credit data)) :
    Ensures P (accept data) (fun _ => Q) E := by
  intro w hw
  rw [run_accept]
  exact (h.endFrameIf _).bind (fun _ => h.takeIn hcredit) w hw

end Relays

/-- An engine call, the offer of its output and the record of a frame keep `P` where they
succeed, and leave `E` where they fail. -/
structure Stable (P E : Writer ε σ → Prop) : Prop where
  halts : ∀ w, P w → E w
  compress (mode : FlushMode) (input : Bytes) (room : Nat) :
    Ensures P (onEngine (Recorded.compress mode input room)) (fun _ => P) E
  append (chunk : Bytes) : Ensures P (append chunk) (fun _ => P) E
  record : Ensures P recordFrame (fun _ => P) E

namespace Stable

theorem relays (h : Stable P E) : Relays P (fun _ => P) E :=
  ⟨h.halts, h.halts, h.compress, h.append, h.record⟩

theorem endFrame (h : Stable P E) : Ensures P endFrame (fun _ => P) E :=
  h.relays.endFrame

theorem endFrameIf (h : Stable P E) (p : Prop) [Decidable p] :
    Ensures P (endFrameIf p) (fun _ => P) E :=
  h.relays.endFrameIf p

variable {Q : Writer ε σ → Prop} {data : Bytes}

theorem takeIn (h : Stable P E) (hcredit : ∀ w, P w → Q (w.credit data)) :
    Ensures P (takeIn data) (fun _ => Q) E :=
  h.relays.takeIn hcredit

theorem accept (h : Stable P E) (hcredit : ∀ w, P w → Q (w.credit data)) :
    Ensures P (accept data) (fun _ => Q) E :=
  h.relays.accept hcredit

theorem complete (h : Stable P E)
    (hlog : ∀ w room, P w → P { w with frameLog := (w.frameLog.serialize room).2 })
    (hoffer : ∀ chunk, Ensures P (onSink (Sink.writeFully chunk))
      (fun _ w => P { w with bytesOut := w.bytesOut + chunk.length }) E)
    (hnote : ∀ w record, P w → P (w.note (.logged record))) :
    Ensures P complete (fun _ => P) E := by
  intro w hw
  rw [run_complete]
  exact (h.endFrameIf _).bind (fun _ => ensures_writeTable h.halts hlog hoffer hnote) w hw

end Stable

end Action

/-- Calls of the engine, offers to the sink and log records keep the property. -/
structure Journal.Lasting (R : Journal → Prop) : Prop where
  called {j : Journal} (mode : FlushMode) (input : Bytes) (room : Nat)
    (answer : Option EngineStep) : R j → R (j.note (.engineCalled mode input room answer))
  offered {j : Journal} (data : Bytes) (accepted : Option Nat) :
    R j → R (j.note (.sinkOffered data accepted))
  logged {j : Journal} (record : LogRecord) : R j → R (j.note (.logged record))

namespace Journal.Lasting

variable {ε σ : Type} [Engine ε] [Sink σ] {R : Journal → Prop}

open SeekableArchive.Action

omit [Engine ε] in
theorem offer (h : Lasting R) (chunk : Bytes) :
    Ensures (fun w : Writer ε σ => R w.journal) (onSink (Sink.writeFully chunk))
      (fun _ w => R w.journal) fun w => R w.journal :=
  journal_offer h.offered chunk

theorem stable (h : Lasting R) :
    Stable (fun w : Writer ε σ => R w.journal) fun w => R w.journal where
  halts _ hw := hw
  compress mode input room := by
    intro w hw
    rw [run_compress]
    cases Engine.compress mode input room w.engine with
    | ok step e => exact h.called mode input room (some step) hw
    | error error e => exact h.called mode input room none hw
  append chunk := (h.offer chunk).bind fun _ => ensures_modify fun _ hw => hw
  record := ensures_recordFrame (fun _ hw => hw) fun _ _ _ hw => h.logged _ hw

theorem complete (h : Lasting R) :
    Ensures (fun w : Writer ε σ => R w.journal) complete (fun _ w => R w.journal)
      fun w => R w.journal :=
  h.stable.complete (fun _ _ hw => hw) h.offer fun _ record hw => h.logged record hw

end Journal.Lasting
end SeekableArchive
