import SeekableArchive.Proofs.CleanRun
import SeekableArchive.Proofs.Outcome

/-!
# Writers that follow others

A writer follows another one under a relation if its actions do what the other's do, until it
parts from the other one for good: it fails with an error of its own, at a point of the
journal that the other one has passed.  What has to be shown are the engine call, the offer of
its output and the record of a frame; the loops, writes and runs follow.
-/

namespace SeekableArchive
namespace Action

variable {ε ε' σ σ' α β : Type}

/-- The writer that the action leaves behind, however it ends. -/
def leaves (act : Action ε σ α) (w : Writer ε σ) : Writer ε σ :=
  match act w with
  | .ok _ v => v
  | .error _ v => v

theorem leaves_of_eq_ok {act : Action ε σ α} {w v : Writer ε σ} {a : α} (h : act w = .ok a v) :
    leaves act w = v := by
  rw [leaves, h]

theorem leaves_of_eq_error {act : Action ε σ α} {w v : Writer ε σ} {halt : Halt}
    (h : act w = .error halt v) : leaves act w = v := by
  rw [leaves, h]

theorem Ensures.leaves {act : Action ε σ α} {P : Writer ε σ → Prop} {w : Writer ε σ}
    (h : Ensures P act (fun _ => P) P) (hw : P w) : P (leaves act w) := by
  cases hrun : act w with
  | ok a v =>
      rw [leaves_of_eq_ok hrun]
      exact h.of_eq_ok hw hrun
  | error halt v =>
      rw [leaves_of_eq_error hrun]
      exact h.of_eq_error hw hrun

/-- Whatever the action does, it only adds to the journal. -/
def Extends (act : Action ε σ α) : Prop :=
  ∀ w, w.journal.events <+: (leaves act w).journal.events

section Extends

variable {act : Action ε σ α}

theorem extends_iff_ensures : Extends act ↔ ∀ past : List Event,
    Ensures (fun w => past <+: w.journal.events) act (fun _ w => past <+: w.journal.events)
      fun w => past <+: w.journal.events := by
  constructor
  · intro h past w hw
    have hall := hw.trans (h w)
    cases hrun : act w with
    | ok a v => rwa [leaves_of_eq_ok hrun] at hall
    | error halt v => rwa [leaves_of_eq_error hrun] at hall
  · exact fun h w => (h w.journal.events).leaves List.prefix_rfl

theorem Extends.leaves_bind {next : α → Action ε σ β} (hnext : ∀ a, Extends (next a))
    (w : Writer ε σ) :
    (leaves act w).journal.events <+: (leaves (act >>= next) w).journal.events := by
  cases hrun : act w with
  | ok a v =>
      rw [leaves_of_eq_ok hrun, leaves, run_bind, hrun]
      exact hnext a v
  | error halt v => simp only [leaves, run_bind, hrun, List.prefix_rfl]

theorem Extends.bind {next : α → Action ε σ β} (h : Extends act) (hnext : ∀ a, Extends (next a)) :
    Extends (act >>= next) :=
  fun w => (h w).trans (Extends.leaves_bind hnext w)

theorem extends_get_bind {next : Writer ε σ → Action ε σ α} (h : ∀ w, Extends (next w)) :
    Extends (get >>= next) :=
  fun w => h w w

theorem extends_pure (a : α) : Extends (pure a : Action ε σ α) :=
  fun _ => List.prefix_rfl

theorem extends_throw (halt : Halt) : Extends (throw halt : Action ε σ α) :=
  fun _ => List.prefix_rfl

theorem extends_modify {f : Writer ε σ → Writer ε σ}
    (h : ∀ w, w.journal.events <+: (f w).journal.events) :
    Extends (modify f : Action ε σ PUnit) :=
  h

theorem extends_ofExcept (result : Except ArchiveError α) :
    Extends (ofExcept result : Action ε σ α) := by
  cases result with
  | ok a => exact extends_pure a
  | error error => exact extends_throw _

theorem isPrefix_events_note (j : Journal) (event : Event) :
    j.events <+: (j.note event).events := by
  rw [Journal.events_note]
  exact List.prefix_append _ _

theorem extends_compress [Engine ε] (mode : FlushMode) (input : Bytes) (room : Nat) :
    Extends (onEngine (Recorded.compress mode input room) : Action ε σ EngineStep) := by
  intro w
  rw [leaves, run_compress]
  cases Engine.compress mode input room w.engine with
  | ok step e => exact isPrefix_events_note w.journal _
  | error error e => exact isPrefix_events_note w.journal _

theorem isPrefix_lasting (past : List Event) : Journal.Lasting fun j => past <+: j.events where
  called _ _ _ _ hj := hj.trans (isPrefix_events_note _ _)
  offered _ _ hj := hj.trans (isPrefix_events_note _ _)
  logged _ hj := hj.trans (isPrefix_events_note _ _)

theorem extends_offer [Sink σ] (chunk : Bytes) :
    Extends (onSink (Sink.writeFully chunk) : Action ε σ Unit) :=
  extends_iff_ensures.mpr fun past => (isPrefix_lasting past).offer chunk

theorem extends_accept [Engine ε] [Sink σ] (data : Bytes) :
    Extends (accept data : Action ε σ Unit) :=
  extends_iff_ensures.mpr fun past => (isPrefix_lasting past).stable.accept fun _ hw => hw

theorem extends_complete [Engine ε] [Sink σ] : Extends (complete : Action ε σ Unit) :=
  extends_iff_ensures.mpr fun past => (isPrefix_lasting past).complete

theorem extends_closeSink [Sink σ] :
    Extends (onSink Recorded.close : Action ε σ Unit) := by
  intro w
  simp only [leaves, onSink, Recorded.close]
  cases Sink.close w.sink with
  | error error s => exact isPrefix_events_note w.journal _
  | ok u s => exact isPrefix_events_note w.journal _

theorem extends_append [Sink σ] (chunk : Bytes) : Extends (append chunk : Action ε σ Unit) :=
  (extends_offer chunk).bind fun _ => extends_modify fun _ => List.prefix_rfl

theorem extends_recordFrame : Extends (recordFrame : Action ε σ Unit) := by
  intro w
  rw [leaves, run_recordFrame]
  cases w.frameLog.record w.pendingCompressed w.pendingUncompressed (frameChecksum w) with
  | ok frameLog => exact isPrefix_events_note w.journal _
  | error fault => exact List.prefix_rfl

end Extends

/-- From related writers both actions end with the same answer, or both stop with the same
halt, and again in related writers.  Or the second one parts from the first: `S` holds of its
error, of the writer that it leaves behind, and of events that the first one has passed. -/
structure Follows (R : Writer ε σ → Writer ε' σ' → Prop)
    (S : ArchiveError → Writer ε' σ' → List Event → Prop) (act : Action ε σ α)
    (act' : Action ε' σ' α) : Prop where
  leads : Extends act
  run {w : Writer ε σ} {w' : Writer ε' σ'} : R w w' →
    (∃ a v v', act w = .ok a v ∧ act' w' = .ok a v' ∧ R v v') ∨
      (∃ halt v v', act w = .error halt v ∧ act' w' = .error halt v' ∧ R v v') ∨
      ∃ error v' events, act' w' = .error (.failed error) v' ∧ S error v' events ∧
        events <+: (leaves act w).journal.events

variable {R : Writer ε σ → Writer ε' σ' → Prop}
  {S : ArchiveError → Writer ε' σ' → List Event → Prop}

section Rules

variable {act : Action ε σ α} {act' : Action ε' σ' α}

theorem Follows.bind {next : α → Action ε σ β} {next' : α → Action ε' σ' β}
    (h : Follows R S act act') (hnext : ∀ a, Follows R S (next a) (next' a)) :
    Follows R S (act >>= next) (act' >>= next') where
  leads := h.leads.bind fun a => (hnext a).leads
  run {w w'} hw := by
    rcases h.run hw with ⟨a, v, v', hrun, hrun', hv⟩ | ⟨halt, v, v', hrun, hrun', hv⟩ |
      ⟨error, v', events, hrun', hparts, hpassed⟩
    · have hrest := (hnext a).run hv
      rw [leaves] at hrest ⊢
      rwa [run_bind, run_bind, hrun, hrun']
    · rw [run_bind, run_bind, hrun, hrun']
      exact .inr (.inl ⟨halt, v, v', rfl, rfl, hv⟩)
    · refine .inr (.inr ⟨error, v', events, ?_, hparts, hpassed.trans ?_⟩)
      · rw [run_bind, hrun']
      · exact Extends.leaves_bind (fun a => (hnext a).leads) w

theorem Follows.ite {p : Prop} [Decidable p] {back : Action ε σ α} {back' : Action ε' σ' α}
    (h : Follows R S act act') (hback : Follows R S back back') :
    Follows R S (if p then act else back) (if p then act' else back') := by
  by_cases hp : p
  · rwa [if_pos hp, if_pos hp]
  · rwa [if_neg hp, if_neg hp]

theorem follows_get_bind {next : Writer ε σ → Action ε σ α} {next' : Writer ε' σ' → Action ε' σ' α}
    (h : ∀ w w', R w w' → Follows R S (next w) (next' w')) (hleads : ∀ w, Extends (next w)) :
    Follows R S (get >>= next) (get >>= next') where
  leads := extends_get_bind hleads
  run {w w'} hw := (h w w' hw).run hw

theorem follows_pure (a : α) :
    Follows R S (pure a : Action ε σ α) (pure a : Action ε' σ' α) where
  leads := extends_pure a
  run {w w'} hw := .inl ⟨a, w, w', rfl, rfl, hw⟩

theorem follows_throw (halt : Halt) :
    Follows R S (throw halt : Action ε σ α) (throw halt : Action ε' σ' α) where
  leads := extends_throw halt
  run {w w'} hw := .inr (.inl ⟨halt, w, w', rfl, rfl, hw⟩)

theorem follows_modify {f : Writer ε σ → Writer ε σ} {f' : Writer ε' σ' → Writer ε' σ'}
    (hleads : ∀ w, w.journal.events <+: (f w).journal.events)
    (h : ∀ w w', R w w' → R (f w) (f' w')) :
    Follows R S (modify f : Action ε σ PUnit) (modify f' : Action ε' σ' PUnit) where
  leads := extends_modify hleads
  run {w w'} hw := .inl ⟨⟨⟩, f w, f' w', rfl, rfl, h w w' hw⟩

theorem follows_ofExcept (result : Except ArchiveError α) :
    Follows R S (ofExcept result : Action ε σ α) (ofExcept result : Action ε' σ' α) := by
  cases result with
  | ok a => exact follows_pure a
  | error error => exact follows_throw _

end Rules

variable [Engine ε] [Engine ε'] [Sink σ] [Sink σ']

/-- Related writers agree in what their loops and branches depend on, and the second one
follows the first in the steps of which these are made. -/
structure Follower (R : Writer ε σ → Writer ε' σ' → Prop)
    (S : ArchiveError → Writer ε' σ' → List Event → Prop) : Prop where
  room {w : Writer ε σ} {w' : Writer ε' σ'} :
    R w w' → Engine.outputChunkSize w.engine = Engine.outputChunkSize w'.engine
  limit {w : Writer ε σ} {w' : Writer ε' σ'} : R w w' → w.callLimit = w'.callLimit
  floor {w : Writer ε σ} {w' : Writer ε' σ'} : R w w' → w.minFrameSize = w'.minFrameSize
  pending {w : Writer ε σ} {w' : Writer ε' σ'} :
    R w w' → w.pendingUncompressed = w'.pendingUncompressed
  compress (mode : FlushMode) (input : Bytes) (room : Nat) :
    Follows R S (onEngine (Recorded.compress mode input room))
      (onEngine (Recorded.compress mode input room))
  append (chunk : Bytes) : Follows R S (append chunk) (append chunk)
  record : Follows R S recordFrame recordFrame
  credit {w : Writer ε σ} {w' : Writer ε' σ'} (data : Bytes) :
    R w w' → R (w.credit data) (w'.credit data)

namespace Follower

theorem outputBuffer (h : Follower R S) (what : String) :
    Follows R S (outputBuffer what) (outputBuffer what) where
  leads := extends_get_bind fun _ => (extends_ofExcept _).bind fun _ => extends_pure _
  run {w w'} hw := by
    rw [run_outputBuffer, run_outputBuffer, h.room hw]
    cases Reservation.buffer what (Engine.outputChunkSize w'.engine) with
    | ok u => exact .inl ⟨_, w, w', rfl, rfl, hw⟩
    | error error => exact .inr (.inl ⟨_, w, w', rfl, rfl, hw⟩)

theorem consume (h : Follower R S) (room calls : Nat) (data : Bytes) :
    Follows R S (consume room calls data) (consume room calls data) := by
  induction calls generalizing data with
  | zero => exact follows_throw _
  | succ calls ih =>
      apply (h.compress .proceed data room).bind
      intro step
      apply Follows.ite
      · exact follows_throw _
      · apply (h.append step.output).bind
        intro _
        apply Follows.ite
        · exact follows_pure _
        · exact ih _

theorem drainFrame (h : Follower R S) (room calls : Nat) :
    Follows R S (drainFrame room calls) (drainFrame room calls) := by
  induction calls with
  | zero => exact follows_throw _
  | succ calls ih =>
      apply (h.compress .complete [] room).bind
      intro step
      apply (h.append step.output).bind
      intro _
      apply Follows.ite
      · exact follows_pure _
      · exact ih

theorem endFrame (h : Follower R S) : Follows R S endFrame endFrame := by
  have hdrain (room calls : Nat) := (h.drainFrame room calls).bind fun _ => h.record
  apply (h.outputBuffer _).bind
  intro room
  apply follows_get_bind
  · intro w w' hw
    rw [h.limit hw]
    exact hdrain room w'.callLimit
  · exact fun w => (hdrain room w.callLimit).leads

theorem endFrameIf (h : Follower R S) {p p' : Prop} [Decidable p] [Decidable p'] (hp : p ↔ p') :
    Follows R S (endFrameIf p) (endFrameIf p') := by
  rw [Action.endFrameIf, Action.endFrameIf, if_congr hp rfl rfl]
  apply Follows.ite
  · exact h.endFrame
  · exact follows_pure _

theorem takeIn (h : Follower R S) (data : Bytes) : Follows R S (takeIn data) (takeIn data) := by
  have hcredit : Follows R S (modify fun w => w.credit data) (modify fun w => w.credit data) :=
    follows_modify (fun _ => List.prefix_rfl) fun _ _ hw => h.credit data hw
  have hconsume (room calls : Nat) := (h.consume room calls data).bind fun _ => hcredit
  apply (h.outputBuffer _).bind
  intro room
  apply follows_get_bind
  · intro w w' hw
    rw [h.limit hw]
    exact hconsume room w'.callLimit
  · exact fun w => (hconsume room w.callLimit).leads

theorem accept (h : Follower R S) (data : Bytes) : Follows R S (accept data) (accept data) where
  leads w := by
    have hleads := ((h.endFrameIf (p := w.minFrameSize ≤ w.pendingUncompressed) Iff.rfl).bind
      fun _ => h.takeIn data).leads w
    rw [leaves] at hleads ⊢
    rwa [run_accept]
  run {w w'} hw := by
    have hfull : w.minFrameSize ≤ w.pendingUncompressed ↔
        w'.minFrameSize ≤ w'.pendingUncompressed := by
      rw [h.floor hw, h.pending hw]
    have hrun := ((h.endFrameIf hfull).bind fun _ => h.takeIn data).run hw
    rw [leaves] at hrun ⊢
    rwa [run_accept, run_accept]

end Follower

/-! ## The table -/

omit [Engine ε] in
theorem extends_drainTable (room pieces : Nat) :
    Extends (drainTable room pieces : Action ε σ Unit) :=
  extends_iff_ensures.mpr fun past => ensures_drainTable (fun _ hw => hw) (fun _ _ hw => hw)
    (fun chunk => extends_iff_ensures.mp (extends_offer chunk) past) room pieces

omit [Engine ε] in
theorem extends_writeTable : Extends (writeTable : Action ε σ Unit) := by
  apply extends_get_bind
  intro w
  apply (extends_ofExcept _).bind
  intro _
  apply (extends_drainTable _ _).bind
  intro _
  exact extends_modify fun v => isPrefix_events_note v.journal _

/-- Related writers also hand out the same table, and stay related while they do. -/
structure TableFollower (R : Writer ε σ → Writer ε' σ' → Prop)
    (S : ArchiveError → Writer ε' σ' → List Event → Prop) : Prop extends Follower R S where
  frameLog {w : Writer ε σ} {w' : Writer ε' σ'} : R w w' → w.frameLog = w'.frameLog
  chunk {w : Writer ε σ} {w' : Writer ε' σ'} : R w w' → w.footerChunkSize = w'.footerChunkSize
  handout {w : Writer ε σ} {w' : Writer ε' σ'} (frameLog : FrameLog) :
    R w w' → R { w with frameLog } { w' with frameLog }
  offer (chunk : Bytes) : Follows R S (onSink (Sink.writeFully chunk))
    (onSink (Sink.writeFully chunk))
  count {w : Writer ε σ} {w' : Writer ε' σ'} (size : Nat) : R w w' →
    R { w with bytesOut := w.bytesOut + size } { w' with bytesOut := w'.bytesOut + size }
  noted {w : Writer ε σ} {w' : Writer ε' σ'} (record : LogRecord) :
    R w w' → R (w.note (.logged record)) (w'.note (.logged record))

namespace TableFollower

theorem drainTable (h : TableFollower R S) (room pieces : Nat) :
    Follows R S (drainTable room pieces) (drainTable room pieces) := by
  induction pieces with
  | zero => exact follows_throw _
  | succ pieces ih =>
      have hround (step : FooterStep) :
          Follows R S (tableRound room pieces step) (tableRound room pieces step) := by
        have hcount : Follows R S
            (modify fun w => { w with bytesOut := w.bytesOut + step.output.length })
            (modify fun w => { w with bytesOut := w.bytesOut + step.output.length }) :=
          follows_modify (fun _ => List.prefix_rfl) fun _ _ hw => h.count _ hw
        apply (h.offer step.output).bind
        intro _
        apply hcount.bind
        intro _
        apply Follows.ite
        · exact follows_pure _
        · exact ih
      refine ⟨extends_drainTable room (pieces + 1), fun {w w'} hw => ?_⟩
      have hrun := (hround (w.frameLog.serialize room).1).run
        (h.handout (w.frameLog.serialize room).2 hw)
      rw [leaves] at hrun ⊢
      rwa [run_drainTable_round, run_drainTable_round, ← h.frameLog hw]

theorem writeTable (h : TableFollower R S) : Follows R S writeTable writeTable where
  leads := extends_writeTable
  run {w w'} hw := by
    have hlog : Follows R S (log (.tableWritten w.frames)) (log (.tableWritten w.frames)) :=
      follows_modify (fun v => isPrefix_events_note v.journal _) fun _ _ hv => h.noted _ hv
    have hdrain := (h.drainTable w.footerChunkSize w.frameLog.table.encodedSize).bind
      fun _ => hlog
    have hrun := ((follows_ofExcept
      (Reservation.buffer "seek table buffer" w.footerChunkSize)).bind fun _ => hdrain).run hw
    rw [leaves] at hrun ⊢
    have hframes : w'.frames = w.frames := by
      rw [Writer.frames, Writer.frames, h.frameLog hw]
    rw [Action.writeTable, Action.writeTable, run_get_bind, run_get_bind, ← h.chunk hw,
      ← h.frameLog hw, hframes]
    exact hrun

theorem complete (h : TableFollower R S) : Follows R S complete complete where
  leads w := by
    have hleads := ((h.endFrameIf (p := 0 < w.pendingUncompressed) Iff.rfl).bind
      fun _ => h.writeTable).leads w
    rw [leaves] at hleads ⊢
    rwa [run_complete]
  run {w w'} hw := by
    have hopen : 0 < w.pendingUncompressed ↔ 0 < w'.pendingUncompressed := by
      rw [h.pending hw]
    have hrun := ((h.endFrameIf hopen).bind fun _ => h.writeTable).run hw
    rw [leaves] at hrun ⊢
    rwa [run_complete, run_complete]

end TableFollower
end Action

/-! ## Runs -/

namespace Writer

variable {ε ε' σ σ' : Type} [Engine ε] [Engine ε'] [Sink σ] [Sink σ']

theorem writeAll_append (w : Writer ε σ) (front back : List Bytes) :
    w.writeAll (front ++ back) = ((w.writeAll front).1 ++ ((w.writeAll front).2.writeAll back).1,
      ((w.writeAll front).2.writeAll back).2) := by
  induction front generalizing w with
  | nil => rfl
  | cons data front ih =>
      rw [List.cons_append, writeAll, writeAll]
      simp only [ih]
      rfl

/-- What a write has the engine and the sink do stays in the journal. -/
theorem leaves_accept_isPrefix {w : Writer ε σ} (husable : w.status = .usable) (data : Bytes) :
    (Action.leaves (Action.accept data) w).journal.events <+:
      (w.write data).2.journal.events := by
  rw [Action.leaves, write, husable]
  cases Action.accept data w with
  | ok u v => exact List.prefix_rfl
  | error halt v =>
      cases halt with
      | failed error => exact Action.isPrefix_events_note v.journal _
      | unfinished => exact List.prefix_rfl

omit [Engine ε] [Sink σ] in
theorem isPrefix_events_release (w : Writer ε σ) :
    w.journal.events <+: w.release.journal.events :=
  (Action.isPrefix_events_note w.journal _).trans (Action.isPrefix_events_note _ _)

theorem leaves_complete_isPrefix {w : Writer ε σ} (husable : w.status = .usable) :
    (Action.leaves Action.complete w).journal.events <+: w.close.2.journal.events := by
  simp only [Action.leaves, close, husable]
  cases Action.complete w with
  | error halt v =>
      cases halt with
      | failed error => exact isPrefix_events_release v
      | unfinished => exact List.prefix_rfl
  | ok u v =>
      have hclosing := Action.extends_closeSink v
      cases hrun : Action.onSink Recorded.close v with
      | error halt v' =>
          rw [Action.leaves_of_eq_error hrun] at hclosing
          simp only [hrun]
          exact hclosing.trans (isPrefix_events_release v')
      | ok u v' =>
          rw [Action.leaves_of_eq_ok hrun] at hclosing
          simp only [hrun]
          exact (hclosing.trans (isPrefix_events_release v')).trans
            (Action.isPrefix_events_note v'.release.journal _)

theorem isPrefix_events_write (w : Writer ε σ) (data : Bytes) :
    w.journal.events <+: (w.write data).2.journal.events := by
  by_cases husable : w.status = .usable
  · exact (Action.extends_accept data w).trans (leaves_accept_isPrefix husable data)
  · obtain ⟨halt, hturned⟩ := write_of_unusable husable data
    simp only [hturned, List.prefix_rfl]

theorem isPrefix_events_writeAll (w : Writer ε σ) (writes : List Bytes) :
    w.journal.events <+: (w.writeAll writes).2.journal.events := by
  induction writes generalizing w with
  | nil => exact List.prefix_rfl
  | cons data writes ih => exact (isPrefix_events_write w data).trans (ih _)

/-- The second writer follows the first also in what a write makes of its outcome. -/
structure Companion (R : Writer ε σ → Writer ε' σ' → Prop)
    (S : ArchiveError → Writer ε' σ' → List Event → Prop) : Prop extends Action.Follower R S where
  status {w : Writer ε σ} {w' : Writer ε' σ'} : R w w' → w.status = w'.status
  poison {w : Writer ε σ} {w' : Writer ε' σ'} (error : ArchiveError) : R w w' →
    R { w.note (.logged (.writeFailed error)) with status := .poisoned }
      { w'.note (.logged (.writeFailed error)) with status := .poisoned }
  hang {w : Writer ε σ} {w' : Writer ε' σ'} : R w w' →
    R { w with status := .hung } { w' with status := .hung }

namespace Companion

variable {R : Writer ε σ → Writer ε' σ' → Prop}
  {S : ArchiveError → Writer ε' σ' → List Event → Prop} {w : Writer ε σ} {w' : Writer ε' σ'}

theorem write (h : Companion R S) (hw : R w w') (data : Bytes) :
    (w.write data).1 = (w'.write data).1 ∧ R (w.write data).2 (w'.write data).2 ∨
      ∃ error v' events, w'.write data = (.error (.failed error),
          { v'.note (.logged (.writeFailed error)) with status := .poisoned }) ∧
        S error v' events ∧ events <+: (w.write data).2.journal.events := by
  have hstatus := h.status hw
  cases husable : w.status with
  | closed | poisoned | hung =>
      rw [husable] at hstatus
      simp only [Writer.write, husable, ← hstatus]
      exact .inl ⟨trivial, hw⟩
  | usable =>
      rw [husable] at hstatus
      rcases (h.accept data).run hw with ⟨u, v, v', hrun, hrun', hv⟩ |
        ⟨halt, v, v', hrun, hrun', hv⟩ | ⟨error, v', events, hrun', hparts, hpassed⟩
      · simp only [Writer.write, husable, ← hstatus, hrun, hrun']
        exact .inl ⟨trivial, hv⟩
      · simp only [Writer.write, husable, ← hstatus, hrun, hrun']
        cases halt with
        | failed error => exact .inl ⟨rfl, h.poison error hv⟩
        | unfinished => exact .inl ⟨rfl, h.hang hv⟩
      · refine .inr ⟨error, v', events, ?_, hparts,
          hpassed.trans (leaves_accept_isPrefix husable data)⟩
        simp only [Writer.write, ← hstatus, hrun']

/-- The writers answer these writes alike, and are related whenever some of them are made. -/
def InStep (R : Writer ε σ → Writer ε' σ' → Prop) (w : Writer ε σ) (w' : Writer ε' σ')
    (writes : List Bytes) : Prop :=
  ∀ front, front <+: writes → (w.writeAll front).1 = (w'.writeAll front).1 ∧
    R (w.writeAll front).2 (w'.writeAll front).2

theorem inStep_nil (hw : R w w') : InStep R w w' [] :=
  fun _ hfront => List.prefix_nil.mp hfront ▸ ⟨rfl, hw⟩

theorem inStep_cons {data : Bytes} {writes : List Bytes} (hw : R w w')
    (hanswer : (w.write data).1 = (w'.write data).1)
    (hrest : InStep R (w.write data).2 (w'.write data).2 writes) :
    InStep R w w' (data :: writes) := by
  intro front hfront
  cases front with
  | nil => exact ⟨rfl, hw⟩
  | cons first front =>
      obtain ⟨rfl, htail⟩ := List.cons_prefix_cons.mp hfront
      obtain ⟨hanswers, hlast⟩ := hrest front htail
      exact ⟨congrArg₂ List.cons hanswer hanswers, hlast⟩

/-- The writers are in step until all writes are made, or up to one at which they part. -/
theorem writeAll (h : Companion R S) (hw : R w w') (writes : List Bytes) :
    InStep R w w' writes ∨
      ∃ before data after error v' events, writes = before ++ data :: after ∧
        InStep R w w' before ∧
        (w'.writeAll before).2.write data = (.error (.failed error),
          { v'.note (.logged (.writeFailed error)) with status := .poisoned }) ∧
        S error v' events ∧
        events <+: ((w.writeAll before).2.write data).2.journal.events := by
  induction writes generalizing w w' with
  | nil => exact .inl (inStep_nil hw)
  | cons data writes ih =>
      rcases h.write hw data with ⟨hanswer, hv⟩ | ⟨error, v', events, hfails, hparts, hpassed⟩
      · rcases ih hv with hrest |
          ⟨before, later, after, error, v', events, rfl, hbefore, hfails, hparts, hpassed⟩
        · exact .inl (inStep_cons hw hanswer hrest)
        · exact .inr ⟨data :: before, later, after, error, v', events, rfl,
            inStep_cons hw hanswer hbefore, hfails, hparts, hpassed⟩
      · exact .inr ⟨[], data, writes, error, v', events, rfl, inStep_nil hw, hfails, hparts,
          hpassed⟩

end Companion

end Writer
end SeekableArchive
