import SeekableArchive.Proofs.FailedClose
import SeekableArchive.Proofs.Protocol

/-!
# Writers keep the protocol

Between two operations a usable writer owes the sink nothing and is not in the middle of
completing a frame.  Each loop makes its calls from there and comes back, or it stops with
nothing owed, and after a stop nothing is called but what lets go of engine and sink.  A close
that gets as far as the table offers it piece by piece, and then closes the sink.
-/

namespace SeekableArchive

open Phase

namespace Journal

/-- The calls have come to the phase, whatever the table is going to be. -/
def Reaches (settings : List Setting) (j : Journal) (phase : Phase) : Prop :=
  ∀ table, Passes settings table .unborn j.events phase

/-- The calls may end here: the sink is owed nothing. -/
def Rests (settings : List Setting) (j : Journal) : Prop :=
  ∃ phase, phase.owed = [] ∧ j.Reaches settings phase

variable {settings : List Setting} {j : Journal} {phase phase' : Phase} {event : Event}

theorem Reaches.note (h : j.Reaches settings phase)
    (hevent : ∀ table, Takes settings table phase event phase') :
    (j.note event).Reaches settings phase' := by
  intro table
  rw [events_note]
  exact (h table).snoc (hevent table)

theorem Reaches.rests (h : j.Reaches settings phase) (howed : phase.owed = []) :
    j.Rests settings :=
  ⟨phase, howed, h⟩

theorem Reaches.stops (h : j.Reaches settings phase)
    (hevent : ∀ table, Takes settings table phase event .ended) :
    (j.note event).Rests settings :=
  ⟨.ended, rfl, h.note hevent⟩

theorem Rests.logged (h : j.Rests settings) (record : LogRecord) :
    (j.note (.logged record)).Rests settings := by
  obtain ⟨phase, howed, hphase⟩ := h
  exact ⟨phase, howed, hphase.note fun _ => .logged howed⟩

theorem Rests.released (h : j.Rests settings) :
    ((j.note .sinkReleased).note .engineReleased).Rests settings := by
  obtain ⟨phase, howed, hphase⟩ := h
  have hsink : (j.note .sinkReleased).Reaches settings .ended :=
    hphase.note fun _ => .sinkReleased howed
  exact hsink.stops fun _ => .engineReleased rfl

theorem Rests.protocol (h : j.Rests settings) (table : Bytes) :
    Protocol settings table j.events := by
  obtain ⟨phase, howed, hphase⟩ := h
  exact (hphase table).protocol howed

end Journal

namespace Action

variable {ε σ : Type} {settings : List Setting} {ending : Bool}

theorem reaches_compress [Engine ε] {mode : FlushMode} {input : Bytes}
    (hmode : ending = true → mode = .complete) (hinput : mode = .complete → input = [])
    (room : Nat) :
    Ensures (fun w : Writer ε σ => w.journal.Reaches settings (.ready ending))
      (onEngine (Recorded.compress mode input room))
      (fun step w => w.journal.Reaches settings (.after step.output (step.unfinishedIn mode)))
      fun w => w.journal.Rests settings := by
  intro w hw
  rw [run_compress]
  cases Engine.compress mode input room w.engine with
  | ok step e => exact hw.note fun _ => .called hmode hinput
  | error error e => exact hw.stops fun _ => .failed hmode hinput

theorem reaches_append [Sink σ] (chunk : Bytes) :
    Ensures (fun w : Writer ε σ => w.journal.Reaches settings (.after chunk ending))
      (append chunk) (fun _ w => w.journal.Reaches settings (.ready ending))
      fun w => w.journal.Rests settings := by
  have howing {w : Writer ε σ} (hw : w.journal.Reaches settings (.after chunk ending))
      (hchunk : chunk ≠ []) : w.journal.Reaches settings (.owing chunk ending) := by
    rwa [Phase.after, if_neg hchunk] at hw
  have hrefused {w : Writer ε σ} (hw : w.journal.Reaches settings (.after chunk ending))
      (hchunk : chunk ≠ []) (accepted : Option Nat) :
      (w.journal.note (.sinkOffered chunk accepted)).Rests settings :=
    (howing hw hchunk).stops fun _ => .undelivered hchunk
  refine (ensures_offer ?_ ?_ ?_ ?_).bind fun _ => ensures_modify fun _ hw => hw
  · rintro rfl w hw
    exact hw
  · exact fun w error s hw hchunk _ => hrefused hw hchunk none
  · intro w count s hw _ hshort
    exact hrefused hw (List.ne_nil_of_length_pos (by omega)) (some count)
  · intro w count s hw hchunk _ hlong
    exact (howing hw hchunk).note fun _ =>
      .delivered hchunk (decide_eq_false (Nat.not_lt.mpr hlong))

variable [Engine ε] [Sink σ]

theorem reaches_consume (room calls : Nat) (data : Bytes) :
    Ensures (fun w : Writer ε σ => w.journal.Reaches settings (.ready false))
      (consume room calls data) (fun _ w => w.journal.Reaches settings (.ready false))
      fun w => w.journal.Rests settings := by
  induction calls generalizing data with
  | zero => exact ensures_throw _ fun w hw => hw.rests rfl
  | succ calls ih =>
      have hcall : Ensures (fun w : Writer ε σ => w.journal.Reaches settings (.ready false))
          (onEngine (Recorded.compress .proceed data room))
          (fun step w => w.journal.Reaches settings (.after step.output false))
          fun w => w.journal.Rests settings :=
        reaches_compress (by nofun) (by nofun) room
      apply hcall.bind
      intro step
      by_cases hstalled : step.Stalled ∧ data ≠ []
      · rw [if_pos hstalled, hstalled.1.2]
        exact ensures_throw _ fun w hw => hw.rests rfl
      · rw [if_neg hstalled]
        apply (reaches_append step.output).bind
        intro _
        apply Ensures.ite
        · exact ensures_pure fun _ hw => hw
        · exact ih _

/-- The loop goes on while something is left, and ends when nothing is. -/
theorem reaches_drainFrame (room calls : Nat) :
    Ensures (fun w : Writer ε σ => w.journal.Reaches settings (.ready ending))
      (drainFrame room calls) (fun _ w => w.journal.Reaches settings (.ready false))
      fun w => w.journal.Rests settings := by
  -- The first call begins to complete the frame, the later ones go on with it.
  induction calls generalizing ending with
  | zero => exact ensures_throw _ fun w hw => hw.rests rfl
  | succ calls ih =>
      apply (reaches_compress (fun _ => rfl) (fun _ => rfl) room).bind
      intro step
      apply (reaches_append step.output).bind
      intro _
      by_cases hdone : step.remaining = 0
      · rw [if_pos hdone, EngineStep.unfinishedIn, hdone]
        exact ensures_pure fun _ hw => hw
      · rw [if_neg hdone]
        exact ih

theorem reaches_endFrame :
    Ensures (fun w : Writer ε σ => w.journal.Reaches settings (.ready false)) endFrame
      (fun _ w => w.journal.Reaches settings (.ready false))
      fun w => w.journal.Rests settings := by
  apply (ensures_outputBuffer (fun w hw => hw.rests rfl) _).bind
  intro room
  apply ensures_get_bind
  intro w
  apply (reaches_drainFrame room w.callLimit).bind
  intro _
  apply ensures_recordFrame
  · exact fun w hw => hw.rests rfl
  · exact fun w frameLog _ hw => hw.note fun _ => .logged rfl

theorem reaches_endFrameIf (p : Prop) [Decidable p] :
    Ensures (fun w : Writer ε σ => w.journal.Reaches settings (.ready false)) (endFrameIf p)
      (fun _ w => w.journal.Reaches settings (.ready false))
      fun w => w.journal.Rests settings := by
  apply Ensures.ite
  · exact reaches_endFrame
  · exact ensures_pure fun _ hw => hw

theorem reaches_takeIn (data : Bytes) :
    Ensures (fun w : Writer ε σ => w.journal.Reaches settings (.ready false)) (takeIn data)
      (fun _ w => w.journal.Reaches settings (.ready false))
      fun w => w.journal.Rests settings := by
  apply (ensures_outputBuffer (fun w hw => hw.rests rfl) _).bind
  intro room
  apply ensures_get_bind
  intro w
  apply (reaches_consume room w.callLimit data).bind
  intro _
  exact ensures_modify fun _ hw => hw

theorem reaches_accept (data : Bytes) :
    Ensures (fun w : Writer ε σ => w.journal.Reaches settings (.ready false)) (accept data)
      (fun _ w => w.journal.Reaches settings (.ready false))
      fun w => w.journal.Rests settings := by
  intro w hw
  rw [run_accept]
  exact (reaches_endFrameIf _).bind (fun _ => reaches_takeIn data) w hw

end Action

/-! ## The table and the end -/

section Table

variable {settings : List Setting} {table : Bytes} {phase : Phase} {chunks : List Bytes}
  {events : List Event}

/-- Taken one after the other the chunks use up the table. -/
theorem Offered.passes {complete : Bool} (h : Offered chunks events complete)
    (hne : ∀ chunk ∈ chunks, chunk ≠ []) (hchunks : chunks ≠ [])
    (hleft : phase.left table = some chunks.flatten) :
    Passes settings table phase events (if complete then .table [] else .ended) := by
  induction h generalizing phase with
  | nil => exact absurd rfl hchunks
  | @taken chunk chunks event events complete hoffer htaken hrest ih =>
      obtain ⟨accepted, rfl⟩ := Event.eq_of_offered hoffer
      have hfirst : Takes settings table phase (.sinkOffered chunk accepted)
          (.table chunks.flatten) :=
        .piece hleft (hne chunk List.mem_cons_self) htaken
      by_cases hlast : chunks = []
      · subst hlast
        cases hrest
        exact .cons hfirst .nil
      · exact .cons hfirst (ih (fun later hlater => hne later (List.mem_cons_of_mem _ hlater))
          hlast rfl)
  | @refused chunk chunks event hoffer hrefused =>
      obtain ⟨accepted, rfl⟩ := Event.eq_of_offered hoffer
      exact .cons (.lastPiece hleft (hne chunk List.mem_cons_self)) .nil

theorem Writer.Concluded.passes {frames : Nat} {answer : Except Halt Summary}
    (h : Writer.Concluded frames chunks answer events) (hne : ∀ chunk ∈ chunks, chunk ≠ [])
    (hchunks : chunks ≠ []) (hleft : phase.left table = some chunks.flatten) :
    Passes settings table phase events .ended := by
  cases h with
  | closed hoffered =>
      exact (hoffered.passes hne hchunks hleft).append (.cons (.logged rfl) (.cons .closed
        (.cons (.sinkReleased rfl) (.cons (.engineReleased rfl) (.cons (.logged rfl) .nil)))))
  | unclosed hoffered =>
      exact (hoffered.passes hne hchunks hleft).append (.cons (.logged rfl) (.cons .closed
        (.cons (.sinkReleased rfl) (.cons (.engineReleased rfl) .nil))))
  | refused hoffered =>
      exact (hoffered.passes hne hchunks hleft).append
        (.cons (.sinkReleased rfl) (.cons (.engineReleased rfl) .nil))

end Table

namespace Writer

variable {ε σ : Type} [Engine ε] {settings : List Setting}

/-! ## Opening -/

theorem reaches_configureAll (due : List Setting) (r : Recorded ε)
    (h : r.journal.Reaches settings (.setting due)) :
    match configureAll due r with
    | .ok _ r' => r'.journal.Reaches settings (.setting [])
    | .error _ r' => r'.journal.Reaches settings .ended := by
  induction due generalizing r with
  | nil => exact h
  | cons setting due ih =>
      simp only [configureAll, bind, EStateM.bind, Recorded.configure]
      cases Engine.configure setting r.resource with
      | error error e => exact h.note fun _ => .rejected
      | ok u e => exact ih ⟨e, _⟩ (h.note fun _ => .configured)

variable [Sink σ]

theorem reaches_openWith (config : Config) (engine : Except ArchiveError ε)
    (sink : Except SinkError σ) (limit : Nat) :
    match openWith config engine sink limit with
    | .ok opened => opened.journal.Reaches config.settings (.ready false)
    | .error failure => failure.journal.Rests config.settings := by
  have hunborn : Journal.empty.Reaches config.settings .unborn := fun _ => .nil
  unfold openWith
  cases config.validate with
  | error fault => exact hunborn.rests rfl
  | ok u =>
      cases engine with
      | error error => exact hunborn.stops fun _ => .uncreated
      | ok e =>
          have hcreated := reaches_configureAll config.settings
            ⟨e, Journal.empty.note .engineCreated⟩ (hunborn.note fun _ => .created)
          cases hset : configureAll config.settings ⟨e, Journal.empty.note .engineCreated⟩ with
          | error error r =>
              rw [hset] at hcreated
              simp only [hset]
              exact hcreated.stops fun _ => .engineReleased rfl
          | ok u r =>
              rw [hset] at hcreated
              simp only [hset]
              cases sink with
              | error error =>
                  have hended : (r.journal.note .sinkOpeningFailed).Reaches config.settings
                      .ended := hcreated.note fun _ => .unopened
                  exact hended.stops fun _ => .engineReleased rfl
              | ok s =>
                  have hready : (r.journal.note .sinkOpened).Reaches config.settings
                      (.ready false) := hcreated.note fun _ => .opened
                  exact hready.note fun _ => .logged rfl

/-! ## Runs -/

theorem reaches_upheld :
    Upheld (fun w : Writer ε σ => w.journal.Reaches settings (.ready false))
      fun w => w.journal.Rests settings where
  accept := Action.reaches_accept
  poison _ hw := hw.logged _
  hang hw := hw

variable {w v : Writer ε σ}

omit [Engine ε] [Sink σ] in
theorem rests_abandon (h : w.journal.Rests settings) : w.abandon.journal.Rests settings := by
  rw [abandon]
  split
  · exact h
  · exact (h.logged _).released

/-- What is written when the frame has been ended is the table of the frames so far. -/
theorem table_close_of_end (husable : w.status = .usable)
    (hend : Action.endFrameIf (0 < w.pendingUncompressed) w = .ok () v) :
    w.close.2.frameLog.table = v.frameLog.table := by
  have htable := table_writeTable v.frameLog.table v rfl
  simp only [close, husable, Action.complete_of_end hend]
  cases hrun : Action.writeTable v with
  | error halt u =>
      rw [hrun] at htable
      cases halt with
      | failed error => exact htable
      | unfinished => exact htable
  | ok u' u =>
      rw [hrun] at htable
      simp only [Action.onSink, Recorded.close]
      cases Sink.close u.sink with
      | ok _ s => exact htable
      | error error s => exact htable

theorem protocol_close_of_rests (hstopped : w.status ≠ .usable)
    (h : w.journal.Rests settings) (table : Bytes) :
    Protocol settings table w.close.2.journal.events := by
  cases hstatus : w.status with
  | usable => exact absurd hstatus hstopped
  | closed | hung =>
      simp only [close, hstatus]
      exact h.protocol table
  | poisoned =>
      simp only [close, hstatus]
      exact (h.logged _).released.protocol table

theorem rests_close_of_complete {halt : Halt} (husable : w.status = .usable)
    (hcomplete : Action.complete w = .error halt v) (h : v.journal.Rests settings) :
    w.close.2.journal.Rests settings := by
  simp only [close, husable, hcomplete]
  cases halt with
  | failed error => exact h.released
  | unfinished => exact h

theorem protocol_close_of_reaches {size : Nat} (husable : w.status = .usable)
    (h : w.journal.Reaches settings (.ready false)) (hunwritten : w.Unwritten size)
    (hsize : 0 < size) :
    Protocol settings w.close.2.frameLog.table.encode w.close.2.journal.events := by
  have hreaches : Action.Ensures (fun w : Writer ε σ => w.journal.Reaches settings (.ready false))
      (Action.endFrameIf (0 < w.pendingUncompressed))
      (fun _ w => w.journal.Reaches settings (.ready false)) fun w => w.journal.Rests settings :=
    Action.reaches_endFrameIf _
  cases hend : Action.endFrameIf (0 < w.pendingUncompressed) w with
  | error halt v =>
      have hrests := rests_close_of_complete husable (Action.complete_of_end_eq_error hend)
        (hreaches.of_eq_error h hend)
      exact hrests.protocol _
  | ok u v =>
      have hv := hreaches.of_eq_ok h hend
      obtain ⟨hhandout, rfl⟩ :=
        ((unwritten_stable size).endFrameIf _).of_eq_ok hunwritten hend
      by_cases hreserve : Reservation.reserve v.footerChunkSize = .ok ()
      · obtain ⟨chunks, noted, hchunked, hconcluded, hevents⟩ :=
          close_concludes husable hend hsize hreserve hhandout
        rw [table_close_of_end husable hend, hevents]
        have hleft : (Phase.ready false).left v.frameLog.table.encode = some chunks.flatten :=
          congrArg some hchunked.flatten_eq.symm
        have hall := (hv _).append (hconcluded.passes (fun _ => hchunked.ne_nil_of_mem hsize)
          hchunked.chunks_ne_nil hleft)
        exact hall.protocol rfl
      · obtain ⟨error, hrun⟩ := Action.writeTable_of_unreservable hreserve
        have hcomplete := (Action.complete_of_end hend).trans hrun
        exact (rests_close_of_complete husable hcomplete (hv.rests rfl)).protocol _

/-- Whatever engine and sink answer, and however the run ends: the calls of the two keep the
protocol. -/
theorem calls_keep_protocol (config : Config) (engine : Except ArchiveError ε)
    (sink : Except SinkError σ) (limit : Nat) :
    match openWith config engine sink limit with
    | .error failure => ∀ table, Protocol config.settings table failure.journal.events
    | .ok opened => ∀ writes,
        let last := (opened.writeAll writes).2
        (∀ table, Protocol config.settings table last.journal.events) ∧
          (∀ table, Protocol config.settings table last.abandon.journal.events) ∧
          Protocol config.settings last.close.2.frameLog.table.encode
            last.close.2.journal.events := by
  have hreaches := reaches_openWith config engine sink limit
  cases hopen : openWith config engine sink limit with
  | error failure =>
      rw [hopen] at hreaches
      exact hreaches.protocol
  | ok opened =>
      rw [hopen] at hreaches
      intro writes last
      have husable := status_opened hopen
      rcases reaches_upheld.writeAll husable hreaches writes with
        ⟨hlast, hready⟩ | ⟨hlast, hrests⟩
      · have hrests := hready.rests rfl
        refine ⟨hrests.protocol, (rests_abandon hrests).protocol, ?_⟩
        have hunwritten := (unwritten_upheld _).keeps husable (unwritten_opened hopen) writes
        obtain ⟨e, s, rfl, rfl⟩ := exists_of_opened hopen
        exact protocol_close_of_reaches hlast hready hunwritten (openWith_eq_ok hopen).1.chunk_pos
      · exact ⟨hrests.protocol, (rests_abandon hrests).protocol,
          protocol_close_of_rests hlast hrests _⟩

end Writer
end SeekableArchive
