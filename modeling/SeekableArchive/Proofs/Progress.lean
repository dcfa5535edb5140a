import Mathlib.Order.Filter.AtTopBot.Basic
import SeekableArchive.Proofs.Contents

/-!
# Actions that come to an end

Over a dependable engine and an accepting sink the loops of a writer end if they may make
enough calls, and then it no longer matters how many more they may make.  An action
settles if it has the same successful outcome under every large enough limit.  The one
loop that may go on for ever is `consume`, over an engine that gives out without taking
in; then the open frame outgrows every bound.
-/

namespace SeekableArchive

open Filter

namespace Action

variable {ε σ α β : Type} {w v w' : Writer ε σ} {a : α} {b : β}

/-- Under every large enough limit on its loops the action has this outcome. -/
def Settles (act : Action ε σ α) (w : Writer ε σ) (a : α) (w' : Writer ε σ) : Prop :=
  ∀ᶠ limit in atTop, act (w.within limit) = .ok a (w'.within limit)

/-- Under every large enough limit the action leaves no frame behind, should it fail, that
is too long for the table. -/
def Moderate (act : Action ε σ α) (w : Writer ε σ) : Prop :=
  ∀ᶠ limit in atTop, ∀ halt v, act (w.within limit) = .error halt v →
    ∀ flow ∈ v.journal.flows.all, flow.given.length ≤ maxFrameSize

theorem bind_eq_of_ok {act : Action ε σ α} {next : α → Action ε σ β} (h : act w = .ok a v) :
    (act >>= next) w = next a v := by
  rw [run_bind, h]

theorem bind_eq_of_error {act : Action ε σ α} {next : α → Action ε σ β} {halt : Halt}
    (h : act w = .error halt v) : (act >>= next) w = .error halt v := by
  rw [run_bind, h]

theorem Settles.exists_limit {act : Action ε σ α} (h : Settles act w a w') :
    ∃ limit, act (w.within limit) = .ok a (w'.within limit) :=
  h.exists

theorem Settles.bind {act : Action ε σ α} {next : α → Action ε σ β} (h : Settles act w a v)
    (hnext : Settles (next a) v b w') : Settles (act >>= next) w b w' := by
  filter_upwards [h, hnext] with limit hact hrest
  rw [bind_eq_of_ok hact, hrest]

/-- An action that runs like another one under every limit settles like it. -/
theorem Settles.of_run_eq {act act' : Action ε σ α} (h : Settles act w a w')
    (hrun : ∀ limit, act' (w.within limit) = act (w.within limit)) : Settles act' w a w' := by
  filter_upwards [h] with limit hact
  rwa [hrun]

theorem Moderate.of_run_eq {act act' : Action ε σ α} (h : Moderate act w)
    (hrun : ∀ limit, act' (w.within limit) = act (w.within limit)) : Moderate act' w := by
  filter_upwards [h] with limit hact
  rwa [hrun]

theorem Moderate.left {act : Action ε σ α} {next : α → Action ε σ β}
    (h : Moderate (act >>= next) w) : Moderate act w := by
  filter_upwards [h] with limit hbind halt v hact
  exact hbind halt v (bind_eq_of_error hact)

theorem Moderate.right {act : Action ε σ α} {next : α → Action ε σ β}
    (h : Moderate (act >>= next) w) (hact : Settles act w a v) : Moderate (next a) v := by
  filter_upwards [h, hact] with limit hbind hok halt u hnext
  exact hbind halt u ((bind_eq_of_ok hok).trans hnext)

/-! ## Single calls -/

section Sink

variable [Sink σ] {accepting : Sink.Accepting σ}

/-- An open sink takes the whole offer, and nothing else changes. -/
theorem offer_accepted (hopen : accepting.IsOpen w.sink) (chunk : Bytes) :
    ∃ s j, (∀ limit, onSink (Sink.writeFully chunk) (w.within limit) =
        .ok () ({ w with sink := s, journal := j }.within limit)) ∧
      accepting.IsOpen s ∧ accepting.contents s = accepting.contents w.sink ++ chunk ∧
      j.flows = w.journal.flows := by
  by_cases hchunk : chunk = []
  · subst hchunk
    exact ⟨w.sink, w.journal, fun limit => run_offer_nil _, hopen, (List.append_nil _).symm, rfl⟩
  · obtain ⟨accepted, s, hwrite, hall, hcontents, hopen'⟩ := accepting.write chunk hopen
    refine ⟨s, w.journal.note (.sinkOffered chunk (some accepted)), fun limit => ?_, hopen',
      hcontents, rfl⟩
    rw [run_offer hchunk]
    simp only [Writer.within, hwrite, if_neg (Nat.not_lt.mpr hall)]

variable [Engine ε]

/-- A call that succeeds, and the offer of its output. -/
theorem call_settles {mode : FlushMode} {input : Bytes} {room : Nat} {step : EngineStep} {e : ε}
    (hopen : accepting.IsOpen w.sink)
    (hcall : Engine.compress mode input room w.engine = .ok step e) :
    ∃ (v : Writer ε σ) (s : σ) (j : Journal),
      (∀ limit, onEngine (Recorded.compress mode input room) (w.within limit) =
        .ok step (v.within limit)) ∧
      (∀ limit, append step.output (v.within limit) =
        .ok () ((w.pump e s j step.output.length).within limit)) ∧
      accepting.IsOpen s ∧ j.flows = w.journal.flows.call mode input step := by
  have hrun (limit : Nat) : onEngine (Recorded.compress mode input room) (w.within limit) =
      .ok step ({ w with
        engine := e
        journal := w.journal.note (.engineCalled mode input room (some step)) }.within limit) := by
    rw [run_compress]
    simp only [Writer.within, hcall]
  obtain ⟨s, j, hoffer, hopen', -, hflows⟩ := offer_accepted (w := { w with
    engine := e
    journal := w.journal.note (.engineCalled mode input room (some step)) }) hopen step.output
  refine ⟨_, s, j, hrun, fun limit => ?_, hopen', hflows⟩
  rw [run_append]
  have hoffer := hoffer limit
  simp only [Writer.within] at hoffer ⊢
  rw [hoffer]
  rfl

theorem isOpen_stable (accepting : Sink.Accepting σ) :
    Stable (fun w : Writer ε σ => accepting.IsOpen w.sink)
      fun w => accepting.IsOpen w.sink where
  halts _ hw := hw
  compress mode input room := by
    intro w hw
    rw [run_compress]
    cases Engine.compress mode input room w.engine with
    | error error e => exact hw
    | ok step e => exact hw
  append chunk := by
    intro w hw
    obtain ⟨s, j, hoffer, hopen, -⟩ := offer_accepted hw chunk
    have hrun : onSink (Sink.writeFully chunk) w = .ok () { w with sink := s, journal := j } :=
      hoffer w.callLimit
    rw [run_append, hrun]
    exact hopen
  record := ensures_recordFrame (fun _ hw => hw) fun _ _ _ hw => hw

/-! ## Loops -/

/-- A frame end that takes finitely many calls comes to an end. -/
theorem drainFrame_settles {room : Nat} {e e' : ε} {given : Bytes}
    (hdrains : Engine.Drains room e given e') (hengine : w.engine = e)
    (hopen : accepting.IsOpen w.sink) :
    ∃ (w' : Writer ε σ) (enough : Nat), ∀ calls, enough ≤ calls → ∀ limit,
      drainFrame room calls (w.within limit) = .ok () (w'.within limit) := by
  induction hdrains generalizing w with
  | @last e e' step hcall hdone =>
      subst hengine
      obtain ⟨v, s, j, hrun, happend, -, -⟩ := call_settles hopen hcall
      refine ⟨w.pump e' s j step.output.length, 1, fun calls hcalls limit => ?_⟩
      obtain ⟨calls, rfl⟩ := Nat.exists_eq_add_of_le' hcalls
      rw [run_drainFrame_succ, hrun]
      simp only [happend, hdone, if_true]
  | @more e e' e'' step given hcall hmore hrest ih =>
      subst hengine
      obtain ⟨v, s, j, hrun, happend, hopen', -⟩ := call_settles hopen hcall
      obtain ⟨w', enough, hloop⟩ := ih (w := w.pump e' s j step.output.length) rfl hopen'
      refine ⟨w', enough + 1, fun calls hcalls limit => ?_⟩
      obtain ⟨calls, rfl⟩ := Nat.exists_eq_add_of_le' (Nat.le_trans (Nat.le_add_left 1 _) hcalls)
      rw [run_drainFrame_succ, hrun]
      simp only [happend, if_neg hmore]
      exact hloop calls (by omega) limit

/-- Every call of `consume` takes in or gives out at least one byte.  So it either comes to
an end or has made the open frame as long as the number of calls lets it, less the data. -/
theorem consume_settles_or_fills {start asking : ε} {asked : Flows}
    (hdependable : Engine.Dependable start) (hasked : Engine.Session start asked asking)
    (calls : Nat) (data : Bytes) (hsession : Engine.Session start w.journal.flows w.engine)
    (hopen : accepting.IsOpen w.sink) :
    (∃ w' : Writer ε σ, ∀ calls', calls ≤ calls' → ∀ limit,
      consume (Engine.outputChunkSize asking) calls' data (w.within limit) =
        .ok () (w'.within limit)) ∨
    ∃ (v : Writer ε σ) (given : Bytes), (∀ limit,
        consume (Engine.outputChunkSize asking) calls data (w.within limit) =
          .error .unfinished (v.within limit)) ∧
      v.journal.flows.current.given = w.journal.flows.current.given ++ given ∧
      calls ≤ data.length + given.length := by
  induction calls generalizing data w with
  | zero => exact .inr ⟨w, [], fun limit => rfl, (List.append_nil _).symm, Nat.zero_le _⟩
  | succ calls ih =>
      obtain ⟨step, e, hcall, hstalls⟩ := hdependable.proceeds data hasked hsession
      have hmoves : ¬ (step.Stalled ∧ data ≠ []) := fun hstall => hstall.2 (hstalls hstall.1)
      obtain ⟨v, s, j, hrun, happend, hopen', hflows⟩ := call_settles hopen hcall
      rw [Flows.call_proceed] at hflows
      have hround (calls' limit : Nat) :
          consume (Engine.outputChunkSize asking) (calls' + 1) data (w.within limit) =
            if data.drop step.consumed = [] then
              .ok () ((w.pump e s j step.output.length).within limit)
            else consume (Engine.outputChunkSize asking) calls' (data.drop step.consumed)
              ((w.pump e s j step.output.length).within limit) := by
        rw [run_consume_succ, hrun]
        simp only [if_neg hmoves, happend]
      by_cases hrest : data.drop step.consumed = []
      · refine .inl ⟨w.pump e s j step.output.length, fun calls' hcalls limit => ?_⟩
        obtain ⟨calls', rfl⟩ := Nat.exists_eq_add_of_le' (Nat.le_trans (Nat.le_add_left 1 _) hcalls)
        rw [hround, if_pos hrest]
      · have hsession' : Engine.Session start j.flows e := by
          rw [hflows]
          exact .proceed hasked hsession hcall
        obtain ⟨w', hends⟩ | ⟨u, given, hhangs, hgiven, hcount⟩ :=
          ih (data.drop step.consumed) (w := w.pump e s j step.output.length) hsession' hopen'
        · refine .inl ⟨w', fun calls' hcalls limit => ?_⟩
          obtain ⟨calls', rfl⟩ :=
            Nat.exists_eq_add_of_le' (Nat.le_trans (Nat.le_add_left 1 _) hcalls)
          rw [hround, if_neg hrest]
          exact hends calls' (by omega) limit
        · refine .inr ⟨u, step.output ++ given, fun limit => ?_, ?_, ?_⟩
          · rw [hround, if_neg hrest]
            exact hhangs limit
          · change u.journal.flows.current.given = j.flows.current.given ++ given at hgiven
            rw [hgiven, hflows, Flows.given_current_fill, List.append_assoc]
          · have hprogress := EngineStep.length_drop_lt hstalls hrest
            rw [List.length_append]
            omega

omit [Engine ε] in
/-- A table that is handed out in pieces of positive size comes to an end, and an open sink
then has what was unread. -/
theorem drainTable_settles {room pieces : Nat} (hroom : 0 < room) (hpieces : 0 < pieces)
    (hunread : w.frameLog.unread.length ≤ pieces) (hcoherent : w.frameLog.Coherent)
    (hopen : accepting.IsOpen w.sink) :
    ∃ s j frameLog, (∀ limit, drainTable room pieces (w.within limit) = .ok () ({ w with
        sink := s, journal := j, frameLog
        bytesOut := w.bytesOut + w.frameLog.unread.length }.within limit)) ∧
      frameLog.table = w.frameLog.table ∧ accepting.IsOpen s ∧
      accepting.contents s = accepting.contents w.sink ++ w.frameLog.unread := by
  induction pieces generalizing w with
  | zero => omega
  | succ pieces ih =>
      obtain ⟨houtput, hremaining, hleft, htable, hnext⟩ :=
        FrameLog.serialize_spec hcoherent room
      obtain ⟨s, j, hoffer, hopen', hcontents, -⟩ := offer_accepted
        (w := { w with frameLog := (w.frameLog.serialize room).2 }) hopen
        (w.frameLog.serialize room).1.output
      rw [List.length_drop] at hremaining
      by_cases hdone : (w.frameLog.serialize room).1.remaining = 0
      · have hall : (w.frameLog.serialize room).1.output = w.frameLog.unread := by
          rw [houtput, List.take_of_length_le (by omega)]
        rw [hall] at hcontents
        refine ⟨s, j, (w.frameLog.serialize room).2, fun limit => ?_, htable, hopen', hcontents⟩
        rw [run_drainTable_succ]
        have hoffer := hoffer limit
        simp only [Writer.within, hall] at hoffer ⊢
        simp only [hoffer, hdone, if_true]
      · obtain ⟨s', j', frameLog, hloop, htable', hopen'', hcontents'⟩ := ih (w := { w with
          sink := s, journal := j, frameLog := (w.frameLog.serialize room).2
          bytesOut := w.bytesOut + (w.frameLog.serialize room).1.output.length })
          (by omega) (by rw [hleft, List.length_drop]; omega) hnext hopen'
        have hcount : (w.frameLog.serialize room).1.output.length +
            (w.frameLog.serialize room).2.unread.length = w.frameLog.unread.length := by
          rw [houtput, hleft, ← List.length_append, List.take_append_drop]
        refine ⟨s', j', frameLog, fun limit => ?_, htable'.trans htable, hopen'', ?_⟩
        · rw [run_drainTable_succ]
          have hoffer := hoffer limit
          have hloop := hloop limit
          simp only [Writer.within, Nat.add_assoc, hcount] at hoffer hloop ⊢
          simp only [hoffer, hdone, if_false]
          exact hloop
        · rw [hcontents', hcontents, hleft, houtput, List.append_assoc, List.take_append_drop]

omit [Engine ε] in
/-- A table of which nothing has been handed out is written as a whole. -/
theorem writeTable_accepted (hhandout : w.frameLog.handout = none)
    (hchunk : 0 < w.footerChunkSize) (hreserve : Reservation.reserve w.footerChunkSize = .ok ())
    (hopen : accepting.IsOpen w.sink) :
    ∃ s j frameLog, (∀ limit, writeTable (w.within limit) = .ok () ({ w with
        sink := s, journal := j, frameLog
        bytesOut := w.bytesOut + w.frameLog.table.encodedSize }.within limit)) ∧
      frameLog.table = w.frameLog.table ∧ accepting.IsOpen s ∧
      accepting.contents s = accepting.contents w.sink ++ w.frameLog.table.encode := by
  have hunread := FrameLog.unread_of_handout_eq_none hhandout
  have hlength : w.frameLog.unread.length = w.frameLog.table.encodedSize := by
    rw [hunread, SeekTable.length_encode]
  obtain ⟨s, j, frameLog, hloop, htable, hopen', hcontents⟩ := drainTable_settles hchunk
    w.frameLog.table.encodedSize_pos (Nat.le_of_eq hlength)
    (FrameLog.coherent_of_handout_eq_none hhandout) hopen
  rw [hlength] at hloop
  rw [hunread] at hcontents
  refine ⟨s, j.note (.logged (.tableWritten w.frames)), frameLog, fun limit => ?_, htable, hopen',
    hcontents⟩
  exact writeTable_eq_ok_iff.mpr ⟨hreserve, _, hloop limit, rfl⟩

end Sink

end Action

end SeekableArchive
