import SeekableArchive.Proofs.Poisoning

/-!
# What a sink is offered

Whatever an engine gives out is offered to the sink in one piece before the engine is called
again.  Until the table is written nothing else is offered, so the offers that a journal
notes are the outputs that it notes, also after a failure.
-/

namespace SeekableArchive

/-- What a call of the engine gave out, if it gave out anything. -/
def Event.output? : Event → Option Bytes
  | engineCalled _ _ _ (some step) => if step.output = [] then none else some step.output
  | _ => none

namespace Journal

def offers (j : Journal) : List Bytes :=
  j.events.filterMap Event.offered?

def outputs (j : Journal) : List Bytes :=
  j.events.filterMap Event.output?

@[simp] theorem offers_note (j : Journal) (event : Event) :
    (j.note event).offers = j.offers ++ event.offered?.toList := by
  cases hoffered : event.offered? <;> simp [offers, hoffered]

@[simp] theorem outputs_note (j : Journal) (event : Event) :
    (j.note event).outputs = j.outputs ++ event.output?.toList := by
  cases houtput : event.output? <;> simp [outputs, houtput]

/-- The sink has been offered what the engine has given out, piece by piece. -/
def Echoes (j : Journal) : Prop :=
  j.offers = j.outputs

/-- The sink has yet to be offered the last piece. -/
def Owes (j : Journal) (chunk : Bytes) : Prop :=
  j.outputs = j.offers ++ if chunk = [] then [] else [chunk]

variable {j : Journal} {event : Event}

theorem Echoes.note (h : j.Echoes) (hoffered : event.offered? = none)
    (houtput : event.output? = none) : (j.note event).Echoes := by
  rw [Echoes, offers_note, outputs_note, hoffered, houtput, h]

theorem owes_nil_iff : j.Owes [] ↔ j.Echoes := by
  rw [Owes, if_pos rfl, List.append_nil, Echoes, eq_comm]

theorem Echoes.owes (h : j.Echoes) (mode : FlushMode) (input : Bytes) (room : Nat)
    (step : EngineStep) :
    (j.note (.engineCalled mode input room (some step))).Owes step.output := by
  rw [Owes, offers_note, outputs_note, h]
  by_cases hsilent : step.output = []
  · simp [Event.offered?, Event.output?, hsilent]
  · simp [Event.offered?, Event.output?, hsilent]

theorem Owes.offered {chunk : Bytes} (h : j.Owes chunk) (hchunk : chunk ≠ [])
    (accepted : Option Nat) : (j.note (.sinkOffered chunk accepted)).Echoes := by
  rw [Owes, if_neg hchunk] at h
  rw [Echoes, offers_note, outputs_note, h]
  simp [Event.offered?, Event.output?]

end Journal

namespace Action

variable {ε σ : Type} [Sink σ]

theorem echoes_offer (chunk : Bytes) :
    Ensures (fun w : Writer ε σ => w.journal.Owes chunk) (onSink (Sink.writeFully chunk))
      (fun _ w => w.journal.Echoes) fun w => w.journal.Echoes := by
  apply ensures_offer
  · rintro rfl w hw
    exact Journal.owes_nil_iff.mp hw
  · exact fun _ _ _ hw hchunk _ => hw.offered hchunk none
  · intro w count s hw _ hshort
    exact hw.offered (List.ne_nil_of_length_pos (by omega)) (some count)
  · exact fun _ count _ hw hchunk _ _ => hw.offered hchunk (some count)

variable [Engine ε]

theorem echoes_relays :
    Relays (fun w : Writer ε σ => w.journal.Echoes) (fun chunk w => w.journal.Owes chunk)
      fun w => w.journal.Echoes where
  halts _ hw := hw
  stalls _ hw := Journal.owes_nil_iff.mp hw
  compress mode input room := by
    intro w hw
    rw [run_compress]
    cases Engine.compress mode input room w.engine with
    | error error e => exact hw.note rfl rfl
    | ok step e => exact hw.owes mode input room step
  append chunk := (echoes_offer chunk).bind fun _ => ensures_modify fun _ hw => hw
  record := ensures_recordFrame (fun _ hw => hw) fun _ _ _ hw => hw.note rfl rfl

end Action

namespace Writer

variable {ε σ : Type} [Engine ε] [Sink σ] {w : Writer ε σ}

theorem echoes_upheld :
    Upheld (fun w : Writer ε σ => w.journal.Echoes) fun w => w.journal.Echoes where
  accept _ := Action.echoes_relays.accept fun _ hw => hw
  poison _ hw := hw.note rfl rfl
  hang hw := hw

omit [Engine ε] [Sink σ] in
theorem echoes_release (h : w.journal.Echoes) : w.release.journal.Echoes := by
  have hsink : (w.journal.note .sinkReleased).Echoes := h.note rfl rfl
  exact hsink.note rfl rfl

omit [Engine ε] [Sink σ] in
theorem echoes_abandon (h : w.journal.Echoes) : w.abandon.journal.Echoes := by
  rw [abandon]
  split
  · exact h
  · exact echoes_release (h.note rfl rfl)

/-- A close that does not get as far as the table offers nothing but engine output. -/
theorem echoes_close (h : w.journal.Echoes) (hstuck : ∀ v, w.status = .usable →
    Action.endFrameIf (0 < w.pendingUncompressed) w = .ok () v →
      Reservation.reserve v.footerChunkSize ≠ .ok ()) :
    w.close.2.journal.Echoes := by
  cases hstatus : w.status with
  | closed | hung =>
      simp only [close, hstatus]
      exact h
  | poisoned =>
      simp only [close, hstatus]
      exact echoes_release (h.note rfl rfl)
  | usable =>
      have hkept := Action.echoes_relays.endFrameIf (0 < w.pendingUncompressed) w h
      have hfails : ∃ halt v, Action.complete w = .error halt v ∧ v.journal.Echoes := by
        rw [Action.run_complete, Action.run_bind]
        cases hend : Action.endFrameIf (0 < w.pendingUncompressed) w with
        | error halt v =>
            rw [hend] at hkept
            exact ⟨halt, v, rfl, hkept⟩
        | ok u v =>
            rw [hend] at hkept
            obtain ⟨error, htable⟩ :=
              Action.writeTable_of_unreservable (hstuck v hstatus hend)
            exact ⟨_, v, htable, hkept⟩
      obtain ⟨halt, v, hcomplete, hv⟩ := hfails
      cases halt with
      | failed error =>
          simp only [close, hstatus, hcomplete]
          exact echoes_release hv
      | unfinished =>
          simp only [close, hstatus, hcomplete]
          exact hv

/-! ## Opening -/

/-- A view of the journal that does not show settings stays the same, also if one is refused. -/
theorem configureAll_view {τ : Type} (view : Journal → τ)
    (hview : ∀ j setting accepted,
      view (j.note (.engineConfigured setting accepted)) = view j)
    (settings : List Setting) (r : Recorded ε) :
    match configureAll settings r with
    | .ok _ r' => view r'.journal = view r.journal
    | .error _ r' => view r'.journal = view r.journal := by
  induction settings generalizing r with
  | nil => rfl
  | cons setting settings ih =>
      simp only [configureAll, bind, EStateM.bind, Recorded.configure]
      cases Engine.configure setting r.resource with
      | error error e => exact hview r.journal setting false
      | ok u e =>
          have hrest := ih ⟨e, r.journal.note (.engineConfigured setting true)⟩
          dsimp only
          cases hset : configureAll settings
              ⟨e, r.journal.note (.engineConfigured setting true)⟩ with
          | error error r' =>
              rw [hset] at hrest
              exact hrest.trans (hview r.journal setting true)
          | ok u r' =>
              rw [hset] at hrest
              exact hrest.trans (hview r.journal setting true)

/-- Opening a writer offers nothing to the sink and takes nothing from the engine. -/
theorem silent_openWith (config : Config) (engine : Except ArchiveError ε)
    (sink : Except SinkError σ) (limit : Nat) :
    match openWith config engine sink limit with
    | .ok opened => opened.journal.offers = [] ∧ opened.journal.outputs = []
    | .error failure => failure.journal.offers = [] ∧ failure.journal.outputs = [] := by
  unfold openWith
  cases config.validate with
  | error fault => exact ⟨rfl, rfl⟩
  | ok u =>
      cases engine with
      | error error => exact ⟨rfl, rfl⟩
      | ok e =>
          have hview := configureAll_view (fun j => (j.offers, j.outputs))
            (fun j setting accepted => by simp [Event.offered?, Event.output?])
            config.settings ⟨e, Journal.empty.note .engineCreated⟩
          cases hset : configureAll config.settings ⟨e, Journal.empty.note .engineCreated⟩ with
          | error error r =>
              rw [hset] at hview
              obtain ⟨hoffers, houtputs⟩ := Prod.mk.inj hview
              simp only [hset, Journal.offers_note, Journal.outputs_note, hoffers, houtputs]
              exact ⟨rfl, rfl⟩
          | ok u r =>
              rw [hset] at hview
              obtain ⟨hoffers, houtputs⟩ := Prod.mk.inj hview
              cases sink with
              | error error =>
                  simp only [hset, Journal.offers_note, Journal.outputs_note, hoffers, houtputs]
                  exact ⟨rfl, rfl⟩
              | ok s =>
                  simp only [hset, Journal.offers_note, Journal.outputs_note, hoffers, houtputs]
                  exact ⟨rfl, rfl⟩

theorem echoes_opened {config : Config} {engine : Except ArchiveError ε}
    {sink : Except SinkError σ} {limit : Nat}
    (h : openWith config engine sink limit = .ok w) : w.journal.Echoes := by
  have hsilent := silent_openWith config engine sink limit
  rw [h] at hsilent
  exact hsilent.1.trans hsilent.2.symm

end Writer
end SeekableArchive
