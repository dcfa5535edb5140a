import SeekableArchive.Faults
import SeekableArchive.Proofs.Poisoning

/-!
# The life of an engine and a sink

Every end of a run lets go of what the run has acquired, once and in the reverse order.  A
plan of faults decides how far opening gets; what fails after that, and where, leaves no mark
on the milestones but for the closing of the sink.
-/

namespace SeekableArchive

def Journal.milestones (j : Journal) : List ResourceEvent :=
  ResourceEvent.ofEvents j.events

@[simp] theorem Journal.milestones_note (j : Journal) (event : Event) :
    (j.note event).milestones = j.milestones ++ (ResourceEvent.ofEvent? event).toList := by
  cases h : ResourceEvent.ofEvent? event <;> simp [milestones, ResourceEvent.ofEvents, h]

/-- The plan rejects none of the settings. -/
def EngineFaults.Spares (faults : EngineFaults) (settings : List Setting) : Prop :=
  ∀ setting ∈ settings, faults.rejectSetting ≠ some setting.kind

/-- What a successful opening acquires, in this order. -/
def ResourceEvent.acquired : List ResourceEvent :=
  [.engineCreated, .engineConfigured, .engineConfigured, .engineConfigured, .sinkOpened]

/-- Nothing is released that is not held, and nothing is held in the end. -/
structure Settled (milestones : List ResourceEvent) : Prop where
  held : ∀ front, front <+: milestones →
    0 ≤ ResourceEvent.enginesLive front ∧ 0 ≤ ResourceEvent.sinksLive front
  engines : ResourceEvent.enginesLive milestones = 0
  sinks : ResourceEvent.sinksLive milestones = 0

theorem settled_iff {milestones : List ResourceEvent} : Settled milestones ↔
    (∀ front ∈ milestones.inits,
      0 ≤ ResourceEvent.enginesLive front ∧ 0 ≤ ResourceEvent.sinksLive front) ∧
      ResourceEvent.enginesLive milestones = 0 ∧ ResourceEvent.sinksLive milestones = 0 := by
  simp only [List.mem_inits]
  exact ⟨fun h => ⟨h.held, h.engines, h.sinks⟩, fun h => ⟨h.1, h.2.1, h.2.2⟩⟩

instance (milestones : List ResourceEvent) : Decidable (Settled milestones) :=
  decidable_of_iff' _ settled_iff

/-- Opening a writer by the plans fails: the error of the first step that does, and the
milestones up to the release of what was acquired before. -/
inductive OpeningFails (config : Config) (ef : EngineFaults) (sf : SinkFaults) :
    ArchiveError → List ResourceEvent → Prop
  | invalid {fault : ConfigFault} (hfault : config.validate = .error fault) :
      OpeningFails config ef sf (.invalidConfig fault.message) []
  | uncreated (hvalid : config.Valid) (hplan : ef.failCreate = true) :
      OpeningFails config ef sf (.allocation "injected engine creation failure") []
  | rejected {accepted rest : List Setting} {setting : Setting} (hvalid : config.Valid)
      (hcreated : ef.failCreate = false)
      (hsettings : config.settings = accepted ++ setting :: rest) (haccepted : ef.Spares accepted)
      (hrejected : ef.rejectSetting = some setting.kind) :
      OpeningFails config ef sf (.settingRejected setting.kind.label "injected rejection")
        (.engineCreated :: List.replicate accepted.length .engineConfigured ++ [.engineReleased])
  | unopened (hvalid : config.Valid) (hcreated : ef.failCreate = false)
      (haccepted : ef.Spares config.settings) (hplan : sf.failOpen = true) :
      OpeningFails config ef sf (.sink (injectedFault "open"))
        [.engineCreated, .engineConfigured, .engineConfigured, .engineConfigured, .engineReleased]

/-- No step of opening a writer fails by the plans. -/
structure Opens (config : Config) (ef : EngineFaults) (sf : SinkFaults) : Prop where
  valid : config.Valid
  created : ef.failCreate = false
  accepted : ef.Spares config.settings
  opened : sf.failOpen = false

theorem OpeningFails.settled {config : Config} {ef : EngineFaults} {sf : SinkFaults}
    {error : ArchiveError} {milestones : List ResourceEvent}
    (h : OpeningFails config ef sf error milestones) : Settled milestones := by
  cases h with
  | invalid | uncreated | unopened => decide
  | @rejected accepted rest setting _ _ hsettings =>
      have hlength := congrArg List.length hsettings
      simp only [Config.settings, List.length_append, List.length_cons, List.length_nil] at hlength
      have hfew : accepted.length < 3 := by omega
      generalize accepted.length = count at hfew
      interval_cases count <;> decide

namespace FaultyEngine

variable {ε : Type} [Engine ε]

theorem run_configure (setting : Setting) (f : FaultyEngine ε) :
    Engine.configure setting f =
      if f.faults.rejectSetting = some setting.kind then
        .error (.settingRejected setting.kind.label "injected rejection") f
      else inside (Engine.configure setting) f := by
  show configure setting f = _
  simp only [configure, bind, EStateM.bind, get, getThe, MonadStateOf.get, EStateM.get]
  split <;> rfl

/-- An engine that accepts all settings rejects, by the plan, the first one of its kind. -/
theorem configureAll {settings : List Setting} {e e' : ε}
    (h : Engine.Configured settings e e') (faults : EngineFaults) (calls : Nat) (j : Journal) :
    (∃ j', Writer.configureAll settings ⟨mk e faults calls, j⟩ = .ok () ⟨mk e' faults calls, j'⟩ ∧
        faults.Spares settings ∧
        j'.milestones = j.milestones ++ List.replicate settings.length .engineConfigured) ∨
      ∃ accepted setting rest r, settings = accepted ++ setting :: rest ∧
        Writer.configureAll settings ⟨mk e faults calls, j⟩ =
          .error (.settingRejected setting.kind.label "injected rejection") r ∧
        faults.Spares accepted ∧ faults.rejectSetting = some setting.kind ∧
        r.journal.milestones =
          j.milestones ++ List.replicate accepted.length .engineConfigured := by
  induction h generalizing j with
  | @done e => exact .inl ⟨j, rfl, List.forall_mem_nil _, (List.append_nil _).symm⟩
  | @set setting settings e e₁ e' haccepted _ ih =>
      by_cases hreject : faults.rejectSetting = some setting.kind
      · refine .inr ⟨[], setting, settings,
          ⟨mk e faults calls, j.note (.engineConfigured setting false)⟩, rfl, ?_,
          List.forall_mem_nil _, hreject, ?_⟩
        · simp only [Writer.configureAll, bind, EStateM.bind, Recorded.configure, run_configure,
            if_pos hreject]
        · simp [ResourceEvent.ofEvent?]
      · have hspares {more : List Setting} (hmore : faults.Spares more) :
            faults.Spares (setting :: more) :=
          List.forall_mem_cons.mpr ⟨hreject, hmore⟩
        have hfirst : Writer.configureAll (setting :: settings) ⟨mk e faults calls, j⟩ =
            Writer.configureAll settings
              ⟨mk e₁ faults calls, j.note (.engineConfigured setting true)⟩ := by
          simp only [Writer.configureAll, bind, EStateM.bind, Recorded.configure, run_configure,
            if_neg hreject, inside, haccepted]
        rw [hfirst]
        rcases ih (j.note (.engineConfigured setting true)) with ⟨j', hrun, hspared, hj'⟩ |
          ⟨accepted, later, rest, r, rfl, hrun, hspared, hrejected, hr⟩
        · refine .inl ⟨j', hrun, hspares hspared, ?_⟩
          simp [hj', ResourceEvent.ofEvent?, List.replicate_succ]
        · refine .inr ⟨setting :: accepted, later, rest, r, rfl, hrun, hspares hspared,
            hrejected, ?_⟩
          simp [hr, ResourceEvent.ofEvent?, List.replicate_succ]

end FaultyEngine

/-- Calls, offers and log records are no milestones. -/
theorem Journal.milestones_lasting (log : List ResourceEvent) :
    Lasting fun j => j.milestones = log where
  called mode input room answer hj := by simp [hj, ResourceEvent.ofEvent?]
  offered data accepted hj := by simp [hj, ResourceEvent.ofEvent?]
  logged record hj := by simp [hj, ResourceEvent.ofEvent?]

namespace Writer

variable {ε σ : Type} [Engine ε] [Sink σ] {w : Writer ε σ} {log : List ResourceEvent}

omit [Engine ε] [Sink σ] in
theorem milestones_release (h : w.journal.milestones = log) :
    w.release.journal.milestones = log ++ [.sinkReleased, .engineReleased] := by
  simp [release, note, h, ResourceEvent.ofEvent?]

omit [Engine ε] [Sink σ] in
theorem milestones_abandon (hopen : w.status ≠ .closed) (h : w.journal.milestones = log) :
    w.abandon.journal.milestones = log ++ [.sinkReleased, .engineReleased] := by
  rw [abandon, if_neg hopen]
  apply milestones_release
  simp [note, h, ResourceEvent.ofEvent?]

/-- A close that ends has closed the sink if it succeeds, and has let go of everything. -/
theorem milestones_close (hopen : w.status ≠ .closed) (h : w.journal.milestones = log) :
    match w.close with
    | (.ok _, w') => w'.journal.milestones =
        log ++ [.sinkClosed, .sinkReleased, .engineReleased]
    | (.error (.failed _), w') =>
        w'.journal.milestones = log ++ [.sinkReleased, .engineReleased]
    | (.error .unfinished, w') => w'.journal.milestones = log := by
  cases hstatus : w.status with
  | closed => exact absurd hstatus hopen
  | hung =>
      simp only [close, hstatus]
      exact h
  | poisoned =>
      simp only [close, hstatus]
      apply milestones_release
      simp [note, h, ResourceEvent.ofEvent?]
  | usable =>
      have hcomplete := (Journal.milestones_lasting log).complete w h
      simp only [close, hstatus]
      cases hrun : Action.complete w with
      | error halt v =>
          rw [hrun] at hcomplete
          cases halt with
          | failed error => exact milestones_release hcomplete
          | unfinished => exact hcomplete
      | ok u v =>
          rw [hrun] at hcomplete
          simp only [Action.onSink, Recorded.close]
          cases Sink.close v.sink with
          | error error s =>
              apply milestones_release
              simp [hcomplete, ResourceEvent.ofEvent?]
          | ok u s => simp [release, note, hcomplete, ResourceEvent.ofEvent?]

theorem openWith_planned {config : Config} {engine configured : ε} (ef : EngineFaults)
    (sf : SinkFaults) (sink : σ) (limit : Nat)
    (hconfigured : Engine.Configured config.settings engine configured) :
    match openWith config (FaultyEngine.create ef engine) (FaultySink.openOver sf sink) limit with
    | .error failure => OpeningFails config ef sf failure.error failure.journal.milestones
    | .ok opened => Opens config ef sf ∧ opened.journal.milestones = ResourceEvent.acquired := by
  cases hvalid : config.validate with
  | error fault =>
      simp only [openWith, hvalid]
      exact .invalid hvalid
  | ok u =>
      have hvalid' := Config.validate_eq_ok_iff.mp hvalid
      cases hcreate : ef.failCreate with
      | true =>
          simp only [openWith, hvalid, FaultyEngine.create, hcreate, if_true]
          exact .uncreated hvalid' hcreate
      | false =>
          have hengine : FaultyEngine.create ef engine = .ok (FaultyEngine.mk engine ef 0) := by
            rw [FaultyEngine.create, hcreate]
            rfl
          simp only [openWith, hvalid, hengine]
          rcases FaultyEngine.configureAll hconfigured ef 0
              (Journal.empty.note .engineCreated) with ⟨j, hrun, hspared, hj⟩ |
            ⟨accepted, setting, rest, r, hsettings, hrun, hspared, hrejected, hr⟩
          · simp only [hrun]
            cases hopen : sf.failOpen with
            | true =>
                simp only [FaultySink.openOver, hopen, if_true, Journal.milestones_note, hj]
                exact .unopened hvalid' hcreate hspared hopen
            | false =>
                have hsink : FaultySink.openOver sf sink = .ok (FaultySink.mk sink sf 0) := by
                  rw [FaultySink.openOver, hopen]
                  rfl
                simp only [hsink, Journal.milestones_note, hj]
                exact ⟨⟨hvalid', hcreate, hspared, hopen⟩, rfl⟩
          · simp only [hrun, Journal.milestones_note, hr]
            exact .rejected hvalid' hcreate hsettings hspared hrejected

/-- Whatever is planned to fail, and whatever is written, a run lets go of what it has acquired.
It reports the first step of opening that fails; the sink comes last of these steps.  Once the
writer is open, dropping it or closing it releases the sink and then the engine, and the sink
has been closed before just if closing succeeds.  A close that does not come to an end has not
released anything. -/
theorem resources_are_released {config : Config} {engine configured : ε} (ef : EngineFaults)
    (sf : SinkFaults) (sink : σ) (limit : Nat)
    (hconfigured : Engine.Configured config.settings engine configured) :
    match openWith config (FaultyEngine.create ef engine) (FaultySink.openOver sf sink) limit with
    | .error failure =>
        OpeningFails config ef sf failure.error failure.journal.milestones ∧
          Settled failure.journal.milestones
    | .ok opened => Opens config ef sf ∧ ∀ writes,
        let last := (opened.writeAll writes).2
        let acquired := ResourceEvent.acquired
        last.abandon.journal.milestones = acquired ++ [.sinkReleased, .engineReleased] ∧
          Settled last.abandon.journal.milestones ∧
          match last.close with
          | (.ok _, closed) =>
              closed.journal.milestones =
                  acquired ++ [.sinkClosed, .sinkReleased, .engineReleased] ∧
                Settled closed.journal.milestones
          | (.error (.failed _), closed) =>
              closed.journal.milestones = acquired ++ [.sinkReleased, .engineReleased] ∧
                Settled closed.journal.milestones
          | (.error .unfinished, unclosed) => unclosed.journal.milestones = acquired := by
  have hplanned := openWith_planned ef sf sink limit hconfigured
  cases hopen : openWith config (FaultyEngine.create ef engine) (FaultySink.openOver sf sink)
      limit with
  | error failure =>
      rw [hopen] at hplanned
      exact ⟨hplanned, hplanned.settled⟩
  | ok opened =>
      rw [hopen] at hplanned
      refine ⟨hplanned.1, fun writes => ?_⟩
      have husable := status_opened hopen
      have hlast := (lasting_upheld (Journal.milestones_lasting _)).keeps husable hplanned.2 writes
      have hstatus : (opened.writeAll writes).2.status ≠ .closed :=
        (answered_of_usable husable rfl).ne_closed
      have habandon := milestones_abandon hstatus hlast
      have hclose := milestones_close hstatus hlast
      refine ⟨habandon, habandon ▸ by decide, ?_⟩
      generalize (opened.writeAll writes).2.close = closing at hclose ⊢
      obtain ⟨answer, closed⟩ := closing
      cases answer with
      | ok summary => exact ⟨hclose, hclose ▸ by decide⟩
      | error halt =>
          cases halt with
          | failed error => exact ⟨hclose, hclose ▸ by decide⟩
          | unfinished => exact hclose

/-- The frame end of the third write fails; the writer is poisoned and its sink never closed. -/
theorem resources_are_released_after_failed_write :
    Engine.Configured EagerEngine.config.settings ({} : EagerEngine) {} ∧
      ∃ opened : Writer (FaultyEngine EagerEngine) (FaultySink MemorySink),
        openWith EagerEngine.config (FaultyEngine.create {} {})
          (FaultySink.openOver { failWrite := some 3 } {}) 4 = .ok opened ∧
        let closing := (opened.writeAll [[1, 2, 3], [4, 5, 6], [7]]).2.close
        closing.1 = .error (.failed .poisoned) ∧
          closing.2.journal.milestones =
            ResourceEvent.acquired ++ [.sinkReleased, .engineReleased] ∧
          Settled closing.2.journal.milestones := by
  have hconfigured : Engine.Configured EagerEngine.config.settings ({} : EagerEngine) {} :=
    .set rfl (.set rfl (.set rfl .done))
  have hrun := resources_are_released {} { failWrite := some 3 } ({} : MemorySink) 4 hconfigured
  have hpoisoned : ∃ opened : Writer (FaultyEngine EagerEngine) (FaultySink MemorySink),
      openWith EagerEngine.config (FaultyEngine.create {} {})
        (FaultySink.openOver { failWrite := some 3 } {}) 4 = .ok opened ∧
      (opened.writeAll [[1, 2, 3], [4, 5, 6], [7]]).2.close.1 = .error (.failed .poisoned) :=
    ⟨_, rfl, by decide +kernel⟩
  obtain ⟨opened, hopen, hanswer⟩ := hpoisoned
  rw [hopen] at hrun
  obtain ⟨-, -, hlast⟩ := hrun.2 [[1, 2, 3], [4, 5, 6], [7]]
  have hclose : (opened.writeAll [[1, 2, 3], [4, 5, 6], [7]]).2.close = (_, _) :=
    Prod.ext hanswer rfl
  rw [hclose] at hlast
  exact ⟨hconfigured, opened, hopen, hanswer, hlast⟩

end Writer
end SeekableArchive
