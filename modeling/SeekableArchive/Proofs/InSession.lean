import SeekableArchive.Proofs.CleanRun

/-!
# Writers in a session of their engine

Whatever a writer asks of its engine continues one session, from opening to closing.  Over
an engine that does not begin a frame without input, a frame that has taken in nothing has
given out nothing, so a closed writer leaves no bytes behind that belong to no frame.
-/

namespace SeekableArchive

/-- In every session, a frame that has not begun is not begun by a call without input. -/
def Engine.Quiet {ε : Type} [Engine ε] (start : ε) : Prop :=
  ∀ ⦃asked flows : Flows⦄ ⦃asking e e' : ε⦄ ⦃step : EngineStep⦄,
    Session start asked asking → Session start flows e → flows.current = {} →
      compress .proceed [] (outputChunkSize asking) e = .ok step e' → step.output = []

theorem Engine.Faithful.quiet_calls {ε : Type} [Engine ε] {decode : Bytes → Except String Bytes}
    {start : ε} (h : Engine.Faithful decode start) : Engine.Quiet start :=
  fun _ _ _ _ _ _ hasked hsession hfresh hcall => h.quiet hasked hsession hfresh hcall

variable {ε σ : Type} [Engine ε] [Sink σ] {start : ε}

namespace Writer

/-- A balanced writer in a session of its engine.  Of a frame that has taken in nothing,
nothing has been given out. -/
structure InSession (start : ε) (w : Writer ε σ) : Prop where
  balanced : w.Balanced
  session : Engine.Session start w.journal.flows w.engine
  quiet : w.journal.flows.current.taken = [] → w.journal.flows.current.given = []

variable {w w' : Writer ε σ}

omit [Sink σ] in
theorem inSession_fresh {config : Config} {s : σ} {j : Journal} {limit : Nat}
    (hflows : j.flows = {}) (hstored : j.stored = []) :
    (fresh config start s j limit).InSession start := by
  refine ⟨balanced_fresh hflows hstored, ?_, ?_⟩
  · show Engine.Session start j.flows start
    rw [hflows]
    exact .start
  · intro _
    show j.flows.current.given = []
    rw [hflows]

theorem Balanced.session_endFrame (h : w.Balanced)
    (hsession : Engine.Session start w.journal.flows w.engine)
    (hrun : Action.endFrame w = .ok () w') :
    Engine.Session start w'.journal.flows w'.engine := by
  obtain ⟨-, -, -, given, hdrains, hflows⟩ := h.endFrame hrun
  rw [hflows]
  exact .finish hsession hdrains

theorem session_takeIn {data : Bytes} (hsession : Engine.Session start w.journal.flows w.engine)
    (hrun : Action.takeIn data w = .ok () w') :
    Engine.Session start w'.journal.flows w'.engine := by
  obtain ⟨-, v, hconsume, rfl⟩ := Action.takeIn_eq_ok_iff.mp hrun
  have hconsumed := Action.session_consume hsession hsession hconsume
  exact hconsumed

theorem InSession.endFrame (h : w.InSession start) (hrun : Action.endFrame w = .ok () w') :
    w'.InSession start := by
  obtain ⟨hbalanced, -, -, given, -, hflows⟩ := h.balanced.endFrame hrun
  refine ⟨hbalanced, h.balanced.session_endFrame h.session hrun, fun _ => ?_⟩
  rw [hflows]
  rfl

/-- The empty input is offered in a single call. -/
theorem InSession.takeIn_nil (hquiet : Engine.Quiet start) (h : w.InSession start)
    (hempty : w.journal.flows.current.taken = []) (hrun : Action.takeIn [] w = .ok () w') :
    w'.journal.flows.current.given = [] := by
  obtain ⟨-, v, hconsume, rfl⟩ := Action.takeIn_eq_ok_iff.mp hrun
  cases hcalls : w.callLimit with
  | zero =>
      rw [hcalls] at hconsume
      cases hconsume
  | succ calls =>
      rw [hcalls] at hconsume
      obtain ⟨e, s, j, step, hengine, hflows, -, hnext⟩ := Action.consume_succ_eq_ok hconsume
      have hfresh : w.journal.flows.current = {} := congrArg₂ Flow.mk hempty (h.quiet hempty)
      have hsilent := hquiet h.session h.session hfresh hengine
      rw [List.drop_nil, if_pos rfl] at hnext
      rw [hnext]
      show j.flows.current.given = []
      rw [hflows, Flows.given_current_fill, hfresh, hsilent]
      rfl

theorem InSession.takeIn {data : Bytes} (hquiet : Engine.Quiet start) (h : w.InSession start)
    (hrun : Action.takeIn data w = .ok () w') : w'.InSession start := by
  obtain ⟨hbalanced, -, -, given, -, hflows⟩ := h.balanced.takeIn hrun
  refine ⟨hbalanced, session_takeIn h.session hrun, fun htaken => ?_⟩
  rw [hflows, Flows.taken_fill, List.append_eq_nil_iff] at htaken
  obtain ⟨hempty, rfl⟩ := htaken
  exact h.takeIn_nil hquiet hempty hrun

theorem InSession.accept {data : Bytes} (hquiet : Engine.Quiet start) (h : w.InSession start)
    (hrun : Action.accept data w = .ok () w') : w'.InSession start := by
  rw [Action.run_accept, Action.bind_eq_ok_iff] at hrun
  obtain ⟨_, v, hend, htake⟩ := hrun
  rw [Action.endFrameIf_eq_ok_iff] at hend
  by_cases hfull : w.minFrameSize ≤ w.pendingUncompressed
  · rw [if_pos hfull] at hend
    exact (h.endFrame hend).takeIn hquiet htake
  · rw [if_neg hfull] at hend
    subst hend
    exact h.takeIn hquiet htake

theorem InSession.accepts {writes : List Bytes} (hquiet : Engine.Quiet start)
    (h : w.InSession start) (hrun : w.Accepts writes w') : w'.InSession start := by
  induction writes generalizing w with
  | nil =>
      cases accepts_nil_iff.mp hrun
      exact h
  | cons data writes ih =>
      obtain ⟨v, hwrite, hrest⟩ := accepts_cons_iff.mp hrun
      exact ih (h.accept hquiet (write_eq_ok h.balanced.usable hwrite)) hrest

end Writer

namespace CleanRun

variable {config : Config} {engine : ε} {sink : σ} {limit : Nat} {writes : List Bytes}
  (run : CleanRun config engine sink limit writes)

/-- A run begins with the engine as the settings have left it. -/
theorem inSession_opened (hconfigured : Engine.Configured config.settings engine start) :
    run.opened.InSession start ∧ run.opened.engine = start := by
  obtain ⟨j, hflows, hstored, hopens⟩ :=
    Writer.openWith_of_configured sink run.valid hconfigured
  have hopened : run.opened = Writer.fresh config start sink j limit :=
    Except.ok.inj (run.opens.symm.trans (hopens limit))
  rw [hopened]
  exact ⟨Writer.inSession_fresh hflows hstored, rfl⟩

theorem inSession_written (hconfigured : Engine.Configured config.settings engine start)
    (hquiet : Engine.Quiet start) : run.written.InSession start :=
  (run.inSession_opened hconfigured).1.accepts hquiet run.accepts

/-- The close continues the session of the writes. -/
theorem exists_session_closed
    (hsession : Engine.Session start run.written.journal.flows run.written.engine) :
    ∃ e, Engine.Session start run.closed.journal.flows e := by
  obtain ⟨-, last, hdrains, hflows⟩ := run.balanced_written.1.close run.closes
  rw [hflows]
  by_cases hopen : 0 < run.written.pendingUncompressed
  · rw [if_pos hopen]
    obtain ⟨e, hdrains⟩ := hdrains hopen
    exact ⟨e, .finish hsession hdrains⟩
  · rw [if_neg hopen]
    exact ⟨_, hsession⟩

theorem session_closed (h : run.written.InSession start) :
    ∃ e, Engine.Session start run.closed.journal.flows e :=
  run.exists_session_closed h.session

/-- Everything that the engine has given out belongs to a frame that has ended. -/
theorem given_closed (h : run.written.InSession start) :
    run.closed.journal.flows.current.given = [] := by
  obtain ⟨last, hflows⟩ := run.flows_closed
  rw [hflows]
  by_cases hopen : 0 < run.written.pendingUncompressed
  · rw [if_pos hopen]
    rfl
  · rw [if_neg hopen]
    exact h.quiet (h.balanced.pending_eq_zero_iff.mp (Nat.eq_zero_of_not_pos hopen))

end CleanRun

end SeekableArchive
