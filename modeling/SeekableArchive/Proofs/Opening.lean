import SeekableArchive.Proofs.Session
import SeekableArchive.Writer

/-!
# Opening a writer

A writer can be opened over a valid configuration and an engine that accepts its
settings, and nothing has flowed or been stored when it is.
-/

namespace SeekableArchive
namespace Writer

variable {ε σ : Type}

/-- The writer as it is opened: `e` has got its settings and `j` notes it. -/
def fresh (config : Config) (e : ε) (s : σ) (j : Journal) (limit : Nat) : Writer ε σ where
  sink := s
  frameLog := .empty config.checksums
  engine := e
  hasher := if config.checksums then some .start else none
  minFrameSize := config.minFrameSize
  footerChunkSize := config.footerChunkSize
  callLimit := limit
  journal := j

variable [Engine ε]

/-- Nothing changes in a view of the journal that does not show settings. -/
theorem configureAll_eq_ok {settings : List Setting} {r r' : Recorded ε}
    (h : configureAll settings r = .ok () r') :
    Engine.Configured settings r.resource r'.resource ∧
      ∀ {τ : Type} (view : Journal → τ),
        (∀ j setting, view (j.note (.engineConfigured setting true)) = view j) →
          view r'.journal = view r.journal := by
  induction settings generalizing r with
  | nil =>
      cases h
      exact ⟨.done, fun _ _ => rfl⟩
  | cons setting settings ih =>
      simp only [configureAll, bind, EStateM.bind, Recorded.configure] at h
      cases hset : Engine.configure setting r.resource with
      | error error e => simp [hset] at h
      | ok u e =>
          simp only [hset] at h
          obtain ⟨hconfigured, hrest⟩ := ih h
          refine ⟨.set hset hconfigured, ?_⟩
          intro τ view hview
          exact (hrest view hview).trans (hview r.journal setting)

theorem configureAll_of_configured {settings : List Setting} {e e' : ε}
    (h : Engine.Configured settings e e') (j : Journal) :
    ∃ j', configureAll settings ⟨e, j⟩ = .ok () ⟨e', j'⟩ := by
  induction h generalizing j with
  | done => exact ⟨j, rfl⟩
  | set haccepted _ ih =>
      obtain ⟨j', hrest⟩ := ih (j.note (.engineConfigured _ true))
      refine ⟨j', ?_⟩
      simp only [configureAll, bind, EStateM.bind, Recorded.configure, haccepted]
      exact hrest

theorem openWith_eq_ok [Sink σ] {config : Config} {e : ε} {s : σ} {limit : Nat}
    {w : Writer ε σ}
    (h : openWith config (.ok e) (.ok s) limit = .ok w) :
    config.Valid ∧ ∃ e' j, Engine.Configured config.settings e e' ∧ j.flows = {} ∧
      j.stored = [] ∧ w = fresh config e' s j limit := by
  cases hvalid : config.validate with
  | error fault => simp [openWith, hvalid] at h
  | ok u =>
      cases hset : configureAll config.settings ⟨e, Journal.empty.note .engineCreated⟩ with
      | error error r => simp [openWith, hvalid, hset] at h
      | ok u r =>
          obtain ⟨hconfigured, hview⟩ := configureAll_eq_ok hset
          have hflows := hview Journal.flows fun _ _ => rfl
          have hstored := hview Journal.stored fun _ _ => List.append_nil _
          simp only [openWith, hvalid, hset] at h
          cases h
          refine ⟨Config.validate_eq_ok_iff.mp hvalid, r.resource,
            (r.journal.note .sinkOpened).note (.logged (.opened config)), hconfigured, hflows,
            ?_, rfl⟩
          simpa [Event.stored] using hstored

/-- There is no writer without an engine and a sink. -/
theorem exists_of_opened [Sink σ] {config : Config} {engine : Except ArchiveError ε}
    {sink : Except SinkError σ} {limit : Nat} {w : Writer ε σ}
    (h : openWith config engine sink limit = .ok w) : ∃ e s, engine = .ok e ∧ sink = .ok s := by
  cases hvalid : config.validate with
  | error fault => simp [openWith, hvalid] at h
  | ok u =>
      cases engine with
      | error error => simp [openWith, hvalid] at h
      | ok e =>
          cases sink with
          | ok s => exact ⟨e, s, rfl, rfl⟩
          | error error =>
              cases hset : configureAll config.settings ⟨e, Journal.empty.note .engineCreated⟩ <;>
                simp [openWith, hvalid, hset] at h

/-- The journal of the opened writer does not depend on the limit of its loops. -/
theorem openWith_of_configured [Sink σ] {config : Config} {e e' : ε} (s : σ)
    (hvalid : config.Valid) (hconfigured : Engine.Configured config.settings e e') :
    ∃ j, j.flows = {} ∧ j.stored = [] ∧
      ∀ limit, openWith config (.ok e) (.ok s) limit = .ok (fresh config e' s j limit) := by
  obtain ⟨j, hset⟩ := configureAll_of_configured hconfigured (Journal.empty.note .engineCreated)
  obtain ⟨-, hview⟩ := configureAll_eq_ok hset
  have hflows := hview Journal.flows fun _ _ => rfl
  have hstored := hview Journal.stored fun _ _ => List.append_nil _
  refine ⟨(j.note .sinkOpened).note (.logged (.opened config)), hflows, ?_, fun limit => ?_⟩
  · simpa [Event.stored] using hstored
  · simp only [openWith, Config.validate_eq_ok_iff.mpr hvalid, hset]
    rfl

end Writer
end SeekableArchive
