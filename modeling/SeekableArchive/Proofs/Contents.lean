import SeekableArchive.Proofs.CleanRun
import SeekableArchive.Proofs.Outcome

/-!
# The contents of a sink that accepts everything

A writer never touches its sink but by offers that go into the journal.  So whatever it
does, and whether or not that succeeds, the contents of an accepting sink are what the
journal says is stored.
-/

namespace SeekableArchive

/-- A sink that, while it is open, takes in whatever it is offered and can be closed. -/
structure Sink.Accepting (σ : Type) [Sink σ] where
  contents : σ → Bytes
  IsOpen : σ → Prop
  write {s : σ} (data : Bytes) : IsOpen s → ∃ accepted s', Sink.write data s = .ok accepted s' ∧
    data.length ≤ accepted ∧ contents s' = contents s ++ data ∧ IsOpen s'
  close {s : σ} : IsOpen s → ∃ s', Sink.close s = .ok () s' ∧ contents s' = contents s

def MemorySink.accepting : Sink.Accepting MemorySink where
  contents := MemorySink.contents
  IsOpen s := s.isClosed = false
  write {s} data h :=
    ⟨data.length, s.append data, by simp [Sink.write, h], Nat.le_refl _,
      s.contents_append data, h⟩
  close {s} h := ⟨{ s with isClosed := true }, by simp [Sink.close, h], rfl⟩

namespace Action

variable {ε σ α β : Type}

/-- Whatever the outcome of the action, it leaves the property intact. -/
def Preserves (P : Writer ε σ → Prop) (act : Action ε σ α) : Prop :=
  ∀ w, P w → match act w with
    | .ok _ w' => P w'
    | .error _ w' => P w'

variable {P : Writer ε σ → Prop}

theorem Preserves.of_eq_ok {act : Action ε σ α} {w w' : Writer ε σ} {a : α}
    (h : Preserves P act) (hw : P w) (hrun : act w = .ok a w') : P w' := by
  have hact := h w hw
  rwa [hrun] at hact

theorem preserves_iff_ensures {act : Action ε σ α} :
    Preserves P act ↔ Ensures P act (fun _ => P) P :=
  Iff.rfl

end Action

namespace Writer

variable {ε σ : Type} [Sink σ]

/-- The sink is open and holds what the journal says is stored. -/
def Mirrors (accepting : Sink.Accepting σ) (w : Writer ε σ) : Prop :=
  accepting.IsOpen w.sink ∧ accepting.contents w.sink = w.journal.stored

theorem Mirrors.note {accepting : Sink.Accepting σ} {w : Writer ε σ} {event : Event}
    (h : w.Mirrors accepting) (hevent : event.stored = []) :
    (w.note event).Mirrors accepting := by
  refine ⟨h.1, h.2.trans ?_⟩
  rw [Writer.note, Journal.stored_note, hevent, List.append_nil]

end Writer

namespace Action

variable {ε σ : Type} [Engine ε] [Sink σ] {accepting : Sink.Accepting σ}

open Writer (Mirrors)

omit [Engine ε] in
theorem mirrors_offer (chunk : Bytes) :
    Preserves (Mirrors accepting) (onSink (Sink.writeFully chunk) : Action ε σ Unit) := by
  rintro w ⟨hopen, hcontents⟩
  by_cases hchunk : chunk = []
  · rw [hchunk, run_offer_nil]
    exact ⟨hopen, hcontents⟩
  · obtain ⟨accepted, s, hwrite, hall, hstored, hopen'⟩ := accepting.write chunk hopen
    rw [run_offer hchunk, hwrite]
    simp only [if_neg (Nat.not_lt.mpr hall)]
    refine ⟨hopen', ?_⟩
    rw [Journal.stored_note, Event.stored, List.take_of_length_le hall, ← hcontents]
    exact hstored

theorem mirrors_compress (mode : FlushMode) (input : Bytes) (room : Nat) :
    Preserves (Mirrors accepting)
      (onEngine (Recorded.compress mode input room) : Action ε σ EngineStep) := by
  rintro w ⟨hopen, hcontents⟩
  rw [run_compress]
  have hnote (answer : Option EngineStep) :
      (w.journal.note (.engineCalled mode input room answer)).stored = w.journal.stored := by
    simp [Event.stored]
  cases Engine.compress mode input room w.engine with
  | error error e => exact ⟨hopen, hcontents.trans (hnote none).symm⟩
  | ok step e => exact ⟨hopen, hcontents.trans (hnote (some step)).symm⟩

omit [Engine ε] in
theorem mirrors_recordFrame :
    Preserves (Mirrors accepting) (recordFrame : Action ε σ Unit) := by
  apply preserves_iff_ensures.mpr
  apply ensures_recordFrame
  · exact fun w hw => hw
  · exact fun w frameLog _ hw => ⟨hw.1, hw.2.trans (List.append_nil _).symm⟩

theorem mirrors_stable :
    Stable (Mirrors accepting : Writer ε σ → Prop) (Mirrors accepting) where
  halts _ hw := hw
  compress mode input room := preserves_iff_ensures.mp (mirrors_compress mode input room)
  append chunk :=
    (preserves_iff_ensures.mp (mirrors_offer chunk)).bind fun _ => ensures_modify fun _ hw => hw
  record := preserves_iff_ensures.mp mirrors_recordFrame

theorem mirrors_accept (data : Bytes) :
    Preserves (Mirrors accepting) (accept data : Action ε σ Unit) :=
  preserves_iff_ensures.mpr (mirrors_stable.accept fun _ hw => hw)

theorem mirrors_complete : Preserves (Mirrors accepting) (complete : Action ε σ Unit) := by
  apply preserves_iff_ensures.mpr
  apply mirrors_stable.complete
  · exact fun _ _ hw => hw
  · exact fun chunk => preserves_iff_ensures.mp (mirrors_offer chunk)
  · exact fun _ _ hw => hw.note rfl

end Action

/-! ## Clean runs over an accepting sink -/

namespace Writer

variable {ε σ : Type} [Engine ε] [Sink σ] {accepting : Sink.Accepting σ} {w w' : Writer ε σ}

theorem Mirrors.accepts {writes : List Bytes} (h : w.Mirrors accepting) (hw : w.Balanced)
    (hrun : w.Accepts writes w') : w'.Mirrors accepting := by
  induction writes generalizing w with
  | nil =>
      cases accepts_nil_iff.mp hrun
      exact h
  | cons data writes ih =>
      obtain ⟨v, hwrite, hrest⟩ := accepts_cons_iff.mp hrun
      have haccept := write_eq_ok hw.usable hwrite
      exact ih ((Action.mirrors_accept data).of_eq_ok h haccept) (hw.accept haccept).1 hrest

end Writer

namespace CleanRun

variable {ε σ : Type} [Engine ε] [Sink σ] {config : Config} {engine : ε} {sink : σ}
  {limit : Nat} {writes : List Bytes} (run : CleanRun config engine sink limit writes)
  (accepting : Sink.Accepting σ)

theorem mirrors_written (hopen : accepting.IsOpen sink)
    (hempty : accepting.contents sink = []) : run.written.Mirrors accepting := by
  have hopened : run.opened.Mirrors accepting := by
    obtain ⟨-, e, j, -, -, hstored, hfresh⟩ := Writer.openWith_eq_ok run.opens
    rw [hfresh]
    exact ⟨hopen, hempty.trans hstored.symm⟩
  exact hopened.accepts run.balanced_opened run.accepts

/-- In the end the sink holds what has been stored. -/
theorem contents_closed (hopen : accepting.IsOpen sink)
    (hempty : accepting.contents sink = []) :
    accepting.contents run.closed.sink = run.closed.journal.stored := by
  have hwritten := run.mirrors_written accepting hopen hempty
  obtain ⟨-, v, s, hcomplete, hclose, -, hclosed⟩ := Writer.close_eq_ok run.closes
  obtain ⟨hv, hcontents⟩ := Action.mirrors_complete.of_eq_ok hwritten hcomplete
  obtain ⟨s', hclose', hsame⟩ := accepting.close hv
  have hs : s' = s := by
    rw [hclose] at hclose'
    cases hclose'
    rfl
  rw [hclosed, ← hs]
  simp only [Journal.stored_note, Event.stored, List.append_nil]
  exact hsame.trans hcontents

end CleanRun

end SeekableArchive
