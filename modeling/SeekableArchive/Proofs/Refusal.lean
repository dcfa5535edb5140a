import SeekableArchive.Faults
import SeekableArchive.Proofs.Outcome

/-!
# Sinks that refuse an offer

A sink may fail in the middle of an offer, having accepted a part of it.  As long as none
has been refused, a writer has counted exactly what its sink holds.  The first refusal stops
the writer; from then on the sink is ahead of the counter by what it accepted of that offer.
-/

namespace SeekableArchive

namespace Sink

/-- The sink appends what it accepts of an offer, also if the offer fails, and says how
much that is if it does not. -/
structure Appending (σ : Type) [Sink σ] where
  contents : σ → Bytes
  accepted : Bytes → σ → Bytes
  accepted_isPrefix (data : Bytes) (s : σ) : accepted data s <+: data
  write_ok {data : Bytes} {s s' : σ} {count : Nat} : Sink.write data s = .ok count s' →
    count = (accepted data s).length ∧ contents s' = contents s ++ accepted data s
  write_error {data : Bytes} {s s' : σ} {error : SinkError} :
    Sink.write data s = .error error s' → contents s' = contents s ++ accepted data s
  close {s s' : σ} : Sink.close s = .ok () s' → contents s' = contents s

/-- The sink does not accept the whole offer, and goes from one state to the other; the
event is what the journal notes. -/
inductive Refuses {σ : Type} [Sink σ] (data : Bytes) (s : σ) : Event → σ → Prop
  | short {s' : σ} {count : Nat} (hwrite : Sink.write data s = .ok count s')
      (hshort : count < data.length) : Refuses data s (.sinkOffered data (some count)) s'
  | failed {s' : σ} {error : SinkError} (hwrite : Sink.write data s = .error error s') :
      Refuses data s (.sinkOffered data none) s'

theorem Appending.accepted_eq_self {σ : Type} [Sink σ] (appending : Appending σ) {data : Bytes}
    {s : σ} (h : data.length ≤ (appending.accepted data s).length) :
    appending.accepted data s = data :=
  (appending.accepted_isPrefix data s).eq_of_length_le h

end Sink

def MemorySink.appending : Sink.Appending MemorySink where
  contents := MemorySink.contents
  accepted data s := if s.isClosed then [] else data
  accepted_isPrefix data s := by
    cases s.isClosed with
    | true => exact List.nil_prefix
    | false => exact List.prefix_refl data
  write_ok {data s _ _} h := by
    cases hclosed : s.isClosed with
    | true => simp [Sink.write, hclosed] at h
    | false =>
        simp only [Sink.write, hclosed, Bool.false_eq_true, if_false] at h ⊢
        cases h
        exact ⟨rfl, s.contents_append data⟩
  write_error {data s _ _} h := by
    cases hclosed : s.isClosed with
    | true =>
        simp only [Sink.write, hclosed, if_true] at h ⊢
        cases h
        exact (List.append_nil _).symm
    | false => simp [Sink.write, hclosed] at h
  close {s _} h := by
    cases hclosed : s.isClosed with
    | true => simp [Sink.close, hclosed] at h
    | false =>
        simp only [Sink.close, hclosed, Bool.false_eq_true, if_false] at h
        cases h
        rfl

namespace FaultySink

variable {σ : Type}

/-- What the plan lets through of an offer. -/
def passed (data : Bytes) (f : FaultySink σ) : Option Bytes :=
  if data = [] then some data
  else if f.faults.failWrite = some (f.writes + 1) then none
  else if f.faults.shortWrite = some (f.writes + 1) then some (data.take (data.length / 2))
  else some data

def counted (data : Bytes) (f : FaultySink σ) : FaultySink σ :=
  if data = [] then f else { f with writes := f.writes + 1 }

@[simp] theorem sink_counted (data : Bytes) (f : FaultySink σ) :
    (f.counted data).sink = f.sink := by
  rw [counted]
  split <;> rfl

theorem passed_isPrefix {data front : Bytes} {f : FaultySink σ}
    (h : f.passed data = some front) : front <+: data := by
  grind [passed, List.take_prefix, List.prefix_refl]

theorem inside_eq_ok {α : Type} {act : EStateM SinkError σ α} {f f' : FaultySink σ} {a : α}
    (h : inside act f = .ok a f') : act f.sink = .ok a f'.sink := by
  cases hact : act f.sink with
  | error error s => simp [inside, hact] at h
  | ok made s =>
      simp only [inside, hact] at h
      cases h
      rfl

theorem inside_eq_error {α : Type} {act : EStateM SinkError σ α} {f f' : FaultySink σ}
    {error : SinkError} (h : inside act f = .error error f') :
    act f.sink = .error error f'.sink := by
  cases hact : act f.sink with
  | ok made s => simp [inside, hact] at h
  | error made s =>
      simp only [inside, hact] at h
      cases h
      rfl

variable [Sink σ]

theorem run_write (data : Bytes) (f : FaultySink σ) :
    Sink.write data f =
      match f.passed data with
      | none => .error (injectedFault "write") (f.counted data)
      | some front => inside (Sink.write front) (f.counted data) := by
  show write data f = _
  by_cases hdata : data = []
  · simp only [write, passed, counted, hdata, if_true]
  · simp only [write, passed, counted, if_neg hdata]
    show (if f.faults.failWrite = some (f.writes + 1) then _ else _ :
      EStateM SinkError (FaultySink σ) Nat) { f with writes := f.writes + 1 } = _
    split
    · rfl
    · split <;> rfl

theorem run_close (f : FaultySink σ) :
    Sink.close f =
      if f.faults.failClose then .error (injectedFault "close") f else inside Sink.close f := by
  show (if f.faults.failClose then _ else _ : EStateM SinkError (FaultySink σ) Unit) f = _
  split <;> rfl

/-- What gets through is accepted as the sink inside accepts it. -/
def appending (inner : Sink.Appending σ) : Sink.Appending (FaultySink σ) where
  contents f := inner.contents f.sink
  accepted data f := ((f.passed data).map (inner.accepted · f.sink)).getD []
  accepted_isPrefix data f := by
    cases hpassed : f.passed data with
    | none => exact List.nil_prefix
    | some front => exact (inner.accepted_isPrefix front f.sink).trans (passed_isPrefix hpassed)
  write_ok {data f _ _} h := by
    rw [run_write] at h
    cases hpassed : f.passed data with
    | none => simp [hpassed] at h
    | some front =>
        simp only [hpassed] at h
        have hwrite := inner.write_ok (inside_eq_ok h)
        rwa [sink_counted] at hwrite
  write_error {data f _ _} h := by
    rw [run_write] at h
    cases hpassed : f.passed data with
    | none =>
        simp only [hpassed] at h
        cases h
        simp
    | some front =>
        simp only [hpassed] at h
        have hwrite := inner.write_error (inside_eq_error h)
        rwa [sink_counted] at hwrite
  close {f _} h := by
    rw [run_close] at h
    by_cases hfail : f.faults.failClose = true
    · simp [hfail] at h
    · rw [if_neg hfail] at h
      exact inner.close (inside_eq_ok h)

end FaultySink

/-! ## Refusals in the journal -/

/-- An offer of which the sink did not accept everything. -/
def Event.isRefusal : Event → Bool
  | sinkOffered data (some accepted) => accepted < data.length
  | sinkOffered _ none => true
  | _ => false

theorem Sink.Refuses.isRefusal {σ : Type} [Sink σ] {data : Bytes} {s s' : σ} {event : Event}
    (h : Sink.Refuses data s event s') : event.isRefusal = true := by
  cases h with
  | short hwrite hshort => exact decide_eq_true hshort
  | failed hwrite => rfl

namespace Journal

def refusals (j : Journal) : List Event :=
  j.events.filter Event.isRefusal

theorem refusals_note {event : Event} (h : event.isRefusal = true) (j : Journal) :
    (j.note event).refusals = j.refusals ++ [event] := by
  simp [refusals, h]

theorem refusals_note_of_not {event : Event} (h : event.isRefusal = false) (j : Journal) :
    (j.note event).refusals = j.refusals := by
  simp [refusals, h]

end Journal

/-! ## Writers before and after a refusal -/

namespace Writer

variable {ε σ : Type} [Sink σ]

/-- Nothing has been refused, and the sink holds what is stored, all of it counted. -/
structure Whole (appending : Sink.Appending σ) (w : Writer ε σ) : Prop where
  unrefused : w.journal.refusals = []
  contents : appending.contents w.sink = w.journal.stored
  counted : w.journal.stored.length = w.bytesOut

/-- One offer has been refused, the last one, and the sink holds what has been counted and
what it accepted of that offer. -/
def Cut (appending : Sink.Appending σ) (w : Writer ε σ) : Prop :=
  ∃ data s event, w.journal.refusals = [event] ∧ Sink.Refuses data s event w.sink ∧
    (appending.contents w.sink).length = w.bytesOut + (appending.accepted data s).length

variable {appending : Sink.Appending σ} {w : Writer ε σ}

theorem Whole.length_contents (h : w.Whole appending) :
    (appending.contents w.sink).length = w.bytesOut := by
  rw [h.contents, h.counted]

theorem Whole.note (h : w.Whole appending) (event : Event) (hevent : event.isRefusal = false)
    (hstored : event.stored = []) : (w.note event).Whole appending := by
  have hsame : (w.journal.note event).stored = w.journal.stored := by
    rw [Journal.stored_note, hstored, List.append_nil]
  constructor
  · exact (Journal.refusals_note_of_not hevent _).trans h.unrefused
  · exact h.contents.trans hsame.symm
  · exact (congrArg List.length hsame).trans h.counted

theorem Cut.note (h : w.Cut appending) (event : Event) (hevent : event.isRefusal = false) :
    (w.note event).Cut appending := by
  obtain ⟨data, s, refusal, hrefusals, hrefuses, hlength⟩ := h
  exact ⟨data, s, refusal, (Journal.refusals_note_of_not hevent _).trans hrefusals, hrefuses,
    hlength⟩

/-- The first refusal cuts a writer. -/
theorem Whole.cut (h : w.Whole appending) {data : Bytes} {event : Event} {s : σ}
    (hrefuses : Sink.Refuses data w.sink event s)
    (hcontents : appending.contents s =
      appending.contents w.sink ++ appending.accepted data w.sink) :
    Cut appending { w with sink := s, journal := w.journal.note event } := by
  refine ⟨data, w.sink, event, ?_, hrefuses, ?_⟩
  · rw [Journal.refusals_note hrefuses.isRefusal, h.unrefused]
    rfl
  · rw [hcontents, List.length_append, h.length_contents]

end Writer

namespace Action

open Writer (Whole Cut)

variable {ε σ : Type} [Sink σ] {appending : Sink.Appending σ}

/-- An offer is accepted as a whole and is yet to be counted, or it is refused. -/
theorem whole_offer (chunk : Bytes) :
    Ensures (Whole appending : Writer ε σ → Prop) (onSink (Sink.writeFully chunk))
      (fun _ w => Whole appending { w with bytesOut := w.bytesOut + chunk.length })
      (Cut appending) := by
  apply ensures_offer
  · -- An empty chunk is not offered, so the sink is not asked and the journal has no event.
    rintro rfl w hw
    exact hw
  · exact fun w error s hw _ hwrite => hw.cut (.failed hwrite) (appending.write_error hwrite)
  · exact fun w count s hw hwrite hshort =>
      hw.cut (.short hwrite hshort) (appending.write_ok hwrite).2
  · intro w count s hw _ hwrite htaken
    obtain ⟨hcount, hcontents⟩ := appending.write_ok hwrite
    have hevent : (Event.sinkOffered chunk (some count)).isRefusal = false :=
      decide_eq_false (Nat.not_lt.mpr htaken)
    have hall : appending.accepted chunk w.sink = chunk :=
      appending.accepted_eq_self (by omega)
    have hstored : (Event.sinkOffered chunk (some count)).stored = chunk :=
      List.take_of_length_le htaken
    constructor
    · exact (Journal.refusals_note_of_not hevent _).trans hw.unrefused
    · rw [Journal.stored_note, hstored, hcontents, hall, hw.contents]
    · rw [Journal.stored_note, hstored, List.length_append, hw.counted]

variable [Engine ε]

theorem whole_compress (mode : FlushMode) (input : Bytes) (room : Nat) :
    Ensures (Whole appending : Writer ε σ → Prop) (onEngine (Recorded.compress mode input room))
      (fun _ => Whole appending) (Whole appending) := by
  intro w hw
  rw [run_compress]
  cases Engine.compress mode input room w.engine with
  | error error e =>
      have hnoted := hw.note (.engineCalled mode input room none) rfl rfl
      exact ⟨hnoted.unrefused, hnoted.contents, hnoted.counted⟩
  | ok step e =>
      have hnoted := hw.note (.engineCalled mode input room (some step)) rfl rfl
      exact ⟨hnoted.unrefused, hnoted.contents, hnoted.counted⟩

/-- A writer without refusals stays one until a refusal cuts it. -/
theorem whole_stable :
    Stable (Whole appending : Writer ε σ → Prop) fun w => w.Whole appending ∨ w.Cut appending where
  halts _ hw := .inl hw
  compress mode input room := (whole_compress mode input room).weaken fun _ hw => .inl hw
  append chunk := by
    apply ((whole_offer chunk).weaken fun _ hw => .inr hw).bind
    intro _
    exact ensures_modify fun _ hw => ⟨hw.unrefused, hw.contents, hw.counted⟩
  record := by
    apply ensures_recordFrame
    · exact fun w hw => .inl ⟨hw.unrefused, hw.contents, hw.counted⟩
    · intro w frameLog _ hw
      have hnoted := hw.note (.logged
        (.frameEnded w.frames w.pendingCompressed w.pendingUncompressed)) rfl rfl
      exact ⟨hnoted.unrefused, hnoted.contents, hnoted.counted⟩

theorem whole_complete :
    Ensures (Whole appending : Writer ε σ → Prop) complete (fun _ => Whole appending)
      fun w => w.Whole appending ∨ w.Cut appending := by
  apply whole_stable.complete
  · exact fun w room hw => ⟨hw.unrefused, hw.contents, hw.counted⟩
  · exact fun chunk => (whole_offer chunk).weaken fun w hw => .inr hw
  · exact fun w record hw => hw.note (.logged record) rfl rfl

end Action
end SeekableArchive
