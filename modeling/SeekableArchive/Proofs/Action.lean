import SeekableArchive.Proofs.Flow
import SeekableArchive.Writer.Frames

/-!
# Running actions

How the actions of a writer run, one equation for each: sequencing, a call of the
engine, and an offer to the sink.  Everything else that a writer does is put
together from these.
-/

namespace SeekableArchive

namespace Writer

variable {ε σ : Type}

/-- The writer with another engine, sink and journal, and with `count` more bytes of output
counted. -/
def pump (w : Writer ε σ) (engine : ε) (sink : σ) (journal : Journal) (count : Nat) :
    Writer ε σ :=
  { w with
    engine, sink, journal
    pendingCompressed := w.pendingCompressed + count
    bytesOut := w.bytesOut + count }

@[simp] theorem pump_pump (w : Writer ε σ) (e e' : ε) (s s' : σ) (j j' : Journal)
    (count count' : Nat) :
    (w.pump e s j count).pump e' s' j' count' = w.pump e' s' j' (count + count') := by
  simp [pump, Nat.add_assoc]

/-- The writer after the open frame has taken in the data. -/
def credit (w : Writer ε σ) (data : Bytes) : Writer ε σ :=
  { w with
    hasher := w.hasher.map (·.update data)
    pendingUncompressed := w.pendingUncompressed + data.length
    bytesIn := w.bytesIn + data.length }

/-- The writer after the open frame has been recorded in the log. -/
def recorded (w : Writer ε σ) (frameLog : FrameLog) : Writer ε σ :=
  { w with
    hasher := some .start
    frameLog
    journal := w.journal.note
      (.logged (.frameEnded w.frames w.pendingCompressed w.pendingUncompressed))
    pendingUncompressed := 0
    pendingCompressed := 0 }

/-- The writer with another limit on its loops. -/
def within (w : Writer ε σ) (limit : Nat) : Writer ε σ :=
  { w with callLimit := limit }

end Writer

namespace Action

variable {ε σ α β : Type}

theorem run_bind (act : Action ε σ α) (next : α → Action ε σ β) (w : Writer ε σ) :
    (act >>= next) w =
      match act w with
      | .ok a v => next a v
      | .error halt v => .error halt v := by
  simp only [bind, EStateM.bind]
  cases act w <;> rfl

theorem run_get_bind (next : Writer ε σ → Action ε σ β) (w : Writer ε σ) :
    (get >>= next) w = next w w := rfl

theorem run_ite (p : Prop) [Decidable p] (act act' : Action ε σ α) (w : Writer ε σ) :
    (if p then act else act') w = if p then act w else act' w := by
  split <;> rfl

theorem bind_eq_ok_iff {act : Action ε σ α} {next : α → Action ε σ β} {w w' : Writer ε σ}
    {b : β} :
    (act >>= next) w = .ok b w' ↔ ∃ a v, act w = .ok a v ∧ next a v = .ok b w' := by
  rw [run_bind]
  cases act w with
  | ok a v =>
      constructor
      · exact fun h => ⟨a, v, rfl, h⟩
      · rintro ⟨_, _, h, hnext⟩
        cases h
        exact hnext
  | error halt v => simp

theorem run_ofExcept_bind (result : Except ArchiveError α) (next : α → Action ε σ β)
    (w : Writer ε σ) :
    (ofExcept result >>= next) w =
      match result with
      | .ok a => next a w
      | .error error => .error (.failed error) w := by
  cases result <;> rfl

theorem run_compress [Engine ε] (mode : FlushMode) (input : Bytes) (room : Nat)
    (w : Writer ε σ) :
    onEngine (Recorded.compress mode input room) w =
      match Engine.compress mode input room w.engine with
      | .ok step e =>
          .ok step { w with
            engine := e
            journal := w.journal.note (.engineCalled mode input room (some step)) }
      | .error error e =>
          .error (.failed error) { w with
            engine := e
            journal := w.journal.note (.engineCalled mode input room none) } := by
  simp only [onEngine, Recorded.compress]
  cases Engine.compress mode input room w.engine <;> rfl

/-- An empty offer does not reach the sink. -/
theorem run_offer_nil [Sink σ] (w : Writer ε σ) :
    onSink (Sink.writeFully []) w = .ok () w := rfl

theorem run_offer [Sink σ] {chunk : Bytes} (hchunk : chunk ≠ []) (w : Writer ε σ) :
    onSink (Sink.writeFully chunk) w =
      match Sink.write chunk w.sink with
      | .ok accepted s =>
          let offered := { w with
            sink := s, journal := w.journal.note (.sinkOffered chunk (some accepted)) }
          if accepted < chunk.length then
            .error (.failed (.sink (.shortWrite chunk.length accepted))) offered
          else .ok () offered
      | .error error s =>
          .error (.failed (.sink error)) { w with
            sink := s, journal := w.journal.note (.sinkOffered chunk none) } := by
  have hwrite : Sink.write chunk (⟨w.sink, w.journal⟩ : Recorded σ) =
      Recorded.write chunk ⟨w.sink, w.journal⟩ := rfl
  simp only [onSink, Sink.writeFully, if_neg hchunk, bind, EStateM.bind, hwrite,
    Recorded.write]
  cases Sink.write chunk w.sink with
  | error error s => rfl
  | ok accepted s =>
      by_cases hshort : accepted < chunk.length
      · simp only [hshort, if_true]
        rfl
      · simp only [hshort, if_false]
        rfl

theorem run_append [Sink σ] (chunk : Bytes) (w : Writer ε σ) :
    append chunk w =
      match onSink (Sink.writeFully chunk) w with
      | .ok () v => .ok () (v.pump v.engine v.sink v.journal chunk.length)
      | .error halt v => .error halt v := by
  rw [append, run_bind]
  cases onSink (Sink.writeFully chunk) w <;> rfl

theorem run_outputBuffer [Engine ε] (what : String) (w : Writer ε σ) :
    outputBuffer what w =
      match Reservation.buffer what (Engine.outputChunkSize w.engine) with
      | .ok () => .ok (Engine.outputChunkSize w.engine) w
      | .error error => .error (.failed error) w := by
  show (ofExcept _ >>= _ : Action ε σ Nat) w = _
  rw [run_ofExcept_bind]
  cases Reservation.buffer what (Engine.outputChunkSize w.engine) <;> rfl

/-! ## What a success tells -/

/-- An offer that succeeds has been stored as a whole, and nothing else has happened. -/
theorem offer_eq_ok [Sink σ] {chunk : Bytes} {w w' : Writer ε σ}
    (h : onSink (Sink.writeFully chunk) w = .ok () w') :
    ∃ s j, w' = { w with sink := s, journal := j } ∧ j.flows = w.journal.flows ∧
      j.stored = w.journal.stored ++ chunk := by
  by_cases hchunk : chunk = []
  · subst hchunk
    rw [run_offer_nil] at h
    cases h
    exact ⟨w.sink, w.journal, rfl, rfl, by simp⟩
  · rw [run_offer hchunk] at h
    cases hwrite : Sink.write chunk w.sink with
    | error error s => simp [hwrite] at h
    | ok accepted s =>
        by_cases hshort : accepted < chunk.length
        · simp [hwrite, hshort] at h
        · simp only [hwrite, hshort, if_false] at h
          cases h
          refine ⟨s, _, rfl, rfl, ?_⟩
          rw [Journal.stored_note, Event.stored, List.take_of_length_le (by omega)]

theorem append_eq_ok [Sink σ] {chunk : Bytes} {w w' : Writer ε σ}
    (h : append chunk w = .ok () w') :
    ∃ s j, w' = w.pump w.engine s j chunk.length ∧ j.flows = w.journal.flows ∧
      j.stored = w.journal.stored ++ chunk := by
  rw [run_append] at h
  cases hoffer : onSink (Sink.writeFully chunk) w with
  | error halt v => simp [hoffer] at h
  | ok u v =>
      obtain ⟨s, j, rfl, hflows, hstored⟩ := offer_eq_ok hoffer
      simp only [hoffer] at h
      cases h
      exact ⟨s, j, rfl, hflows, hstored⟩

theorem buffer_eq_ok_iff (what : String) {size : Nat} :
    Reservation.buffer what size = .ok () ↔ Reservation.reserve size = .ok () := by
  rw [Reservation.buffer]
  cases Reservation.reserve size <;> simp

theorem buffer_eq_error (what : String) {size : Nat} {failure : ReservationFailure}
    (h : Reservation.reserve size = .error failure) :
    Reservation.buffer what size = .error (.allocation (what ++ " (" ++ toString size ++
      " bytes): " ++ failure.message)) := by
  rw [Reservation.buffer, h]

theorem outputBuffer_eq_ok_iff [Engine ε] {what : String} {w w' : Writer ε σ} {room : Nat} :
    outputBuffer what w = .ok room w' ↔
      Reservation.reserve (Engine.outputChunkSize w.engine) = .ok () ∧
        room = Engine.outputChunkSize w.engine ∧ w' = w := by
  rw [run_outputBuffer, ← buffer_eq_ok_iff what]
  cases Reservation.buffer what (Engine.outputChunkSize w.engine) with
  | error error => simp
  | ok u => simp [eq_comm]

end Action

end SeekableArchive
