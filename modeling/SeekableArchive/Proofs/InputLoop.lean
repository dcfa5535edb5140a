import SeekableArchive.Proofs.EagerEngine
import SeekableArchive.Proofs.EngineCalls

/-!
# The loop that offers data

Every round of the loop offers what the earlier rounds have left of the data.  A round that
takes in nothing may give out what the engine has held back, which is progress as well; so the
bytes taken in and the bytes given out bound the number of rounds together.
-/

namespace SeekableArchive

namespace EngineCall

def consumed (call : EngineCall) : Nat :=
  match call.answer with
  | some step => step.consumed
  | none => 0

def output (call : EngineCall) : Bytes :=
  match call.answer with
  | some step => step.output
  | none => []

end EngineCall

namespace Sink

variable {σ : Type} [Sink σ] {chunk : Bytes} {s s' : σ}

theorem forM_writeFully_cons (h : writeFully chunk s = .ok () s') (chunks : List Bytes) :
    (chunk :: chunks).forM writeFully s = chunks.forM writeFully s' := by
  show (writeFully chunk >>= fun _ => chunks.forM writeFully) s = _
  simp only [bind, EStateM.bind, h]

theorem forM_writeFully_singleton (chunk : Bytes) (s : σ) :
    [chunk].forM writeFully s = writeFully chunk s := by
  show (writeFully chunk >>= fun _ => pure ()) s = _
  simp only [bind, EStateM.bind]
  cases writeFully chunk s <;> rfl

end Sink

section Rounds

variable {ε σ : Type} [Engine ε] [Sink σ]

/-- The call is answered, makes a difference unless there is nothing to offer, and has its
output accepted. -/
structure Advances (room : Nat) (e : ε) (s : σ) (data : Bytes) (step : EngineStep) (e' : ε)
    (s' : σ) : Prop where
  answered : Engine.compress .proceed data room e = .ok step e'
  moves : step.Stalled → data = []
  accepted : Sink.writeFully step.output s = .ok () s'

/-- How a round ends the loop: the engine fails, nothing has moved, the sink fails, or nothing is
left of the data. -/
inductive Ends (room : Nat) (e : ε) (s : σ) (data : Bytes) :
    EngineCall → Except Halt Unit → ε → σ → Prop
  | refused {error : ArchiveError} {e' : ε}
      (hcall : Engine.compress .proceed data room e = .error error e') :
      Ends room e s data ⟨.proceed, data, room, none⟩ (.error (.failed error)) e' s
  | stalled {step : EngineStep} {e' : ε}
      (hcall : Engine.compress .proceed data room e = .ok step e') (hstalled : step.Stalled)
      (hleft : data ≠ []) :
      Ends room e s data ⟨.proceed, data, room, some step⟩ (.error (.failed .stalled)) e' s
  | rejected {step : EngineStep} {e' : ε} {error : SinkError} {s' : σ}
      (hcall : Engine.compress .proceed data room e = .ok step e')
      (hmoves : step.Stalled → data = [])
      (hoffer : Sink.writeFully step.output s = .error error s') :
      Ends room e s data ⟨.proceed, data, room, some step⟩ (.error (.failed (.sink error))) e' s'
  | done {step : EngineStep} {e' : ε} {s' : σ} (hadvances : Advances room e s data step e' s')
      (hdone : data.drop step.consumed = []) :
      Ends room e s data ⟨.proceed, data, room, some step⟩ (.ok ()) e' s'

/-- The rounds in which data is offered and what comes of them, with the engine and the sink
before and after them.  Rounds may be cut off anywhere. -/
inductive Rounds (room : Nat) : ε → σ → Bytes → List EngineCall → Except Halt Unit → ε → σ → Prop
  | cut {e : ε} {s : σ} {data : Bytes} : Rounds room e s data [] (.error .unfinished) e s
  | last {e e' : ε} {s s' : σ} {data : Bytes} {call : EngineCall} {answer : Except Halt Unit}
      (hends : Ends room e s data call answer e' s') : Rounds room e s data [call] answer e' s'
  | more {e e' e'' : ε} {s s' s'' : σ} {data : Bytes} {step : EngineStep}
      {calls : List EngineCall} {answer : Except Halt Unit}
      (hadvances : Advances room e s data step e' s') (hmore : data.drop step.consumed ≠ [])
      (hrest : Rounds room e' s' (data.drop step.consumed) calls answer e'' s'') :
      Rounds room e s data (⟨.proceed, data, room, some step⟩ :: calls) answer e'' s''

variable {room : Nat} {e e' e'' : ε} {s s' s'' : σ} {data : Bytes} {step : EngineStep}
  {call : EngineCall} {calls front before after : List EngineCall} {answer : Except Halt Unit}

namespace Ends

theorem call_eq (h : Ends room e s data call answer e' s') :
    call.mode = .proceed ∧ call.room = room ∧ call.input = data := by
  cases h <;> exact ⟨rfl, rfl, rfl⟩

theorem consumed_le (hrespects : Engine.RespectsBuffers ε)
    (h : Ends room e s data call answer e' s') : call.consumed ≤ data.length := by
  cases h with
  | refused => exact Nat.zero_le _
  | stalled hcall | rejected hcall => exact (hrespects _ _ _ _ _ _ hcall).1
  | done hadvances => exact (hrespects _ _ _ _ _ _ hadvances.answered).1

theorem answer_ne (h : Ends room e s data call answer e' s') : answer ≠ .error .unfinished := by
  cases h <;> nofun

/-- The loop succeeds where the call has been answered and has taken in all that was left, and
the sink accepts its output. -/
theorem eq_ok_iff (hrespects : Engine.RespectsBuffers ε)
    (h : Ends room e s data call answer e' s') :
    answer = .ok () ↔ call.answer ≠ none ∧ call.consumed = data.length ∧
      ∃ s', Sink.writeFully call.output s = .ok () s' := by
  cases h with
  | refused hcall => simp
  | stalled hcall hstalled hleft =>
      have hnone : 0 ≠ data.length := (List.length_pos_iff.mpr hleft).ne
      simp [EngineCall.consumed, hstalled.1, hnone]
  | rejected hcall hmoves hoffer => simp [EngineCall.output, hoffer]
  | done hadvances hdone =>
      have hbound := (hrespects _ _ _ _ _ _ hadvances.answered).1
      have hall := List.drop_eq_nil_iff.mp hdone
      simpa [EngineCall.consumed, EngineCall.output, hadvances.accepted] using
        Nat.le_antisymm hbound hall

end Ends

/-- A round ends the loop or leaves something for the next one. -/
theorem exists_round (room : Nat) (e : ε) (s : σ) (data : Bytes) :
    (∃ call answer e' s', Ends room e s data call answer e' s') ∨
      ∃ step e' s', Advances room e s data step e' s' ∧ data.drop step.consumed ≠ [] := by
  cases hcall : Engine.compress .proceed data room e with
  | error error e' => exact .inl ⟨_, _, _, _, .refused hcall⟩
  | ok step e' =>
      by_cases hstalled : step.Stalled ∧ data ≠ []
      · exact .inl ⟨_, _, _, _, .stalled hcall hstalled.1 hstalled.2⟩
      · have hmoves (hidle : step.Stalled) : data = [] :=
          not_not.mp fun hdata => hstalled ⟨hidle, hdata⟩
        cases hoffer : Sink.writeFully step.output s with
        | error error s' => exact .inl ⟨_, _, _, _, .rejected hcall hmoves hoffer⟩
        | ok u s' =>
            by_cases hdone : data.drop step.consumed = []
            · exact .inl ⟨_, _, _, _, .done ⟨hcall, hmoves, hoffer⟩ hdone⟩
            · exact .inr ⟨step, e', s', ⟨hcall, hmoves, hoffer⟩, hdone⟩

namespace Rounds

/-- The first of some rounds are rounds that were cut off. -/
theorem of_front (h : Rounds room e s data calls answer e' s') (hfront : front <+: calls) :
    ∃ answer e' s', Rounds room e s data front answer e' s' := by
  induction h generalizing front with
  | cut =>
      obtain rfl := List.prefix_nil.mp hfront
      exact ⟨_, _, _, .cut⟩
  | last hends =>
      rcases List.prefix_cons_iff.mp hfront with rfl | ⟨front, rfl, hnil⟩
      · exact ⟨_, _, _, .cut⟩
      · obtain rfl := List.prefix_nil.mp hnil
        exact ⟨_, _, _, .last hends⟩
  | more hadvances hmore _ ih =>
      rcases List.prefix_cons_iff.mp hfront with rfl | ⟨later, rfl, hlater⟩
      · exact ⟨_, _, _, .cut⟩
      · obtain ⟨answer, e', s', hrest⟩ := ih hlater
        exact ⟨answer, e', s', .more hadvances hmore hrest⟩

theorem length_le (h : Rounds room e s data calls answer e' s') :
    calls.length ≤ data.length + (calls.map EngineCall.produced).sum + 1 := by
  induction h with
  | cut => exact Nat.zero_le _
  | last =>
      rw [List.length_singleton]
      omega
  | more hadvances hmore _ ih =>
      have hmoved := EngineStep.length_drop_lt hadvances.moves hmore
      rw [List.length_cons, List.map_cons, List.sum_cons]
      simp only [EngineCall.produced] at ih ⊢
      omega

/-- Every call is offered what the calls before it have left of the data. -/
theorem offered (h : Rounds room e s data calls answer e' s')
    (hsplit : calls = before ++ call :: after) :
    call.mode = .proceed ∧ call.room = room ∧
      call.input = data.drop (before.map EngineCall.consumed).sum := by
  induction h generalizing before with
  | cut => simp at hsplit
  | last hends =>
      rcases List.append_eq_singleton_iff.mp hsplit.symm with ⟨rfl, hcall⟩ | ⟨-, hcall⟩
      · obtain ⟨rfl, -⟩ := List.cons.inj hcall
        exact hends.call_eq
      · cases hcall
  | more hadvances hmore _ ih =>
      rcases List.cons_eq_append_iff.mp hsplit with ⟨rfl, hhead⟩ | ⟨past, rfl, hrest⟩
      · obtain ⟨rfl, -⟩ := List.cons.inj hhead
        exact ⟨rfl, rfl, rfl⟩
      · obtain ⟨hmode, hroom, hinput⟩ := ih hrest
        refine ⟨hmode, hroom, ?_⟩
        rw [hinput, List.drop_drop, List.map_cons, List.sum_cons]
        rfl

theorem consumed_le (hrespects : Engine.RespectsBuffers ε)
    (h : Rounds room e s data calls answer e' s') :
    (calls.map EngineCall.consumed).sum ≤ data.length := by
  induction h with
  | cut => exact Nat.zero_le _
  | last hends => simpa using hends.consumed_le hrespects
  | more hadvances _ _ ih =>
      have hbound := (hrespects _ _ _ _ _ _ hadvances.answered).1
      rw [List.length_drop] at ih
      rw [List.map_cons, List.sum_cons]
      simp only [EngineCall.consumed] at ih ⊢
      omega

/-- The rounds succeed where every call has been answered and all of the data has been taken in,
and the sink accepts all of the output. -/
theorem eq_ok_iff (hrespects : Engine.RespectsBuffers ε)
    (h : Rounds room e s data calls answer e' s') :
    answer = .ok () ↔ calls ≠ [] ∧ (∀ call ∈ calls, call.answer ≠ none) ∧
      (calls.map EngineCall.consumed).sum = data.length ∧
        ∃ s', (calls.map EngineCall.output).forM Sink.writeFully s = .ok () s' := by
  induction h with
  | cut => simp
  | last hends => simpa [Sink.forM_writeFully_singleton] using hends.eq_ok_iff hrespects
  | @more e e' e'' s s' s'' data step calls answer hadvances hmore _ ih =>
      have hleft := List.length_pos_iff.mpr hmore
      have htotal : ((⟨.proceed, data, room, some step⟩ :: calls).map EngineCall.consumed).sum =
          data.length ↔ (calls.map EngineCall.consumed).sum = (data.drop step.consumed).length := by
        rw [List.length_drop] at hleft ⊢
        rw [List.map_cons, List.sum_cons]
        simp only [EngineCall.consumed]
        omega
      rw [ih, htotal, List.map_cons, EngineCall.output,
        Sink.forM_writeFully_cons hadvances.accepted]
      constructor
      · rintro ⟨-, hanswers, hall, haccepts⟩
        exact ⟨List.cons_ne_nil _ _, List.forall_mem_cons.mpr ⟨by simp, hanswers⟩, hall, haccepts⟩
      · rintro ⟨-, hanswers, hall, haccepts⟩
        refine ⟨?_, (List.forall_mem_cons.mp hanswers).2, hall, haccepts⟩
        rintro rfl
        exact hleft.ne hall

/-- Rounds that come to an end are rounds that leave something and one that ends the loop. -/
theorem exists_last (h : Rounds room e s data calls answer e' s')
    (hanswer : answer ≠ .error .unfinished) : ∃ front call last s₀, calls = front ++ [call] ∧
      Rounds room e s data front (.error .unfinished) last s₀ ∧
      Ends room last s₀ (data.drop (front.map EngineCall.consumed).sum) call answer e' s' := by
  induction h with
  | cut => exact absurd rfl hanswer
  | last hends => exact ⟨[], _, _, _, rfl, .cut, hends⟩
  | more hadvances hmore _ ih =>
      obtain ⟨front, call, last, s₀, rfl, hfront, hends⟩ := ih hanswer
      refine ⟨_ :: front, call, last, s₀, rfl, .more hadvances hmore hfront, ?_⟩
      rw [List.drop_drop] at hends
      exact hends

/-- However many rounds may be made, either all of them are made or the loop ends before. -/
theorem exists_rounds (room limit : Nat) (e : ε) (s : σ) (data : Bytes) :
    ∃ calls answer e' s', Rounds room e s data calls answer e' s' ∧ calls.length ≤ limit ∧
      (answer = .error .unfinished → calls.length = limit) := by
  induction limit generalizing e s data with
  | zero => exact ⟨[], _, e, s, .cut, Nat.le_refl _, fun _ => rfl⟩
  | succ limit ih =>
      rcases exists_round room e s data with
        ⟨call, answer, e', s', hends⟩ | ⟨step, e', s', hadvances, hmore⟩
      · exact ⟨[call], answer, e', s', .last hends, Nat.le_add_left 1 limit,
          fun hcut => absurd hcut hends.answer_ne⟩
      · obtain ⟨calls, answer, e'', s'', hrest, hcount, hcut⟩ := ih e' s' (data.drop step.consumed)
        exact ⟨_ :: calls, answer, e'', s'', .more hadvances hmore hrest, Nat.succ_le_succ hcount,
          fun hanswer => congrArg (· + 1) (hcut hanswer)⟩

end Rounds

end Rounds

/-! ## The loop of a write -/

namespace Action

variable {ε σ α : Type}

/-- The result of an action with this answer, which leaves that writer. -/
def ended (answer : Except Halt α) (w : Writer ε σ) : EStateM.Result Halt (Writer ε σ) α :=
  match answer with
  | .ok a => .ok a w
  | .error halt => .error halt w

variable [Engine ε] [Sink σ] {room : Nat} {data : Bytes} {w : Writer ε σ} {e' : ε} {s' : σ}

/-- An answered call and the offer of its output are one round. -/
theorem consume_of_answered {step : EngineStep}
    (hcall : Engine.compress .proceed data room w.engine = .ok step e')
    (hmoves : step.Stalled → data = []) (limit : Nat) : ∃ j : Journal,
      j.calls = w.journal.calls ++ [⟨.proceed, data, room, some step⟩] ∧
      consume room (limit + 1) data w =
        match Sink.writeFully step.output w.sink with
        | .error error s => .error (.failed (.sink error)) (w.pump e' s j 0)
        | .ok () s =>
            if data.drop step.consumed = [] then .ok () (w.pump e' s j step.output.length)
            else consume room limit (data.drop step.consumed)
              (w.pump e' s j step.output.length) := by
  obtain ⟨j, hcalls, happend⟩ := append_of_writeFully step.output
    { w with
      engine := e'
      journal := w.journal.note (.engineCalled .proceed data room (some step)) }
  refine ⟨j, by simpa [Event.call?] using hcalls, ?_⟩
  rw [run_consume_succ, run_compress, hcall]
  simp only [if_neg (fun h => h.2 (hmoves h.1) : ¬ (step.Stalled ∧ data ≠ [])), happend]
  cases Sink.writeFully step.output w.sink with
  | error error s => rfl
  | ok u s => rfl

theorem consume_of_advances {step : EngineStep} (h : Advances room w.engine w.sink data step e' s')
    (hmore : data.drop step.consumed ≠ []) (limit : Nat) : ∃ j : Journal,
      j.calls = w.journal.calls ++ [⟨.proceed, data, room, some step⟩] ∧
      consume room (limit + 1) data w =
        consume room limit (data.drop step.consumed) (w.pump e' s' j step.output.length) := by
  obtain ⟨j, hcalls, hrun⟩ := consume_of_answered h.answered h.moves limit
  refine ⟨j, hcalls, ?_⟩
  simp only [hrun, h.accepted, if_neg hmore]

theorem consume_of_ends {call : EngineCall} {answer : Except Halt Unit}
    (h : Ends room w.engine w.sink data call answer e' s') (limit : Nat) :
    ∃ (j : Journal) (count : Nat), j.calls = w.journal.calls ++ [call] ∧
      consume room (limit + 1) data w = ended answer (w.pump e' s' j count) := by
  cases h with
  | refused hcall =>
      refine ⟨w.journal.note (.engineCalled .proceed data room none), 0, Journal.calls_note _ _, ?_⟩
      rw [run_consume_succ, run_compress, hcall]
      rfl
  | stalled hcall hstalled hleft =>
      refine ⟨w.journal.note (.engineCalled .proceed data room (some _)), 0,
        Journal.calls_note _ _, ?_⟩
      rw [run_consume_succ, run_compress, hcall]
      simp only [if_pos (And.intro hstalled hleft)]
      rfl
  | rejected hcall hmoves hoffer =>
      obtain ⟨j, hcalls, hrun⟩ := consume_of_answered hcall hmoves limit
      refine ⟨j, 0, hcalls, ?_⟩
      simp only [hrun, hoffer]
      rfl
  | @done step e' s' hadvances hdone =>
      obtain ⟨j, hcalls, hrun⟩ := consume_of_answered hadvances.answered hadvances.moves limit
      refine ⟨j, step.output.length, hcalls, ?_⟩
      simp only [hrun, hadvances.accepted, if_pos hdone]
      rfl

/-- The loop makes the rounds there are, if it may make as many. -/
theorem consume_of_rounds {calls : List EngineCall} {answer : Except Halt Unit} {limit : Nat}
    (h : Rounds room w.engine w.sink data calls answer e' s') (hcount : calls.length ≤ limit)
    (hcut : answer = .error .unfinished → calls.length = limit) :
    ∃ (j : Journal) (count : Nat), j.calls = w.journal.calls ++ calls ∧
      consume room limit data w = ended answer (w.pump e' s' j count) := by
  generalize hengine : w.engine = e at h
  generalize hsink : w.sink = s at h
  induction h generalizing w limit with
  | cut =>
      subst hengine hsink
      obtain rfl : 0 = limit := hcut rfl
      exact ⟨w.journal, 0, (List.append_nil _).symm, rfl⟩
  | last hends =>
      subst hengine hsink
      obtain ⟨limit, rfl⟩ := Nat.exists_eq_add_of_le' hcount
      exact consume_of_ends hends limit
  | @more e e' e'' s s' s'' data step calls answer hadvances hmore _ ih =>
      subst hengine hsink
      obtain ⟨limit, rfl⟩ := Nat.exists_eq_add_of_le' (Nat.le_trans (Nat.le_add_left 1 _) hcount)
      obtain ⟨j, hcalls, hrun⟩ := consume_of_advances hadvances hmore limit
      obtain ⟨j', count, hcalls', hrest⟩ := ih (w := w.pump e' s' j step.output.length)
        (Nat.le_of_succ_le_succ hcount) (fun hanswer => Nat.succ.inj (hcut hanswer)) rfl rfl
      refine ⟨j', step.output.length + count, ?_, ?_⟩
      · rw [hcalls', Writer.pump, hcalls, List.append_assoc]
        rfl
      · rw [hrun, hrest, Writer.pump_pump]

theorem run_takeIn {data : Bytes}
    (hreserve : Reservation.reserve (Engine.outputChunkSize w.engine) = .ok ()) :
    takeIn data w =
      match consume (Engine.outputChunkSize w.engine) w.callLimit data w with
      | .ok () v => .ok () (v.credit data)
      | .error halt v => .error halt v := by
  have hbuffer : outputBuffer "compression output buffer" w =
      .ok (Engine.outputChunkSize w.engine) w := outputBuffer_eq_ok_iff.mpr ⟨hreserve, rfl, rfl⟩
  rw [takeIn, run_bind, hbuffer]
  show (consume _ w.callLimit data >>= fun _ => modify fun w => w.credit data :
    Action ε σ Unit) w = _
  rw [run_bind]
  cases consume (Engine.outputChunkSize w.engine) w.callLimit data w <;> rfl

end Action

namespace Writer

variable {ε σ : Type} [Engine ε] [Sink σ] {w w' u : Writer ε σ} {data : Bytes}
  {calls : List EngineCall} {answer : Except Halt Unit}

/-- What holds of the loop in which a write offers its data: of its calls, of the answer, and of
the writer that it leaves behind. -/
structure Offers (w w' : Writer ε σ) (data : Bytes) (calls : List EngineCall)
    (answer : Except Halt Unit) : Prop where
  called : w'.journal.calls = w.journal.calls ++ calls
  /-- The calls, the answer, and the states of engine and sink belong together. -/
  rounds : Rounds (Engine.outputChunkSize w.engine) w.engine w.sink data calls answer w'.engine
    w'.sink
  /-- Whenever some calls have been made, they have taken in or given out as many bytes, but for
  one call. -/
  bounded {front : List EngineCall} : front <+: calls →
    front.length ≤ data.length + (front.map EngineCall.produced).sum + 1
  /-- Every call is offered exactly what the calls before it have left. -/
  offered {before after : List EngineCall} {call : EngineCall} :
    calls = before ++ call :: after →
      call.mode = .proceed ∧ call.input = data.drop (before.map EngineCall.consumed).sum
  consumed_le : (calls.map EngineCall.consumed).sum ≤ data.length
  ok_iff : answer = .ok () ↔ calls ≠ [] ∧ (∀ call ∈ calls, call.answer ≠ none) ∧
    (calls.map EngineCall.consumed).sum = data.length ∧
      ∃ s, (calls.map EngineCall.output).forM Sink.writeFully w.sink = .ok () s
  /-- An answer comes from the last call: its error is the engine's, the sink's, or that a call
  with input left has made no difference. -/
  answered : answer ≠ .error .unfinished → ∃ front call e s, calls = front ++ [call] ∧
    Rounds (Engine.outputChunkSize w.engine) w.engine w.sink data front (.error .unfinished) e s ∧
    Ends (Engine.outputChunkSize w.engine) e s (data.drop (front.map EngineCall.consumed).sum)
      call answer w'.engine w'.sink
  /-- Without an answer, the loop has made all the calls that it may make. -/
  limited : answer = .error .unfinished → calls.length = w.callLimit
  counted : answer = .ok () → w'.bytesIn = w.bytesIn + data.length ∧
    w'.pendingUncompressed = w.pendingUncompressed + data.length ∧
    w'.hasher = w.hasher.map (·.update data)
  kept : answer ≠ .ok () → w'.bytesIn = w.bytesIn ∧
    w'.pendingUncompressed = w.pendingUncompressed ∧ w'.hasher = w.hasher

/-- A write that has ended the open frame, if it was full, offers its data. -/
theorem write_of_begin (husable : w.status = .usable)
    (hbegin : Action.endFrameIf (w.minFrameSize ≤ w.pendingUncompressed) w = .ok () u) :
    w.write data =
      match Action.takeIn data u with
      | .ok () v => (.ok (), v)
      | .error .unfinished v => (.error .unfinished, { v with status := .hung })
      | .error (.failed error) v => (.error (.failed error),
          { v.note (.logged (.writeFailed error)) with status := .poisoned }) := by
  have haccept : Action.accept data w = Action.takeIn data u := by
    rw [Action.run_accept, Action.run_bind, hbegin]
  cases htake : Action.takeIn data u with
  | ok a v => simp only [Writer.write, husable, haccept, htake]
  | error halt v => cases halt <;> simp only [Writer.write, husable, haccept, htake]

theorem offers_of_rounds (hrespects : Engine.RespectsBuffers ε)
    (hrounds : Rounds (Engine.outputChunkSize w.engine) w.engine w.sink data calls answer
      w'.engine w'.sink) (hcalled : w'.journal.calls = w.journal.calls ++ calls)
    (hlimited : answer = .error .unfinished → calls.length = w.callLimit)
    (hcounted : answer = .ok () → w'.bytesIn = w.bytesIn + data.length ∧
      w'.pendingUncompressed = w.pendingUncompressed + data.length ∧
      w'.hasher = w.hasher.map (·.update data))
    (hkept : answer ≠ .ok () → w'.bytesIn = w.bytesIn ∧
      w'.pendingUncompressed = w.pendingUncompressed ∧ w'.hasher = w.hasher) :
    w.Offers w' data calls answer where
  called := hcalled
  rounds := hrounds
  bounded hfront := by
    obtain ⟨answer', e', s', hrounds'⟩ := hrounds.of_front hfront
    exact hrounds'.length_le
  offered hsplit := by
    obtain ⟨hmode, -, hinput⟩ := hrounds.offered hsplit
    exact ⟨hmode, hinput⟩
  consumed_le := hrounds.consumed_le hrespects
  ok_iff := hrounds.eq_ok_iff hrespects
  answered := hrounds.exists_last
  limited := hlimited
  counted := hcounted
  kept := hkept

/-- Once a write has come to its loop, the loop makes at most as many calls as bytes are offered
and given out, and one more; each is offered exactly what is left, and the loop succeeds exactly
if all of the data is taken in and all output accepted.  Only then does the data count.

So the loop ends over an engine of bounded output, and then it does not matter how many calls it
may make beyond. -/
theorem input_loop_is_bounded_and_exact (hrespects : Engine.RespectsBuffers ε)
    (husable : w.status = .usable) (data : Bytes)
    (hbegin : Action.endFrameIf (w.minFrameSize ≤ w.pendingUncompressed) w = .ok () u)
    (hreserve : Reservation.reserve (Engine.outputChunkSize u.engine) = .ok ()) :
    (∃ calls, u.Offers (w.write data).2 data calls (w.write data).1) ∧
    ∀ bound, (∀ calls answer e s,
        Rounds (Engine.outputChunkSize u.engine) u.engine u.sink data calls answer e s →
          (calls.map EngineCall.produced).sum ≤ bound) →
      ∃ calls answer e s, answer ≠ .error .unfinished ∧
        calls.length ≤ data.length + bound + 1 ∧
        ∀ limit, data.length + bound + 1 ≤ limit → ∃ (j : Journal) (count : Nat),
          j.calls = u.journal.calls ++ calls ∧
          Action.consume (Engine.outputChunkSize u.engine) limit data u =
            Action.ended answer (u.pump e s j count) := by
  refine ⟨?_, fun bound hbound => ?_⟩
  · obtain ⟨calls, answer, e, s, hrounds, hcount, hcut⟩ := Rounds.exists_rounds
      (Engine.outputChunkSize u.engine) u.callLimit u.engine u.sink data
    obtain ⟨j, count, hcalls, hrun⟩ := Action.consume_of_rounds hrounds hcount hcut
    refine ⟨calls, ?_⟩
    rw [write_of_begin husable hbegin, Action.run_takeIn hreserve, hrun]
    rcases answer with (error | _) | _
    · refine offers_of_rounds hrespects hrounds ?_ hcut (fun hanswer => by cases hanswer)
        fun _ => ⟨rfl, rfl, rfl⟩
      show (j.note (.logged (.writeFailed error))).calls = _
      simpa [Event.call?] using hcalls
    · exact offers_of_rounds hrespects hrounds hcalls hcut (fun hanswer => by cases hanswer)
        fun _ => ⟨rfl, rfl, rfl⟩
    · exact offers_of_rounds hrespects hrounds hcalls hcut (fun _ => ⟨rfl, rfl, rfl⟩)
        fun hanswer => absurd rfl hanswer
  · -- If one more round could be made than there are bytes, all of the rounds would be made.
    obtain ⟨calls, answer, e, s, hrounds, hcount, hcut⟩ := Rounds.exists_rounds
      (Engine.outputChunkSize u.engine) (data.length + bound + 2) u.engine u.sink data
    have hlength := hrounds.length_le
    have hsum := hbound _ _ _ _ hrounds
    have hanswer : answer ≠ .error .unfinished := by
      intro hanswer
      have hall := hcut hanswer
      omega
    refine ⟨calls, answer, e, s, hanswer, by omega, fun limit hlimit => ?_⟩
    exact Action.consume_of_rounds hrounds (by omega) fun h => absurd h hanswer

end Writer

namespace EagerEngine

variable {σ : Type} [Sink σ]

/-- A call gives out what it takes in, after the beginning of the frame. -/
theorem produced_proceed {room : Nat} {e e' : EagerEngine} {data : Bytes} {step : EngineStep}
    (h : Engine.compress .proceed data room e = .ok step e') :
    step.output.length + e'.front.length + (data.drop step.consumed).length ≤
      e.front.length + data.length := by
  simp only [Engine.compress] at h
  by_cases hroom : room < e.front.length
  · rw [if_pos hroom] at h
    cases h
    simp [EngineStep.idle]
  · rw [if_neg hroom] at h
    cases h
    simp [front]

theorem produced_rounds {room : Nat} {e e' : EagerEngine} {s s' : σ} {data : Bytes}
    {calls : List EngineCall} {answer : Except Halt Unit}
    (h : Rounds room e s data calls answer e' s') :
    (calls.map EngineCall.produced).sum ≤ e.front.length + data.length := by
  induction h with
  | cut => exact Nat.zero_le _
  | last hends =>
      cases hends with
      | refused => exact Nat.zero_le _
      | stalled hcall | rejected hcall =>
          have hcount := produced_proceed hcall
          simp only [List.map_singleton, List.sum_singleton, EngineCall.produced]
          omega
      | done hadvances =>
          have hcount := produced_proceed hadvances.answered
          simp only [List.map_singleton, List.sum_singleton, EngineCall.produced]
          omega
  | more hadvances _ _ ih =>
      have hcount := produced_proceed hadvances.answered
      rw [List.map_cons, List.sum_cons]
      simp only [EngineCall.produced] at ih ⊢
      omega

/-- There is room for so many bytes in two rounds. -/
theorem hundred_bytes_in_two_rounds :
    (∃ calls, run.opened.Offers (run.opened.write (List.replicate 100 7)).2
      (List.replicate 100 7) calls (run.opened.write (List.replicate 100 7)).1 ∧
        calls.length = 2) ∧
    ∃ calls answer, answer ≠ .error .unfinished ∧ ∀ limit, 205 ≤ limit → ∃ v,
      v.journal.calls = run.opened.journal.calls ++ calls ∧
      Action.consume 64 limit (List.replicate 100 7) run.opened = Action.ended answer v := by
  obtain ⟨⟨calls, hoffers⟩, hends⟩ := Writer.input_loop_is_bounded_and_exact respectsBuffers
    (w := run.opened) rfl (List.replicate 100 7) rfl (Reservation.reserve_eq_ok_iff.mpr (by decide))
  have hcount : (run.opened.write (List.replicate 100 7)).2.journal.calls.length =
      run.opened.journal.calls.length + 2 := by decide +kernel
  rw [hoffers.called, List.length_append] at hcount
  obtain ⟨calls', answer, e, s, hanswer, -, hloop⟩ := hends 104 fun _ _ _ _ => produced_rounds
  refine ⟨⟨calls, hoffers, by omega⟩, calls', answer, hanswer, fun limit hlimit => ?_⟩
  obtain ⟨j, count, hcalls, hrun⟩ := hloop limit hlimit
  exact ⟨_, hcalls, hrun⟩

end EagerEngine

end SeekableArchive
