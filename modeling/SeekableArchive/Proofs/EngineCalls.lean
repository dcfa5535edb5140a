import SeekableArchive.Proofs.TableChunks

/-!
# The calls that an operation makes

A write or a close calls the engine in two loops.  The loop that feeds it gives up on a call
that makes no difference; the loop that completes a frame looks at nothing but what is left.
What is said of the calls of both, and of how an operation ends after them, is put together
from what is said of one loop after the other.
-/

namespace SeekableArchive

/-- A call of an engine, and its answer unless it failed. -/
structure EngineCall where
  mode : FlushMode
  input : Bytes
  room : Nat
  answer : Option EngineStep
deriving DecidableEq

namespace EngineCall

def produced (call : EngineCall) : Nat :=
  match call.answer with
  | some step => step.output.length
  | none => 0

end EngineCall

def Event.call? : Event → Option EngineCall
  | engineCalled mode input room answer => some ⟨mode, input, room, answer⟩
  | _ => none

namespace Journal

def calls (j : Journal) : List EngineCall :=
  j.events.filterMap Event.call?

@[simp] theorem calls_note (j : Journal) (event : Event) :
    (j.note event).calls = j.calls ++ event.call?.toList := by
  cases hcall : event.call? <;> simp [calls, hcall]

end Journal

/-! ## Calls and how an operation ends -/

/-- What holds of the calls of an operation, or of a part of it, and of its answer. -/
structure Drives {α : Type} (limit size : Nat) (calls : List EngineCall)
    (answer : Except Halt α) : Prop where
  /-- A call that leaves all of its input and gives out nothing is the last one, and it is
  reported. -/
  reported {before after : List EngineCall} {input : Bytes} {room : Nat} {step : EngineStep} :
    calls = before ++ ⟨.proceed, input, room, some step⟩ :: after → step.Stalled → input ≠ [] →
      after = [] ∧ answer = .error (.failed .stalled)
  /-- A completing call that gives out nothing, although something is left, is made again at
  once, unless the loop has reached its limit. -/
  repeated {before after : List EngineCall} {room : Nat} {step : EngineStep} :
    calls = before ++ ⟨.complete, [], room, some step⟩ :: after → step.output = [] →
      step.remaining ≠ 0 →
        (∃ again later, after = ⟨.complete, [], room, again⟩ :: later) ∨
          after = [] ∧ answer = .error .unfinished
  /-- If there is no such completing call, every call but a few takes in or gives out a byte. -/
  bounded : (∀ room step, ⟨.complete, [], room, some step⟩ ∈ calls → step.output = [] →
    step.remaining = 0) → calls.length ≤ size + (calls.map EngineCall.produced).sum
  exhausted : answer = .error .unfinished → limit ≤ calls.length

namespace Drives

variable {α β : Type} {limit size size' : Nat} {calls front back : List EngineCall} {a : α}
  {halt : Halt} {answer : Except Halt α}

theorem nil (h : answer = .error .unfinished → limit = 0) : Drives limit size [] answer where
  reported hsplit := by simp at hsplit
  repeated hsplit := by simp at hsplit
  bounded _ := Nat.zero_le _
  exhausted hanswer := (h hanswer).le

theorem silent (h : answer = .error .unfinished → limit = 0) : Drives limit 0 [] answer :=
  .nil h

theorem cons {call : EngineCall} (h : Drives limit size calls answer)
    (hreported : ∀ input room step, call = ⟨.proceed, input, room, some step⟩ → step.Stalled →
      input ≠ [] → calls = [] ∧ answer = .error (.failed .stalled))
    (hrepeated : ∀ room step, call = ⟨.complete, [], room, some step⟩ → step.output = [] →
      step.remaining ≠ 0 → (∃ again later, calls = ⟨.complete, [], room, again⟩ :: later) ∨
        calls = [] ∧ answer = .error .unfinished)
    (hmoves : (∀ room step, call = ⟨.complete, [], room, some step⟩ → step.output = [] →
      step.remaining = 0) → size + 1 ≤ size' + call.produced) :
    Drives (limit + 1) size' (call :: calls) answer where
  reported hsplit hstalled hinput := by
    rcases List.cons_eq_append_iff.mp hsplit with ⟨-, hhead⟩ | ⟨past, rfl, hrest⟩
    · obtain ⟨hcall, rfl⟩ := List.cons.inj hhead
      exact hreported _ _ _ hcall.symm hstalled hinput
    · exact h.reported hrest hstalled hinput
  repeated hsplit hsilent hmore := by
    rcases List.cons_eq_append_iff.mp hsplit with ⟨-, hhead⟩ | ⟨past, rfl, hrest⟩
    · obtain ⟨hcall, rfl⟩ := List.cons.inj hhead
      exact hrepeated _ _ hcall.symm hsilent hmore
    · exact h.repeated hrest hsilent hmore
  bounded hcalls := by
    have hhead := hmoves fun room step hcall => hcalls room step (hcall ▸ List.mem_cons_self)
    have hrest := h.bounded fun room step hcall => hcalls room step (List.mem_cons_of_mem _ hcall)
    rw [List.length_cons, List.map_cons, List.sum_cons]
    omega
  exhausted hanswer := Nat.succ_le_succ (h.exhausted hanswer)

theorem of_error (h : Drives limit size calls (.error halt : Except Halt α))
    (hsize : size ≤ size') : Drives limit size' calls (.error halt : Except Halt β) where
  reported hsplit hstalled hinput := by
    obtain ⟨hlast, hanswer⟩ := h.reported hsplit hstalled hinput
    cases hanswer
    exact ⟨hlast, rfl⟩
  repeated hsplit hsilent hmore := by
    rcases h.repeated hsplit hsilent hmore with hagain | ⟨hlast, hanswer⟩
    · exact .inl hagain
    · cases hanswer
      exact .inr ⟨hlast, rfl⟩
  bounded hcalls := (h.bounded hcalls).trans (Nat.add_le_add_right hsize _)
  exhausted hanswer := by
    cases hanswer
    exact h.exhausted rfl

theorem append {answer : Except Halt β} (h : Drives limit size front (.ok a))
    (h' : Drives limit size' back answer) :
    Drives limit (size + size') (front ++ back) answer where
  reported hsplit hstalled hinput := by
    rcases List.append_eq_append_iff.mp hsplit with ⟨past, rfl, hback⟩ | ⟨rest, hfront, hrest⟩
    · exact h'.reported hback hstalled hinput
    · cases rest with
      | nil =>
          have hback : back = [] ++ ⟨.proceed, _, _, some _⟩ :: _ := hrest.symm
          exact h'.reported hback hstalled hinput
      | cons call rest =>
          obtain ⟨rfl, rfl⟩ := List.cons.inj hrest
          -- The first part would not have succeeded.
          cases (h.reported hfront hstalled hinput).2
  repeated hsplit hsilent hmore := by
    rcases List.append_eq_append_iff.mp hsplit with ⟨past, rfl, hback⟩ | ⟨rest, hfront, hrest⟩
    · exact h'.repeated hback hsilent hmore
    · cases rest with
      | nil =>
          have hback : back = [] ++ ⟨.complete, [], _, some _⟩ :: _ := hrest.symm
          exact h'.repeated hback hsilent hmore
      | cons call rest =>
          obtain ⟨rfl, rfl⟩ := List.cons.inj hrest
          rcases h.repeated hfront hsilent hmore with ⟨again, later, rfl⟩ | ⟨-, hanswer⟩
          · exact .inl ⟨again, later ++ back, rfl⟩
          · cases hanswer
  bounded hcalls := by
    have hfront := h.bounded fun room step hcall => hcalls room step (List.mem_append_left _ hcall)
    have hback := h'.bounded fun room step hcall => hcalls room step (List.mem_append_right _ hcall)
    rw [List.map_append, List.sum_append, List.length_append]
    omega
  exhausted hanswer := by
    rw [List.length_append]
    exact (h'.exhausted hanswer).trans (Nat.le_add_left _ _)

/-- What comes after the last part of an operation makes no calls. -/
theorem of_ok {answer : Except Halt β} (h : Drives limit size calls (.ok a))
    (hends : answer ≠ .error .unfinished) : Drives limit size calls answer := by
  have hlast : Drives limit (size + 0) (calls ++ []) answer :=
    h.append (.silent fun hanswer => absurd hanswer hends)
  rwa [List.append_nil, Nat.add_zero] at hlast

section Heads

variable {room : Nat} {input : Bytes} {step : EngineStep}

theorem of_failed_call (mode : FlushMode) (h : answer ≠ .error .unfinished) :
    Drives (limit + 1) (size + 1) [⟨mode, input, room, none⟩] answer :=
  cons (silent fun hanswer => absurd hanswer h) nofun nofun fun _ => by omega

theorem of_stalled_call :
    Drives (limit + 1) (size + 1) [⟨.proceed, input, room, some step⟩]
      (.error (.failed .stalled) : Except Halt α) :=
  cons (silent nofun) (fun _ _ _ _ _ _ => ⟨rfl, rfl⟩) nofun fun _ => by omega

/-- A call that makes a difference, or is offered nothing, may be followed by others. -/
theorem cons_proceed (h : Drives limit size calls answer) (hmoves : step.Stalled → input = [])
    (hsize : size + 1 ≤ size' + step.output.length) :
    Drives (limit + 1) size' (⟨.proceed, input, room, some step⟩ :: calls) answer := by
  refine h.cons (fun input' room' step' hcall hstalled hinput => ?_) nofun fun _ => hsize
  cases hcall
  exact absurd (hmoves hstalled) hinput

theorem cons_complete (h : Drives limit size calls answer)
    (hmoves : step.output = [] → step.remaining = 0)
    (hsize : size + 1 ≤ size' + step.output.length) :
    Drives (limit + 1) size' (⟨.complete, [], room, some step⟩ :: calls) answer := by
  refine h.cons nofun (fun room' step' hcall hsilent hmore => ?_) fun _ => hsize
  cases hcall
  exact absurd (hmoves hsilent) hmore

/-- How the loop that completes a frame goes on. -/
def Resumes (room : Nat) (calls : List EngineCall) (answer : Except Halt α) : Prop :=
  (∃ again later, calls = ⟨.complete, [], room, again⟩ :: later) ∨
    calls = [] ∧ answer = .error .unfinished

theorem cons_resumed (h : Drives limit 1 calls answer) (hresumes : Resumes room calls answer)
    (hmore : step.remaining ≠ 0) :
    Drives (limit + 1) 1 (⟨.complete, [], room, some step⟩ :: calls) answer := by
  refine h.cons nofun (fun room' step' hcall _ _ => ?_) fun hcalls => ?_
  · cases hcall
    exact hresumes
  · have hloud : step.output ≠ [] := fun hsilent => hmore (hcalls _ _ rfl hsilent)
    have hpos := List.length_pos_iff.mpr hloud
    simp only [EngineCall.produced]
    omega

end Heads

end Drives

namespace Action

variable {ε σ α β : Type} {limit : Nat} {w v : Writer ε σ}

/-- The result has been reached by calls for which `T` holds, with how it ended. -/
def Reached (limit : Nat) (w : Writer ε σ) (T : List EngineCall → Except Halt α → Prop) :
    EStateM.Result Halt (Writer ε σ) α → Prop
  | .ok a v => v.callLimit = limit ∧
      ∃ calls, v.journal.calls = w.journal.calls ++ calls ∧ T calls (.ok a)
  | .error halt v =>
      ∃ calls, v.journal.calls = w.journal.calls ++ calls ∧ T calls (.error halt)

/-- On a writer with that limit, the action makes calls for which `T` holds. -/
def Makes (limit : Nat) (act : Action ε σ α) (T : List EngineCall → Except Halt α → Prop) :
    Prop :=
  ∀ w, w.callLimit = limit → Reached limit w T (act w)

section Rules

variable {act : Action ε σ α} {T T' : List EngineCall → Except Halt α → Prop} {size size' : Nat}

theorem Reached.mono {result : EStateM.Result Halt (Writer ε σ) α}
    (h : Reached limit w T result) (himp : ∀ calls answer, T calls answer → T' calls answer) :
    Reached limit w T' result := by
  cases result with
  | ok a v =>
      obtain ⟨hv, calls, hcalls, hT⟩ := h
      exact ⟨hv, calls, hcalls, himp _ _ hT⟩
  | error halt v =>
      obtain ⟨calls, hcalls, hT⟩ := h
      exact ⟨calls, hcalls, himp _ _ hT⟩

theorem Reached.since {result : EStateM.Result Halt (Writer ε σ) α} {front : List EngineCall}
    (hfront : v.journal.calls = w.journal.calls ++ front)
    (h : Reached limit v (fun back answer => T (front ++ back) answer) result) :
    Reached limit w T result := by
  cases result with
  | ok a u =>
      obtain ⟨hu, back, hback, hT⟩ := h
      exact ⟨hu, front ++ back, by rw [hback, hfront, List.append_assoc], hT⟩
  | error halt u =>
      obtain ⟨back, hback, hT⟩ := h
      exact ⟨front ++ back, by rw [hback, hfront, List.append_assoc], hT⟩

theorem Makes.bind {next : α → Action ε σ β} (h : Makes limit act (Drives limit size))
    (hnext : ∀ a, Makes limit (next a) (Drives limit size')) :
    Makes limit (act >>= next) (Drives limit (size + size')) := by
  intro w hw
  have hact := h w hw
  rw [run_bind]
  cases hrun : act w with
  | error halt v =>
      rw [hrun] at hact
      obtain ⟨calls, hcalls, hdrives⟩ := hact
      exact ⟨calls, hcalls, hdrives.of_error (Nat.le_add_right _ _)⟩
  | ok a v =>
      rw [hrun] at hact
      obtain ⟨hv, front, hfront, hdrives⟩ := hact
      exact .since hfront ((hnext a v hv).mono fun _ _ hback => hdrives.append hback)

theorem Makes.ite {p : Prop} [Decidable p] {act' : Action ε σ α} (h : Makes limit act T)
    (h' : Makes limit act' T) : Makes limit (if p then act else act') T := by
  by_cases hp : p
  · rwa [if_pos hp]
  · rwa [if_neg hp]

theorem makes_get_bind {next : Writer ε σ → Action ε σ α}
    (h : ∀ w, w.callLimit = limit → Makes limit (next w) T) : Makes limit (get >>= next) T :=
  fun w hw => h w hw w hw

theorem makes_pure (a : α) : Makes limit (pure a : Action ε σ α) (Drives limit size) :=
  fun _ hw => ⟨hw, [], (List.append_nil _).symm, .nil nofun⟩

theorem makes_modify {f : Writer ε σ → Writer ε σ}
    (h : ∀ w, (f w).callLimit = w.callLimit ∧ (f w).journal = w.journal) :
    Makes limit (modify f : Action ε σ PUnit) (Drives limit 0) :=
  fun w hw => ⟨(h w).1.trans hw, [], by rw [(h w).2, List.append_nil], .nil nofun⟩

theorem makes_recordFrame : Makes limit (recordFrame : Action ε σ Unit) (Drives limit 0) := by
  intro w hw
  rw [run_recordFrame]
  cases w.frameLog.record w.pendingCompressed w.pendingUncompressed (frameChecksum w) with
  | error fault => exact ⟨[], (List.append_nil _).symm, .nil nofun⟩
  | ok frameLog => exact ⟨hw, [], Journal.calls_note _ _, .nil nofun⟩

end Rules

variable [Engine ε]

theorem makes_outputBuffer (what : String) :
    Makes limit (outputBuffer what : Action ε σ Nat) (Drives limit 0) := by
  intro w hw
  rw [run_outputBuffer]
  cases Reservation.buffer what (Engine.outputChunkSize w.engine) with
  | error error => exact ⟨[], (List.append_nil _).symm, .nil nofun⟩
  | ok u => exact ⟨hw, [], (List.append_nil _).symm, .nil nofun⟩

theorem call_outcome (mode : FlushMode) (input : Bytes) (room : Nat) (w : Writer ε σ) :
    (∃ error v, onEngine (Recorded.compress mode input room) w = .error (.failed error) v ∧
        v.journal.calls = w.journal.calls ++ [⟨mode, input, room, none⟩]) ∨
      ∃ step v, onEngine (Recorded.compress mode input room) w = .ok step v ∧
        v.callLimit = w.callLimit ∧
        v.journal.calls = w.journal.calls ++ [⟨mode, input, room, some step⟩] := by
  rw [run_compress]
  cases Engine.compress mode input room w.engine with
  | error error e => exact .inl ⟨error, _, rfl, Journal.calls_note _ _⟩
  | ok step e => exact .inr ⟨step, _, rfl, rfl, Journal.calls_note _ _⟩

variable [Sink σ]

omit [Engine ε] in
theorem append_of_writeFully (chunk : Bytes) (w : Writer ε σ) : ∃ j : Journal,
    j.calls = w.journal.calls ∧ append chunk w =
      match Sink.writeFully chunk w.sink with
      | .ok () s => .ok () (w.pump w.engine s j chunk.length)
      | .error error s => .error (.failed (.sink error)) (w.pump w.engine s j 0) := by
  by_cases hchunk : chunk = []
  · subst hchunk
    exact ⟨w.journal, rfl, rfl⟩
  · rw [run_append, run_offer hchunk]
    simp only [Sink.writeFully, if_neg hchunk, bind, EStateM.bind]
    cases Sink.write chunk w.sink with
    | error error s => exact ⟨_, by simp [Event.call?], rfl⟩
    | ok accepted s =>
        refine ⟨w.journal.note (.sinkOffered chunk (some accepted)), by simp [Event.call?], ?_⟩
        by_cases hshort : accepted < chunk.length
        · simp only [if_pos hshort]
          rfl
        · simp only [if_neg hshort]
          rfl

omit [Engine ε] in
/-- The offer of an output is no call, and only one that is not empty can fail. -/
theorem append_outcome (chunk : Bytes) (w : Writer ε σ) :
    (chunk ≠ [] ∧ ∃ error v, append chunk w = .error (.failed (.sink error)) v ∧
        v.journal.calls = w.journal.calls ++ []) ∨
      ∃ v, append chunk w = .ok () v ∧ v.callLimit = w.callLimit ∧
        v.journal.calls = w.journal.calls ++ [] := by
  obtain ⟨j, hcalls, happend⟩ := append_of_writeFully chunk w
  rw [happend, List.append_nil]
  cases hoffer : Sink.writeFully chunk w.sink with
  | ok u s => exact .inr ⟨_, rfl, rfl, hcalls⟩
  | error error s =>
      refine .inl ⟨?_, error, _, rfl, hcalls⟩
      rintro rfl
      cases hoffer

/-! ## The two loops -/

theorem makes_consume (room calls : Nat) (data : Bytes) :
    Makes limit (consume room calls data : Action ε σ Unit) (Drives calls (data.length + 1)) := by
  induction calls generalizing data with
  | zero => exact fun _ _ => ⟨[], (List.append_nil _).symm, .nil fun _ => rfl⟩
  | succ calls ih =>
      intro w hw
      rw [run_consume_succ]
      rcases call_outcome .proceed data room w with
        ⟨error, v, hcall, hcalls⟩ | ⟨step, v, hcall, hlimit, hcalls⟩
      · rw [hcall]
        exact ⟨_, hcalls, .of_failed_call _ nofun⟩
      · rw [hcall]
        by_cases hstalled : step.Stalled ∧ data ≠ []
        · simp only [if_pos hstalled]
          exact ⟨_, hcalls, .of_stalled_call⟩
        · simp only [if_neg hstalled]
          have hmoves (hidle : step.Stalled) : data = [] :=
            not_not.mp fun hdata => hstalled ⟨hidle, hdata⟩
          apply Reached.since hcalls
          rcases append_outcome step.output v with
            ⟨-, error, u, happend, hsame⟩ | ⟨u, happend, hlimit', hsame⟩
          · simp only [happend]
            exact ⟨[], hsame, .cons_proceed (.silent nofun) hmoves (by omega)⟩
          · simp only [happend]
            by_cases hrest : data.drop step.consumed = []
            · simp only [if_pos hrest]
              exact ⟨hlimit'.trans (hlimit.trans hw), [], hsame,
                .cons_proceed (.silent nofun) hmoves (by omega)⟩
            · simp only [if_neg hrest]
              apply Reached.since hsame
              refine (ih _ u (hlimit'.trans (hlimit.trans hw))).mono fun later answer hlater => ?_
              have hprogress := EngineStep.length_drop_lt hmoves hrest
              exact hlater.cons_proceed hmoves (by omega)

theorem makes_drainFrame (room calls : Nat) :
    Makes limit (drainFrame room calls : Action ε σ Unit)
      fun later answer => Drives calls 1 later answer ∧ Drives.Resumes room later answer := by
  induction calls with
  | zero =>
      exact fun _ _ => ⟨[], (List.append_nil _).symm, .nil fun _ => rfl, .inr ⟨rfl, rfl⟩⟩
  | succ calls ih =>
      intro w hw
      rw [run_drainFrame_succ]
      rcases call_outcome .complete [] room w with
        ⟨error, v, hcall, hcalls⟩ | ⟨step, v, hcall, hlimit, hcalls⟩
      · rw [hcall]
        exact ⟨_, hcalls, .of_failed_call _ nofun, .inl ⟨_, _, rfl⟩⟩
      · rw [hcall]
        apply Reached.since hcalls
        rcases append_outcome step.output v with
          ⟨hloud, error, u, happend, hsame⟩ | ⟨u, happend, hlimit', hsame⟩
        · simp only [happend]
          exact ⟨[], hsame, .cons_complete (.silent nofun) (fun h => absurd h hloud)
            (by omega), .inl ⟨_, _, rfl⟩⟩
        · simp only [happend]
          by_cases hdone : step.remaining = 0
          · simp only [if_pos hdone]
            exact ⟨hlimit'.trans (hlimit.trans hw), [], hsame,
              .cons_complete (.silent nofun) (fun _ => hdone) (by omega),
              .inl ⟨_, _, rfl⟩⟩
          · simp only [if_neg hdone]
            apply Reached.since hsame
            refine (ih u (hlimit'.trans (hlimit.trans hw))).mono fun later answer hlater => ?_
            exact ⟨hlater.1.cons_resumed hlater.2 hdone, .inl ⟨_, _, rfl⟩⟩

theorem makes_endFrame : Makes limit (endFrame : Action ε σ Unit) (Drives limit 1) := by
  show Makes limit _ (Drives limit (0 + 1))
  refine (makes_outputBuffer _).bind fun room => ?_
  apply makes_get_bind
  rintro w rfl
  have hdrain : Makes w.callLimit (drainFrame room w.callLimit : Action ε σ Unit)
      (Drives w.callLimit 1) := fun v hv =>
    (makes_drainFrame room w.callLimit v hv).mono fun _ _ hcalls => hcalls.1
  exact hdrain.bind fun _ => makes_recordFrame

theorem makes_endFrameIf (p : Prop) [Decidable p] :
    Makes limit (endFrameIf p : Action ε σ Unit) (Drives limit 1) := by
  apply Makes.ite
  · exact makes_endFrame
  · exact makes_pure _

theorem makes_accept (data : Bytes) :
    Makes limit (accept data : Action ε σ Unit) (Drives limit (data.length + 2)) := by
  have htake : Makes limit (takeIn data : Action ε σ Unit)
      (Drives limit (0 + (data.length + 1))) := by
    refine (makes_outputBuffer _).bind fun room => ?_
    apply makes_get_bind
    rintro w rfl
    have hconsume : Makes w.callLimit (consume room w.callLimit data : Action ε σ Unit)
        (Drives w.callLimit (data.length + 1)) := makes_consume room w.callLimit data
    have hcredit : Makes w.callLimit (modify fun w => w.credit data : Action ε σ PUnit)
        (Drives w.callLimit 0) := makes_modify fun _ => ⟨rfl, rfl⟩
    exact hconsume.bind fun _ => hcredit
  intro w hw
  have hboth : Makes limit (endFrameIf (w.minFrameSize ≤ w.pendingUncompressed) >>= fun _ =>
      takeIn data : Action ε σ Unit) (Drives limit (1 + (0 + (data.length + 1)))) :=
    (makes_endFrameIf _).bind fun _ => htake
  rw [show 1 + (0 + (data.length + 1)) = data.length + 2 by omega] at hboth
  rw [run_accept]
  exact hboth w hw

omit [Engine ε] in
/-- The table is written to the end, or the buffer or the sink is missing; the engine has no
part in it. -/
theorem writeTable_outcome {size : Nat} (hw : w.Unwritten size) (hsize : 0 < size) :
    (∃ error v, writeTable w = .error (.failed error) v ∧ v.journal.calls = w.journal.calls) ∨
      ∃ v, writeTable w = .ok () v ∧ v.journal.calls = w.journal.calls := by
  obtain ⟨hhandout, rfl⟩ := hw
  have hkept : Ensures (fun v : Writer ε σ => v.journal.calls = w.journal.calls) writeTable
      (fun _ v => v.journal.calls = w.journal.calls) fun v => v.journal.calls = w.journal.calls := by
    refine journal_writeTable (R := fun j => j.calls = w.journal.calls) ?_ ?_
    · intro j data accepted hj
      simp [hj, Event.call?]
    · intro j record hj
      simp [hj, Event.call?]
  by_cases hreserve : Reservation.reserve w.footerChunkSize = .ok ()
  · obtain ⟨chunks, events, -, ⟨v, hrun, -⟩ | ⟨error, v, hrun, -⟩⟩ :=
      writeTable_offers hsize hreserve hhandout
    · exact .inr ⟨v, hrun, hkept.of_eq_ok rfl hrun⟩
    · exact .inl ⟨_, v, hrun, hkept.of_eq_error rfl hrun⟩
  · obtain ⟨error, hrun⟩ := writeTable_of_unreservable hreserve
    exact .inl ⟨error, w, hrun, rfl⟩

end Action

end SeekableArchive
