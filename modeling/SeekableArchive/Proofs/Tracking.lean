import SeekableArchive.Proofs.Contents
import SeekableArchive.Proofs.Following
import SeekableArchive.Proofs.Poisoning

/-!
# Writers with one planned fault

A tracked writer runs beside a plain one.  Its engine and its sink follow a plan with at most
one fault in it, and count their calls.  The tracked writer does what the plain one does up to
the call at which the fault strikes; to the plain writer that is a call like any other.
-/

namespace SeekableArchive

/-- The calls that can be made to fail one by one. -/
inductive FaultKind
  | failedWrite
  | shortWrite
  | failedCall
deriving DecidableEq

namespace Event

def isCall : Event → Bool
  | engineCalled .. => true
  | _ => false

def isOffer : Event → Bool
  | sinkOffered data _ => data ≠ []
  | _ => false

end Event

namespace FaultKind

/-- The events among which the place of the fault is counted, from one. -/
def counts : FaultKind → Event → Bool
  | failedWrite | shortWrite => Event.isOffer
  | failedCall => Event.isCall

/-- A fault without a place is none. -/
def engineFaults (place : Option Nat) : FaultKind → EngineFaults
  | failedWrite | shortWrite => {}
  | failedCall => { failCall := place }

def sinkFaults (place : Option Nat) : FaultKind → SinkFaults
  | failedWrite => { failWrite := place }
  | shortWrite => { shortWrite := place }
  | failedCall => {}

/-- The fault strikes where a run without it has this event: the error that is injected, and
what the sink still accepts. -/
inductive Strikes : FaultKind → Event → ArchiveError → Bytes → Prop
  | failedWrite {chunk : Bytes} (hchunk : chunk ≠ []) :
      Strikes .failedWrite (.sinkOffered chunk (some chunk.length))
        (.sink (injectedFault "write")) []
  | shortWrite {chunk : Bytes} (hchunk : chunk ≠ []) :
      Strikes .shortWrite (.sinkOffered chunk (some chunk.length))
        (.sink (.shortWrite chunk.length (chunk.length / 2))) (chunk.take (chunk.length / 2))
  | failedCall {mode : FlushMode} {input : Bytes} {room : Nat} {answer : Option EngineStep} :
      Strikes .failedCall (.engineCalled mode input room answer)
        (.engine "compress" "injected engine failure") []

variable {kind : FaultKind} {event : Event} {error : ArchiveError} {salvaged : Bytes}

theorem Strikes.counts (h : Strikes kind event error salvaged) : kind.counts event = true := by
  cases h with
  | failedWrite hchunk | shortWrite hchunk => exact decide_eq_true hchunk
  | failedCall => rfl

theorem Strikes.isPrefix (h : Strikes kind event error salvaged) : salvaged <+: event.stored := by
  cases h with
  | failedWrite | failedCall => exact List.nil_prefix
  | @shortWrite chunk =>
      rw [Event.stored, List.take_length]
      exact List.take_prefix _ _

/-- What a sink is offered is never accepted as a whole. -/
theorem Strikes.length_lt (h : Strikes kind event error salvaged) (hkind : kind ≠ .failedCall) :
    salvaged.length < event.stored.length := by
  cases h with
  | failedWrite hchunk =>
      rw [Event.stored, List.take_length]
      exact List.length_pos_iff.mpr hchunk
  | @shortWrite chunk hchunk =>
      have hpos := List.length_pos_iff.mpr hchunk
      rw [Event.stored, List.take_length, List.length_take]
      omega
  | failedCall => exact absurd rfl hkind

end FaultKind

namespace Journal

def count (j : Journal) (sort : Event → Bool) : Nat :=
  j.events.countP sort

@[simp] theorem count_note (j : Journal) (sort : Event → Bool) (event : Event) :
    (j.note event).count sort = j.count sort + if sort event then 1 else 0 := by
  simp [count, List.countP_append, List.countP_singleton]

theorem count_le_of_isPrefix {j j' : Journal} (h : j.events <+: j'.events)
    (sort : Event → Bool) : j.count sort ≤ j'.count sort :=
  h.sublist.countP_le

end Journal

/-! ## The call at which a fault strikes -/

namespace FaultyEngine

variable {ε : Type} [Engine ε]

theorem run_compress (kind : FaultKind) (place : Option Nat) (mode : FlushMode) (input : Bytes)
    (room calls : Nat) (e : ε) :
    Engine.compress mode input room (mk e (kind.engineFaults place) calls) =
      if kind = .failedCall ∧ place = some (calls + 1) then
        .error (.engine "compress" "injected engine failure")
          (mk e (kind.engineFaults place) (calls + 1))
      else inside (Engine.compress mode input room) (mk e (kind.engineFaults place) (calls + 1)) := by
  show compress mode input room _ = _
  cases kind with
  | failedWrite | shortWrite => rfl
  | failedCall =>
      by_cases hplace : place = some (calls + 1)
      · rw [if_pos ⟨rfl, hplace⟩]
        show (if place = some (calls + 1) then _ else _ :
          EStateM ArchiveError (FaultyEngine ε) EngineStep) _ = _
        rw [if_pos hplace]
        rfl
      · rw [if_neg fun h => hplace h.2]
        show (if place = some (calls + 1) then _ else _ :
          EStateM ArchiveError (FaultyEngine ε) EngineStep) _ = _
        rw [if_neg hplace]
        rfl

end FaultyEngine

namespace FaultySink

/-- A sink in memory takes the whole of what gets through. -/
theorem run_write_memory {s : MemorySink} (hopen : s.isClosed = false) (kind : FaultKind)
    (place : Option Nat) {chunk : Bytes} (hchunk : chunk ≠ []) (writes : Nat) :
    Sink.write chunk (mk s (kind.sinkFaults place) writes) =
      if kind = .failedWrite ∧ place = some (writes + 1) then
        .error (injectedFault "write") (mk s (kind.sinkFaults place) (writes + 1))
      else if kind = .shortWrite ∧ place = some (writes + 1) then
        .ok (chunk.length / 2)
          (mk (s.append (chunk.take (chunk.length / 2))) (kind.sinkFaults place) (writes + 1))
      else .ok chunk.length (mk (s.append chunk) (kind.sinkFaults place) (writes + 1)) := by
  have hinside (front : Bytes) (f : FaultySink MemorySink) (hf : f.sink = s) :
      inside (Sink.write front) f = .ok front.length { f with sink := s.append front } := by
    simp [inside, Sink.write, hf, hopen]
  have hhalf : (chunk.take (chunk.length / 2)).length = chunk.length / 2 := by
    rw [List.length_take]
    omega
  rw [run_write]
  cases kind with
  | failedWrite =>
      by_cases hplace : place = some (writes + 1)
      · simp [passed, counted, hchunk, FaultKind.sinkFaults, hplace]
      · simp [passed, counted, hchunk, FaultKind.sinkFaults, hplace, hinside]
  | shortWrite =>
      by_cases hplace : place = some (writes + 1)
      · simp [passed, counted, hchunk, FaultKind.sinkFaults, hplace, hinside, hhalf]
      · simp [passed, counted, hchunk, FaultKind.sinkFaults, hplace, hinside]
  | failedCall => simp [passed, counted, hchunk, FaultKind.sinkFaults, hinside]

end FaultySink

/-! ## The tracked writer -/

namespace Writer

variable {ε : Type} (kind : FaultKind) (place : Option Nat)

/-- The writer over the planned engine and sink, which have counted the calls in its journal. -/
def tracked (w : Writer ε MemorySink) : Writer (FaultyEngine ε) (FaultySink MemorySink) where
  sink := ⟨w.sink, kind.sinkFaults place, w.journal.count Event.isOffer⟩
  frameLog := w.frameLog
  engine := ⟨w.engine, kind.engineFaults place, w.journal.count Event.isCall⟩
  hasher := w.hasher
  pendingUncompressed := w.pendingUncompressed
  pendingCompressed := w.pendingCompressed
  bytesIn := w.bytesIn
  bytesOut := w.bytesOut
  status := w.status
  minFrameSize := w.minFrameSize
  footerChunkSize := w.footerChunkSize
  callLimit := w.callLimit
  journal := w.journal

/-- The fault is still to come. -/
def Spared (j : Journal) : Prop :=
  ∀ n, place = some n → j.count kind.counts < n

/-- The plain writer holds what has been stored, and its fault is still to come. -/
structure Tracks (w : Writer ε MemorySink)
    (w' : Writer (FaultyEngine ε) (FaultySink MemorySink)) : Prop where
  eq : w' = w.tracked kind place
  spared : Spared kind place w.journal
  mirrors : w.Mirrors MemorySink.accepting

/-- The fault has struck: after these events of the plain writer, the last of which has not
happened to the tracked one. -/
def Struck (error : ArchiveError) (w' : Writer (FaultyEngine ε) (FaultySink MemorySink))
    (events : List Event) : Prop :=
  ∃ (past : Journal) (event : Event) (salvaged : Bytes), events = (past.note event).events ∧
    place = some (past.count kind.counts + 1) ∧ kind.Strikes event error salvaged ∧
    w'.sink.sink.contents = past.stored ++ salvaged

variable {kind place} {j : Journal} {event : Event}

theorem Spared.note (h : Spared kind place j)
    (hplace : kind.counts event = true → place ≠ some (j.count kind.counts + 1)) :
    Spared kind place (j.note event) := by
  intro n hn
  have hbefore := h n hn
  rw [Journal.count_note]
  by_cases hcounts : kind.counts event = true
  · have hnext := hplace hcounts
    rw [hn, ne_eq, Option.some.injEq] at hnext
    rw [if_pos hcounts]
    omega
  · rwa [if_neg hcounts]

theorem Spared.quiet (h : Spared kind place j) (hcall : event.isCall = false)
    (hoffer : event.isOffer = false) : Spared kind place (j.note event) := by
  apply h.note
  cases kind <;> simp [FaultKind.counts, hcall, hoffer]

theorem Spared.release (h : Spared kind place j) :
    Spared kind place ((j.note .sinkReleased).note .engineReleased) := by
  have hsink : Spared kind place (j.note .sinkReleased) := h.quiet rfl rfl
  exact hsink.quiet rfl rfl

theorem tracked_note (w : Writer ε MemorySink) (hcall : event.isCall = false)
    (hoffer : event.isOffer = false) :
    (w.note event).tracked kind place = (w.tracked kind place).note event := by
  simp [tracked, note, hcall, hoffer]

theorem Tracks.noted {w : Writer ε MemorySink}
    {w' : Writer (FaultyEngine ε) (FaultySink MemorySink)} (h : Tracks kind place w w')
    (record : LogRecord) :
    Tracks kind place (w.note (.logged record)) (w'.note (.logged record)) where
  eq := by rw [h.eq, tracked_note w rfl rfl]
  spared := h.spared.quiet rfl rfl
  mirrors := h.mirrors.note rfl

theorem Struck.le_count {n : Nat} {error : ArchiveError}
    {w' : Writer (FaultyEngine ε) (FaultySink MemorySink)} {events : List Event}
    (h : Struck kind (some n) error w' events) (hpassed : events <+: j.events) :
    n ≤ j.count kind.counts := by
  obtain ⟨past, event, salvaged, rfl, hplace, hstrikes, -⟩ := h
  have hcount := Journal.count_le_of_isPrefix hpassed kind.counts
  rw [Journal.count_note, if_pos hstrikes.counts] at hcount
  cases hplace
  exact hcount

theorem not_struck {error : ArchiveError}
    {w' : Writer (FaultyEngine ε) (FaultySink MemorySink)} {events : List Event} :
    ¬ Struck kind none error w' events := by
  rintro ⟨past, event, salvaged, -, hplace, -⟩
  cases hplace

end Writer

namespace Action

open Writer (Tracks Struck Spared)

variable {ε : Type} {kind : FaultKind} {place : Option Nat}

theorem tracks_offer (chunk : Bytes) :
    Follows (Tracks kind place : Writer ε MemorySink → _ → Prop) (Struck kind place)
      (onSink (Sink.writeFully chunk)) (onSink (Sink.writeFully chunk)) where
  leads := extends_offer chunk
  run {w _} hw := by
    by_cases hchunk : chunk = []
    · rw [hchunk, run_offer_nil, run_offer_nil]
      exact .inl ⟨_, _, _, rfl, rfl, hw⟩
    obtain ⟨rfl, hspared, hopen, hcontents⟩ := hw
    -- The plain sink takes the chunk; what the planned one does depends on its count alone.
    have hplain : onSink (Sink.writeFully chunk) w = .ok () { w with
        sink := w.sink.append chunk
        journal := w.journal.note (.sinkOffered chunk (some chunk.length)) } := by
      rw [run_offer hchunk]
      simp [Sink.write, show w.sink.isClosed = false from hopen]
    have hpassed := leaves_of_eq_ok hplain
    have hmirrors := (mirrors_offer chunk).of_eq_ok ⟨hopen, hcontents⟩ hplain
    have hwrite := FaultySink.run_write_memory hopen kind place hchunk
      (w.journal.count Event.isOffer)
    change Sink.write chunk (w.tracked kind place).sink = _ at hwrite
    rw [hplain, hpassed, run_offer hchunk, hwrite]
    by_cases hfails : kind = .failedWrite ∧ place = some (w.journal.count Event.isOffer + 1)
    · obtain ⟨rfl, rfl⟩ := hfails
      simp only [and_self, if_true]
      exact .inr (.inr ⟨_, _, _, rfl, ⟨w.journal, _, [], rfl, rfl, .failedWrite hchunk,
        hcontents.trans (List.append_nil _).symm⟩, List.prefix_rfl⟩)
    by_cases hcuts : kind = .shortWrite ∧ place = some (w.journal.count Event.isOffer + 1)
    · obtain ⟨rfl, rfl⟩ := hcuts
      have hshort : chunk.length / 2 < chunk.length :=
        Nat.div_lt_self (List.length_pos_iff.mpr hchunk) Nat.one_lt_two
      simp only [reduceCtorEq, false_and, if_false, and_self, if_true, if_pos hshort]
      exact .inr (.inr ⟨_, _, _, rfl, ⟨w.journal, _, _, rfl, rfl, .shortWrite hchunk,
        (w.sink.contents_append _).trans (congrArg (· ++ _) hcontents)⟩, List.prefix_rfl⟩)
    · simp only [if_neg hfails, if_neg hcuts, Nat.lt_irrefl, if_false]
      refine .inl ⟨(), _, _, rfl, rfl, ?_, ?_, hmirrors⟩
      · simp [Writer.tracked, Event.isCall, Event.isOffer, hchunk]
      · apply hspared.note
        rintro hcounts hplace
        cases kind with
        | failedWrite => exact hfails ⟨rfl, hplace⟩
        | shortWrite => exact hcuts ⟨rfl, hplace⟩
        | failedCall => cases hcounts

theorem tracks_append (chunk : Bytes) :
    Follows (Tracks kind place : Writer ε MemorySink → _ → Prop) (Struck kind place)
      (append chunk) (append chunk) := by
  apply (tracks_offer chunk).bind
  intro _
  apply follows_modify
  · exact fun _ => List.prefix_rfl
  · rintro w _ ⟨rfl, hspared, hmirrors⟩
    exact ⟨rfl, hspared, hmirrors⟩

theorem tracks_recordFrame :
    Follows (Tracks kind place : Writer ε MemorySink → _ → Prop) (Struck kind place) recordFrame
      recordFrame where
  leads := extends_recordFrame
  run {w _} hw := by
    obtain ⟨rfl, hspared, hmirrors⟩ := hw
    have hchecksum : frameChecksum (w.tracked kind place) = frameChecksum w := rfl
    rw [run_recordFrame, run_recordFrame, hchecksum]
    dsimp only [Writer.tracked]
    cases w.frameLog.record w.pendingCompressed w.pendingUncompressed (frameChecksum w) with
    | error fault => exact .inr (.inl ⟨_, _, _, rfl, rfl, rfl, hspared, hmirrors⟩)
    | ok frameLog =>
        refine .inl ⟨(), _, _, rfl, rfl, ?_, hspared.quiet rfl rfl, hmirrors.note rfl⟩
        simp [Writer.tracked, Writer.recorded, Writer.frames, Event.isCall, Event.isOffer]

variable [Engine ε]

theorem tracks_compress (mode : FlushMode) (input : Bytes) (room : Nat) :
    Follows (Tracks kind place : Writer ε MemorySink → _ → Prop) (Struck kind place)
      (onEngine (Recorded.compress mode input room))
      (onEngine (Recorded.compress mode input room)) where
  leads := extends_compress mode input room
  run {w _} hw := by
    obtain ⟨rfl, hspared, hmirrors⟩ := hw
    have hcall := FaultyEngine.run_compress kind place mode input room
      (w.journal.count Event.isCall) w.engine
    change Engine.compress mode input room (w.tracked kind place).engine = _ at hcall
    have hnoted (answer : Option EngineStep) :
        (w.note (.engineCalled mode input room answer)).Mirrors MemorySink.accepting :=
      hmirrors.note rfl
    rw [leaves, run_compress, run_compress, hcall]
    by_cases hfails : kind = .failedCall ∧ place = some (w.journal.count Event.isCall + 1)
    · obtain ⟨rfl, rfl⟩ := hfails
      -- The planned engine fails before it is asked, whatever the plain one answers.
      have hstruck (answer : Option EngineStep) {v : Writer (FaultyEngine ε) (FaultySink MemorySink)}
          (hsink : v.sink.sink = w.sink) :
          Struck .failedCall (some (w.journal.count Event.isCall + 1))
            (.engine "compress" "injected engine failure") v
            (w.journal.note (.engineCalled mode input room answer)).events :=
        ⟨w.journal, _, [], rfl, rfl, .failedCall, by
          rw [hsink, List.append_nil]
          exact hmirrors.2⟩
      simp only [and_self, if_true]
      cases Engine.compress mode input room w.engine with
      | ok step e => exact .inr (.inr ⟨_, _, _, rfl, hstruck (some step) rfl, List.prefix_rfl⟩)
      | error error e => exact .inr (.inr ⟨_, _, _, rfl, hstruck none rfl, List.prefix_rfl⟩)
    · have hnext (answer : Option EngineStep) :
          Spared kind place (w.journal.note (.engineCalled mode input room answer)) := by
        apply hspared.note
        rintro hcounts hplace
        cases kind with
        | failedWrite | shortWrite => cases hcounts
        | failedCall => exact hfails ⟨rfl, hplace⟩
      simp only [if_neg hfails, FaultyEngine.inside]
      cases Engine.compress mode input room w.engine with
      | ok step e =>
          refine .inl ⟨step, _, _, rfl, rfl, ?_, hnext (some step), hnoted (some step)⟩
          simp [Writer.tracked, Event.isCall, Event.isOffer]
      | error error e =>
          refine .inr (.inl ⟨_, _, _, rfl, rfl, ?_, hnext none, hnoted none⟩)
          simp [Writer.tracked, Event.isCall, Event.isOffer]

theorem tracks_tableFollower :
    TableFollower (Tracks kind place : Writer ε MemorySink → _ → Prop) (Struck kind place) where
  room h := by rw [h.eq]; rfl
  limit h := by rw [h.eq]; rfl
  floor h := by rw [h.eq]; rfl
  pending h := by rw [h.eq]; rfl
  compress := tracks_compress
  append := tracks_append
  record := tracks_recordFrame
  credit data h := ⟨by rw [h.eq]; rfl, h.spared, h.mirrors⟩
  frameLog h := by rw [h.eq]; rfl
  chunk h := by rw [h.eq]; rfl
  handout frameLog h := ⟨by rw [h.eq]; rfl, h.spared, h.mirrors⟩
  offer := tracks_offer
  count size h := ⟨by rw [h.eq]; rfl, h.spared, h.mirrors⟩
  noted record h := h.noted record

end Action

namespace Writer

variable {ε : Type} [Engine ε] {kind : FaultKind} {place : Option Nat}

theorem tracks_companion :
    Companion (Tracks kind place : Writer ε MemorySink → _ → Prop) (Struck kind place) where
  toFollower := Action.tracks_tableFollower.toFollower
  status h := by rw [h.eq]; rfl
  poison error h := by
    have hnoted := h.noted (.writeFailed error)
    exact ⟨by rw [hnoted.eq]; rfl, hnoted.spared, hnoted.mirrors⟩
  hang h := ⟨by rw [h.eq]; rfl, h.spared, h.mirrors⟩

/-! ## Opening and closing -/

theorem configureAll_planned (settings : List Setting) (calls : Nat) (e : ε) (j : Journal) :
    configureAll settings ⟨FaultyEngine.mk e (kind.engineFaults place) calls, j⟩ =
      match configureAll settings ⟨e, j⟩ with
      | .ok u r => .ok u ⟨.mk r.resource (kind.engineFaults place) calls, r.journal⟩
      | .error error r =>
          .error error ⟨.mk r.resource (kind.engineFaults place) calls, r.journal⟩ := by
  induction settings generalizing e j with
  | nil => rfl
  | cons setting settings ih =>
      have hfirst : Engine.configure setting (FaultyEngine.mk e (kind.engineFaults place) calls) =
          FaultyEngine.inside (Engine.configure setting)
            (FaultyEngine.mk e (kind.engineFaults place) calls) := by
        cases kind <;> rfl
      simp only [configureAll, bind, EStateM.bind, Recorded.configure, hfirst, FaultyEngine.inside]
      cases Engine.configure setting e with
      | error error e' => rfl
      | ok u e' => exact ih e' _

theorem count_configureAll {settings : List Setting} {r r' : Recorded ε}
    (h : configureAll settings r = .ok () r') :
    r'.journal.count Event.isCall = r.journal.count Event.isCall ∧
      r'.journal.count Event.isOffer = r.journal.count Event.isOffer := by
  obtain ⟨-, hview⟩ := configureAll_eq_ok h
  exact ⟨hview (Journal.count · Event.isCall) fun _ _ => by simp [Event.isCall],
    hview (Journal.count · Event.isOffer) fun _ _ => by simp [Event.isOffer]⟩

/-- A plan without a fault in opening lets a tracked writer be opened like a plain one. -/
theorem openWith_tracked (kind : FaultKind) (place : Option Nat) (config : Config) (engine : ε)
    (limit : Nat) :
    openWith config (FaultyEngine.create (kind.engineFaults place) engine)
        (FaultySink.openOver (kind.sinkFaults place) {}) limit =
      (openWith config (.ok engine) (.ok {}) limit).map (tracked kind place) := by
  have hcreate : FaultyEngine.create (kind.engineFaults place) engine =
      .ok (.mk engine (kind.engineFaults place) 0) := by
    cases kind <;> rfl
  have hopen : FaultySink.openOver (kind.sinkFaults place) ({} : MemorySink) =
      .ok (.mk {} (kind.sinkFaults place) 0) := by
    cases kind <;> rfl
  rw [hcreate, hopen]
  unfold openWith
  cases config.validate with
  | error fault => rfl
  | ok u =>
      dsimp only
      rw [configureAll_planned]
      cases hset : configureAll config.settings ⟨engine, Journal.empty.note .engineCreated⟩ with
      | error error r => rfl
      | ok u r =>
          have hcalls : r.journal.count Event.isCall = 0 := (count_configureAll hset).1
          have hoffers : r.journal.count Event.isOffer = 0 := (count_configureAll hset).2
          simp [Except.map, tracked, hcalls, hoffers, Event.isCall, Event.isOffer]

theorem tracks_opened {config : Config} {engine : ε} {limit : Nat} {w : Writer ε MemorySink}
    (hplace : place ≠ some 0) (h : openWith config (.ok engine) (.ok {}) limit = .ok w) :
    Tracks kind place w (w.tracked kind place) := by
  have hvalid := Config.validate_eq_ok_iff.mpr (openWith_eq_ok h).1
  have hmirrors : w.Mirrors MemorySink.accepting := by
    obtain ⟨-, e, j, -, -, hstored, rfl⟩ := openWith_eq_ok h
    exact ⟨rfl, hstored.symm⟩
  refine ⟨rfl, fun n hn => ?_, hmirrors⟩
  suffices hnone : w.journal.count kind.counts = 0 by
    rw [hnone]
    exact Nat.pos_of_ne_zero fun hzero => hplace (hzero ▸ hn)
  cases hset : configureAll config.settings ⟨engine, Journal.empty.note .engineCreated⟩ with
  | error error r => simp [openWith, hvalid, hset] at h
  | ok u r =>
      have hcalls : r.journal.count Event.isCall = 0 := (count_configureAll hset).1
      have hoffers : r.journal.count Event.isOffer = 0 := (count_configureAll hset).2
      simp only [openWith, hvalid, hset] at h
      cases h
      cases kind with
      | failedWrite | shortWrite => simp [FaultKind.counts, hoffers, Event.isOffer]
      | failedCall => simp [FaultKind.counts, hcalls, Event.isCall]

omit [Engine ε] in
theorem tracked_release (w : Writer ε MemorySink) :
    w.release.tracked kind place = (w.tracked kind place).release := by
  simp [tracked, release, note, Event.isCall, Event.isOffer]

/-- Closing a usable writer goes the same way, or the tracked one stops at its fault. -/
theorem Tracks.close {w : Writer ε MemorySink}
    {w' : Writer (FaultyEngine ε) (FaultySink MemorySink)} (h : Tracks kind place w w')
    (husable : w.status = .usable) :
    w'.close = (w.close.1, w.close.2.tracked kind place) ∧ Spared kind place w.close.2.journal ∨
      ∃ error v' events, w'.close = (.error (.failed error), v'.release) ∧
        Struck kind place error v' events ∧ events <+: w.close.2.journal.events := by
  have husable' : w'.status = .usable := by
    rw [h.eq]
    exact husable
  rcases Action.tracks_tableFollower.complete.run h with ⟨u, v, v', hrun, hrun', hv⟩ |
    ⟨halt, v, v', hrun, hrun', hv⟩ | ⟨error, v', events, hrun', hstruck, hpassed⟩
  · have hclose : Sink.close v.sink = .ok () { v.sink with isClosed := true } := by
      simp [Sink.close, show v.sink.isClosed = false from hv.mirrors.1]
    have hclose' : Sink.close v'.sink =
        .ok () { v'.sink with sink := { v.sink with isClosed := true } } := by
      rw [hv.eq, FaultySink.run_close]
      cases kind <;> simp [tracked, FaultKind.sinkFaults, FaultySink.inside, hclose]
    have hclosed : Spared kind place (v.journal.note (.sinkClosed true)) :=
      hv.spared.quiet rfl rfl
    left
    simp only [Writer.close, husable, husable', hrun, hrun', Action.onSink, Recorded.close, hclose,
      hclose']
    refine ⟨?_, hclosed.release.quiet rfl rfl⟩
    rw [hv.eq]
    simp [tracked, release, note, frames, Event.isCall, Event.isOffer]
  · left
    simp only [Writer.close, husable, husable', hrun, hrun']
    cases halt with
    | failed error => exact ⟨by rw [hv.eq, tracked_release], hv.spared.release⟩
    | unfinished => exact ⟨by rw [hv.eq]; rfl, hv.spared⟩
  · right
    refine ⟨error, v', events, ?_, hstruck, hpassed.trans (leaves_complete_isPrefix husable)⟩
    simp only [Writer.close, husable', hrun']

end Writer
end SeekableArchive
