import SeekableArchive.Proofs.EagerEngine
import SeekableArchive.Proofs.Tracking

/-!
# Runs with one fault

A run with one fault is a clean run that is cut off at the call at which the fault strikes.
Up to the operation that makes this call the two runs cannot be told apart.  What the sink
holds in the end is what it had accepted by then, and never the whole archive, because the
table comes last.
-/

namespace SeekableArchive

namespace Action

variable {ε σ : Type} [Sink σ]

theorem uncalled_writeTable (calls : Nat) :
    Ensures (fun w : Writer ε σ => w.journal.count Event.isCall = calls) writeTable
      (fun _ w => w.journal.count Event.isCall = calls)
      fun w => w.journal.count Event.isCall = calls := by
  refine journal_writeTable (R := fun j => j.count Event.isCall = calls) ?_ ?_
  · intro j data accepted hj
    simp [hj, Event.isCall]
  · intro j record hj
    simp [hj, Event.isCall]

end Action

namespace CleanRun

variable {ε σ : Type} [Engine ε] [Sink σ] {config : Config} {engine : ε} {sink : σ} {limit : Nat}
  {writes : List Bytes} (run : CleanRun config engine sink limit writes)

/-- The writer of the run when all its frames have ended. -/
theorem exists_before_table : ∃ v : Writer ε σ, v.journal.events <+: run.closed.journal.events ∧
    v.journal.count Event.isCall = run.closed.journal.count Event.isCall ∧
    v.journal.stored.length < run.closed.journal.stored.length := by
  obtain ⟨hbalanced, -⟩ := run.balanced_written
  obtain ⟨-, u, s, hcomplete, -, -, hclosed⟩ := Writer.close_eq_ok run.closes
  rw [Action.run_complete, Action.bind_eq_ok_iff] at hcomplete
  obtain ⟨_, v, hend, htable⟩ := hcomplete
  have hv : v.Balanced := by
    rw [Action.endFrameIf_eq_ok_iff] at hend
    by_cases hopen : 0 < run.written.pendingUncompressed
    · rw [if_pos hopen] at hend
      exact (hbalanced.endFrame hend).1
    · rw [if_neg hopen] at hend
      exact hend ▸ hbalanced
  obtain ⟨hsealed, hflows⟩ := hv.writeTable htable
  refine ⟨v, ?_, ?_, ?_⟩
  · have hleads := Action.extends_writeTable v
    rw [Action.leaves_of_eq_ok htable] at hleads
    rw [hclosed]
    simp only [Journal.events_note, List.append_assoc]
    exact hleads.trans (List.prefix_append _ _)
  · have hcalls := (Action.uncalled_writeTable _).of_eq_ok rfl htable
    rw [hclosed]
    simp [hcalls, Event.isCall]
  · have hpos := u.frameLog.table.encodedSize_pos
    rw [hclosed]
    simp only [Journal.stored_note, Event.stored, List.append_nil]
    rw [hsealed.stored, hv.stored, hflows, List.length_append, SeekTable.length_encode]
    omega

/-- Something is stored after every call of the engine. -/
theorem stored_lt_of_call {past : Journal} {event : Event}
    (hpast : (past.note event).events <+: run.closed.journal.events)
    (hcall : event.isCall = true) :
    past.stored.length < run.closed.journal.stored.length := by
  obtain ⟨v, hv, hcalls, hstored⟩ := run.exists_before_table
  have hcount : (past.note event).count Event.isCall = past.count Event.isCall + 1 := by
    simp [hcall]
  have hbefore : past.events <+: (past.note event).events := Action.isPrefix_events_note past event
  suffices hearly : past.events <+: v.journal.events from
    (Journal.stored_isPrefix hearly).length_le.trans_lt hstored
  rcases List.prefix_or_prefix_of_prefix hpast hv with hearly | hlate
  · exact hbefore.trans hearly
  · rw [Journal.events_note, List.prefix_concat_iff] at hlate
    -- A call after the last frame end would be one too many.
    rcases hlate with hall | hlate
    · rw [hall]
      exact List.prefix_append _ _
    · have hfew := Journal.count_le_of_isPrefix hlate Event.isCall
      have hmany := Journal.count_le_of_isPrefix hpast Event.isCall
      omega

/-- What is left of the archive when the fault strikes. -/
theorem cut_isPrefix {kind : FaultKind} {past : Journal} {event : Event} {error : ArchiveError}
    {salvaged : Bytes} (hpast : (past.note event).events <+: run.closed.journal.events)
    (hstrikes : kind.Strikes event error salvaged) :
    past.stored ++ salvaged <+: run.closed.journal.stored ∧
      past.stored ++ salvaged ≠ run.closed.journal.stored := by
  have hfront : past.stored ++ salvaged <+: (past.note event).stored := by
    rw [Journal.stored_note]
    exact (List.prefix_append_right_inj _).mpr hstrikes.isPrefix
  have hnoted := Journal.stored_isPrefix hpast
  have hshort : (past.stored ++ salvaged).length < run.closed.journal.stored.length := by
    by_cases hkind : kind = .failedCall
    · subst hkind
      cases hstrikes
      rw [List.append_nil]
      exact run.stored_lt_of_call hpast rfl
    · have hcut := hstrikes.length_lt hkind
      have hall := hnoted.length_le
      rw [Journal.stored_note, List.length_append] at hall
      rw [List.length_append]
      omega
  exact ⟨hfront.trans hnoted, fun hall => absurd (congrArg List.length hall) hshort.ne⟩

end CleanRun

namespace Writer

section Agree

variable {ε ε' ε'' σ σ' σ'' : Type} [Engine ε] [Engine ε'] [Engine ε''] [Sink σ] [Sink σ'] [Sink σ'']
  {w : Writer ε σ} {w' : Writer ε' σ'} {w'' : Writer ε'' σ''} {writes : List Bytes}

/-- The writers answer the writes alike and have the same statistics before and after each. -/
def Agree (w : Writer ε σ) (w' : Writer ε' σ') (writes : List Bytes) : Prop :=
  ∀ front, front <+: writes → (w.writeAll front).1 = (w'.writeAll front).1 ∧
    (w.writeAll front).2.stats = (w'.writeAll front).2.stats

theorem Agree.symm (h : Agree w w' writes) : Agree w' w writes :=
  fun front hfront => ⟨(h front hfront).1.symm, (h front hfront).2.symm⟩

theorem Agree.trans (h : Agree w w' writes) (h' : Agree w' w'' writes) : Agree w w'' writes :=
  fun front hfront => ⟨(h front hfront).1.trans (h' front hfront).1,
    (h front hfront).2.trans (h' front hfront).2⟩

theorem Agree.front {before : List Bytes} (h : Agree w w' writes) (hbefore : before <+: writes) :
    Agree w w' before :=
  fun front hfront => h front (hfront.trans hbefore)

/-- The second writer goes on like the first one until the operation in which the first one
makes the `n`-th of the calls that the fault counts.  That operation fails, and what follows
is turned away. -/
inductive CutOff (kind : FaultKind) (n : Nat) (w : Writer ε σ) (w' : Writer ε' σ')
    (writes : List Bytes) (error : ArchiveError) : Prop
  | write {before after : List Bytes} {data : Bytes} (hwrites : writes = before ++ data :: after)
      (hbefore : Agree w w' before)
      (huncalled : (w.writeAll before).2.journal.count kind.counts < n)
      (hcalled : n ≤ (w.writeAll (before ++ [data])).2.journal.count kind.counts)
      (hanswers : (w'.writeAll writes).1 = List.replicate before.length (.ok ()) ++
        .error (.failed error) :: List.replicate after.length (.error (.failed .poisoned)))
      (hclose : (w'.writeAll writes).2.close.1 = .error (.failed .poisoned))
  | close (hbefore : Agree w w' writes)
      (huncalled : (w.writeAll writes).2.journal.count kind.counts < n)
      (hclose : (w'.writeAll writes).2.close.1 = .error (.failed error))

/-- The first writer may be replaced by one that makes the same calls. -/
theorem CutOff.of_agree {kind : FaultKind} {n : Nat} {error : ArchiveError}
    (h : CutOff kind n w w' writes error) (hagree : Agree w w'' writes)
    (hsame : ∀ front, front <+: writes →
      (w''.writeAll front).2.journal = (w.writeAll front).2.journal) :
    CutOff kind n w'' w' writes error := by
  cases h with
  | @write before after data hwrites hbefore huncalled hcalled hanswers hclose =>
      have hfront : before <+: writes := hwrites ▸ List.prefix_append _ _
      have hone : before ++ [data] <+: writes := ⟨after, by simp [hwrites]⟩
      refine .write hwrites ((hagree.front hfront).symm.trans hbefore) ?_ ?_ hanswers hclose
      · rwa [hsame before hfront]
      · rwa [hsame _ hone]
  | close hbefore huncalled hclose =>
      refine .close (hagree.symm.trans hbefore) ?_ hclose
      rwa [hsame writes List.prefix_rfl]

end Agree

variable {ε : Type} [Engine ε] {config : Config} {engine : ε} {limit : Nat}
  {writes : List Bytes}

open Companion (InStep)

theorem agree_of_inStep {kind : FaultKind} {place : Option Nat} {w : Writer ε MemorySink}
    {w' : Writer (FaultyEngine ε) (FaultySink MemorySink)}
    (h : InStep (Tracks kind place) w w' writes) : Agree w w' writes := by
  intro front hfront
  obtain ⟨hanswers, htracks⟩ := h front hfront
  refine ⟨hanswers, ?_⟩
  rw [htracks.eq]
  rfl

end Writer

namespace CleanRun

open Writer
open Writer.Companion (InStep)

variable {ε : Type} [Engine ε] {config : Config} {engine : ε} {limit : Nat}
  {writes : List Bytes}

/-- A run that tracks its calls is the same as a plain one if no fault is planned. -/
theorem exists_plain (kind : FaultKind)
    (clean : CleanRun config (⟨engine, {}, 0⟩ : FaultyEngine ε)
      (⟨{}, {}, 0⟩ : FaultySink MemorySink) limit writes) :
    ∃ plain : CleanRun config engine ({} : MemorySink) limit writes,
      InStep (Tracks kind none) plain.opened clean.opened writes ∧
        plain.summary = clean.summary ∧ clean.closed = plain.closed.tracked kind none := by
  have hcreate : FaultyEngine.create (kind.engineFaults none) engine = .ok ⟨engine, {}, 0⟩ := by
    cases kind <;> rfl
  have hsink : FaultySink.openOver (kind.sinkFaults none) ({} : MemorySink) = .ok ⟨{}, {}, 0⟩ := by
    cases kind <;> rfl
  have hopens := openWith_tracked kind none config engine limit
  rw [hcreate, hsink, clean.opens] at hopens
  cases hplain : openWith config (.ok engine) (.ok ({} : MemorySink)) limit with
  | error failure => simp [hplain, Except.map] at hopens
  | ok opened =>
      rw [hplain] at hopens
      have hopened : clean.opened = opened.tracked kind none := Except.ok.inj hopens
      have htracks : Tracks kind none opened clean.opened :=
        hopened ▸ tracks_opened (Option.some_ne_none 0).symm hplain
      rcases tracks_companion.writeAll htracks writes with hstep |
        ⟨before, data, after, error, v', events, -, -, -, hstruck, -⟩
      rotate_left
      · exact absurd hstruck not_struck
      obtain ⟨hanswers, hwritten⟩ := hstep writes List.prefix_rfl
      have haccepts := clean.accepts
      rw [Accepts] at haccepts
      rw [haccepts] at hanswers hwritten
      have husable : (opened.writeAll writes).2.status = .usable :=
        (tracks_companion.status hwritten).trans clean.balanced_written.1.usable
      rcases hwritten.close husable with ⟨hclose, -⟩ | ⟨error, v', events, -, hstruck, -⟩
      rotate_left
      · exact absurd hstruck not_struck
      rw [clean.closes] at hclose
      obtain ⟨hanswer, hclosed⟩ := Prod.mk.inj hclose
      exact ⟨.ofAnswers clean.summary hplain hanswers hanswer.symm, hstep, rfl, hclosed⟩

section Plain

variable (plain : CleanRun config engine ({} : MemorySink) limit writes) {kind : FaultKind}
  {n : Nat} {w' v' : Writer (FaultyEngine ε) (FaultySink MemorySink)} {error : ArchiveError}
  {events : List Event}

theorem writeAll_opened : plain.opened.writeAll writes =
    (List.replicate writes.length (.ok ()), plain.written) :=
  plain.accepts

theorem isPrefix_events_closed :
    plain.written.journal.events <+: plain.closed.journal.events := by
  have husable := plain.balanced_written.1.usable
  have hclosing := leaves_complete_isPrefix husable
  rw [plain.closes] at hclosing
  exact (Action.extends_complete plain.written).trans hclosing

theorem cutOff_write {before after : List Bytes} {data : Bytes}
    (hwrites : writes = before ++ data :: after)
    (hbefore : InStep (Tracks kind (some n)) plain.opened w' before)
    (hfails : (w'.writeAll before).2.write data = (.error (.failed error),
      { v'.note (.logged (.writeFailed error)) with status := .poisoned }))
    (hstruck : Struck kind (some n) error v' events)
    (hpassed : events <+: ((plain.opened.writeAll before).2.write data).2.journal.events) :
    CutOff kind n plain.opened w' writes error ∧ events <+: plain.closed.journal.events ∧
      (w'.writeAll writes).2.close.2.sink = v'.sink := by
  obtain ⟨poisoned, hpoisoned⟩ : ∃ poisoned, poisoned =
      { v'.note (.logged (.writeFailed error)) with status := .poisoned } := ⟨_, rfl⟩
  have hstatus : poisoned.status = .poisoned := by rw [hpoisoned]
  rw [← hpoisoned] at hfails
  have hone : (plain.opened.writeAll (before ++ [data])).2 =
      ((plain.opened.writeAll before).2.write data).2 := by
    rw [writeAll_append]
    rfl
  rw [← hone] at hpassed
  have hwritten : ((plain.opened.writeAll (before ++ [data])).2.writeAll after).2 =
      plain.written := by
    have hsplit : before ++ [data] ++ after = writes := by simp [hwrites]
    have hall := writeAll_append plain.opened (before ++ [data]) after
    rw [hsplit, plain.writeAll_opened] at hall
    exact (Prod.mk.inj hall).2.symm
  have hlater := isPrefix_events_writeAll (plain.opened.writeAll (before ++ [data])).2 after
  rw [hwritten] at hlater
  obtain ⟨v, haccepts, -⟩ := plain.balanced_between hwrites
  obtain ⟨hanswers, htracks⟩ := hbefore before List.prefix_rfl
  -- The write that fails poisons the writer, and all that follows is turned away.
  have hall : w'.writeAll writes = (List.replicate before.length (.ok ()) ++
      .error (.failed error) :: List.replicate after.length (.error (.failed .poisoned)),
      poisoned) := by
    rw [haccepts] at hanswers
    rw [hwrites, writeAll_append, writeAll, hfails, ← hanswers]
    simp only [writeAll_of_poisoned hstatus]
  obtain ⟨journal, hclose, -⟩ := close_of_poisoned hstatus
  refine ⟨.write hwrites (agree_of_inStep hbefore) (htracks.spared n rfl)
    (hstruck.le_count hpassed) ?_ ?_, (hpassed.trans hlater).trans plain.isPrefix_events_closed, ?_⟩
  · rw [hall]
  · rw [hall, hclose]
  · rw [hall, hclose, hpoisoned]
    rfl

theorem tracked_run {w' : Writer (FaultyEngine ε) (FaultySink MemorySink)}
    (htracks : Tracks kind (some n) plain.opened w') :
    (InStep (Tracks kind (some n)) plain.opened w' writes ∧
        (w'.writeAll writes).2.close =
          (.ok plain.summary, plain.closed.tracked kind (some n)) ∧
        plain.closed.journal.count kind.counts < n) ∨
      ∃ (error : ArchiveError) (v' : Writer (FaultyEngine ε) (FaultySink MemorySink))
          (events : List Event), CutOff kind n plain.opened w' writes error ∧
        Struck kind (some n) error v' events ∧ events <+: plain.closed.journal.events ∧
        (w'.writeAll writes).2.close.2.sink = v'.sink := by
  rcases tracks_companion.writeAll htracks writes with hstep |
    ⟨before, data, after, error, v', events, hwrites, hbefore, hfails, hstruck, hpassed⟩
  · have hlast := (hstep writes List.prefix_rfl).2
    have hagree := agree_of_inStep hstep
    have hspared := hlast.spared n rfl
    rw [plain.writeAll_opened] at hlast
    rcases hlast.close plain.balanced_written.1.usable with ⟨hclose, hfew⟩ |
      ⟨error, v', events, hclose, hstruck, hpassed⟩
    · rw [plain.closes] at hclose hfew
      exact .inl ⟨hstep, hclose, hfew n rfl⟩
    · rw [plain.closes] at hpassed
      refine .inr ⟨error, v', events, .close hagree hspared ?_, hstruck, hpassed, ?_⟩
      · rw [hclose]
      · rw [hclose]
        rfl
  · obtain ⟨hcut, hpassed', hsink⟩ := plain.cutOff_write hwrites hbefore hfails hstruck hpassed
    exact .inr ⟨error, v', events, hcut, hstruck, hpassed', hsink⟩

end Plain

/-- A run with one fault is a clean run that is cut off.  If the clean run makes too few calls
for the fault to strike, the answers, the statistics and the archive are the same, as they are
without anything planned.  Otherwise the operation that makes the `n`-th call fails with the
injected error, and the sink is left with what it had accepted before, and with the first half
of the chunk in hand if the fault is a short write: the front of the archive, and not all of
it. -/
theorem faulty_run_is_cut_off (kind : FaultKind) {n : Nat} (hplace : 1 ≤ n)
    (clean : CleanRun config (⟨engine, {}, 0⟩ : FaultyEngine ε)
      (⟨{}, {}, 0⟩ : FaultySink MemorySink) limit writes) :
    ∃ faulty : Writer (FaultyEngine ε) (FaultySink MemorySink),
      openWith config (FaultyEngine.create (kind.engineFaults (some n)) engine)
        (FaultySink.openOver (kind.sinkFaults (some n)) {}) limit = .ok faulty ∧
      let closing := (faulty.writeAll writes).2.close
      let archive := clean.closed.sink.sink.contents
      (clean.closed.journal.count kind.counts < n →
        Agree clean.opened faulty writes ∧ closing.1 = .ok clean.summary ∧
          closing.2.sink.sink.contents = archive ∧
          ∃ plain : CleanRun config engine ({} : MemorySink) limit writes,
            Agree clean.opened plain.opened writes ∧ plain.summary = clean.summary ∧
              plain.closed.sink.contents = archive) ∧
      (n ≤ clean.closed.journal.count kind.counts →
        ∃ (past : Journal) (event : Event) (rest : List Event) (error : ArchiveError)
          (salvaged : Bytes),
          clean.closed.journal.events = past.events ++ event :: rest ∧
          past.count kind.counts + 1 = n ∧ kind.Strikes event error salvaged ∧
          CutOff kind n clean.opened faulty writes error ∧
          closing.2.sink.sink.contents = past.stored ++ salvaged ∧
          past.stored ++ salvaged <+: archive ∧ past.stored ++ salvaged ≠ archive) := by
  obtain ⟨plain, hstep, hsummary, hclosed⟩ := clean.exists_plain kind
  have hopens : openWith config (FaultyEngine.create (kind.engineFaults (some n)) engine)
      (FaultySink.openOver (kind.sinkFaults (some n)) {}) limit =
        .ok (plain.opened.tracked kind (some n)) := by
    rw [openWith_tracked, plain.opens]
    rfl
  have htracks : Tracks kind (some n) plain.opened (plain.opened.tracked kind (some n)) :=
    tracks_opened (by simpa using Nat.ne_of_gt hplace) plain.opens
  have hagree := (agree_of_inStep hstep).symm
  have hjournal : clean.closed.journal = plain.closed.journal := by
    rw [hclosed]
    rfl
  have harchive : clean.closed.sink.sink.contents = plain.closed.sink.contents := by
    rw [hclosed]
    rfl
  refine ⟨_, hopens, ?_⟩
  rcases plain.tracked_run htracks with ⟨hsame, hclose, hfew⟩ |
    ⟨error, v', events, hcut, hstruck, hpassed, hsink⟩
  · rw [hjournal, hclose, harchive, ← hsummary]
    exact ⟨fun _ => ⟨hagree.trans (agree_of_inStep hsame), rfl, rfl, plain, hagree, rfl, rfl⟩,
      fun hmany => absurd hfew (Nat.not_lt.mpr hmany)⟩
  · have hmany := hstruck.le_count hpassed
    have hstored : plain.closed.sink.contents = plain.closed.journal.stored :=
      plain.contents_closed MemorySink.accepting rfl rfl
    obtain ⟨past, event, salvaged, rfl, hcount, hstrikes, hcontents⟩ := hstruck
    obtain ⟨hfront, hcutShort⟩ := plain.cut_isPrefix hpassed hstrikes
    obtain ⟨rest, hrest⟩ := hpassed
    rw [← hsink] at hcontents
    rw [hjournal, harchive, hstored]
    refine ⟨fun hfew => absurd hfew (Nat.not_lt.mpr hmany), fun _ => ?_⟩
    refine ⟨past, event, rest, error, salvaged, ?_, (Option.some.inj hcount).symm, hstrikes, ?_,
      hcontents, hfront, hcutShort⟩
    · rw [← hrest, Journal.events_note, List.append_assoc]
      rfl
    · apply hcut.of_agree hagree.symm
      intro front hprefix
      rw [(hstep front hprefix).2.eq]
      rfl

end CleanRun

/-- The frames of `EagerEngine.run`, with all calls counted. -/
def EagerEngine.countedRun : CleanRun EagerEngine.config (⟨{}, {}, 0⟩ : FaultyEngine EagerEngine)
    (⟨{}, {}, 0⟩ : FaultySink MemorySink) 4 [[1, 2, 3], [4, 5, 6, 7], [], [8]] :=
  .ofAnswers ⟨2, 8, 51⟩ rfl (by decide +kernel) (by decide +kernel)

/-- Of the fourth offer, which begins the second frame, two bytes are accepted. -/
theorem CleanRun.short_write_cuts_run_off :
    1 ≤ 4 ∧ ∃ faulty : Writer (FaultyEngine EagerEngine) (FaultySink MemorySink),
      Writer.openWith EagerEngine.config (FaultyEngine.create {} {})
        (FaultySink.openOver { shortWrite := some 4 } {}) 4 = .ok faulty ∧
      (∃ error, Writer.CutOff .shortWrite 4 EagerEngine.countedRun.opened faulty
        [[1, 2, 3], [4, 5, 6, 7], [], [8]] error) ∧
      (faulty.writeAll [[1, 2, 3], [4, 5, 6, 7], [], [8]]).2.close.2.sink.sink.contents <+:
        EagerEngine.countedRun.closed.sink.sink.contents := by
  obtain ⟨faulty, hopen, -, hstrikes⟩ :=
    CleanRun.faulty_run_is_cut_off .shortWrite (show 1 ≤ 4 by decide) EagerEngine.countedRun
  have hmany : 4 ≤ EagerEngine.countedRun.closed.journal.count FaultKind.shortWrite.counts := by
    decide +kernel
  obtain ⟨past, event, rest, error, salvaged, -, -, -, hcut, hcontents, hfront, -⟩ :=
    hstrikes hmany
  rw [← hcontents] at hfront
  exact ⟨by decide, faulty, hopen, ⟨error, hcut⟩, hfront⟩

end SeekableArchive
