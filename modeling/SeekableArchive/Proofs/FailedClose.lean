import SeekableArchive.Proofs.EagerEngine
import SeekableArchive.Proofs.TableChunks
import SeekableArchive.Proofs.TableGrammar

/-!
# Archives whose close failed

A close may fail at the frame end, at any chunk of the table, or when the sink is closed.
Up to the last chunk what has been appended is not an archive; once all chunks have been
taken it is one, and the failure of the sink to close does not change that.
-/

namespace SeekableArchive

open LittleEndian

namespace SeekTable

/-- No encoding is the front of a longer one, since it begins with its length. -/
theorem length_eq_of_encode_isPrefix {t t' : SeekTable}
    (hfits : t.encodedSize - headerSize ≤ maxFrameSize)
    (hfits' : t'.encodedSize - headerSize ≤ maxFrameSize) (h : t'.encode <+: t.encode) :
    t'.encodedSize = t.encodedSize := by
  obtain ⟨rest, hrest⟩ := h
  have hsize := t.readWord_size hfits
  have hsize' := t'.readWord_size hfits'
  have hwords : readWord (t'.encode.drop 4 ++ rest) = readWord (t'.encode.drop 4) := by
    rw [encode_eq, drop_word_append, List.append_assoc, readWord_word_append,
      readWord_word_append]
  have hlong : 4 ≤ t'.encode.length := by
    have hheader := t'.headerSize_le_encodedSize
    rw [length_encode]
    rw [headerSize] at hheader
    omega
  rw [← hrest, List.drop_append_of_le_length hlong, hwords, hsize'] at hsize
  simp only [encodedSize, sizeFor, headerSize] at *
  omega

/-- What is read at the end of a table that is cut short begins elsewhere. -/
theorem elsewhere_of_parse {t t' : SeekTable} {given front : Bytes}
    (hfits : t.encodedSize - headerSize ≤ maxFrameSize) (hfront : front <+: t.encode)
    (hcut : front.length < t.encodedSize) (h : parse (given ++ front) = .ok t') :
    ∃ before, given ++ front = before ++ t'.encode ∧ before.length ≠ given.length := by
  obtain ⟨block, ⟨before, hbefore⟩, hwritten⟩ := parse_eq_ok_iff_writtenAs.mp h
  obtain ⟨rfl, hfits'⟩ := writtenAs_iff.mp hwritten
  refine ⟨before, hbefore.symm, fun hlength => ?_⟩
  obtain ⟨-, rfl⟩ := List.append_inj hbefore hlength
  rw [length_encode, length_eq_of_encode_isPrefix hfits hfits' hfront] at hcut
  exact Nat.lt_irrefl _ hcut

end SeekTable

/-! ## What a sink holds after failures -/

/-- An offer that fails appends nothing, so a sink always says how much it has appended. -/
def Sink.Appending.Reports {σ : Type} [Sink σ] (appending : Sink.Appending σ) : Prop :=
  ∀ ⦃data : Bytes⦄ ⦃s s' : σ⦄ ⦃error : SinkError⦄,
    Sink.write data s = .error error s' → appending.accepted data s = []

theorem MemorySink.reports : MemorySink.appending.Reports := by
  intro data s s' error h
  cases hclosed : s.isClosed with
  | true => simp [MemorySink.appending, hclosed]
  | false => simp [Sink.write, hclosed] at h

theorem FaultySink.reports {σ : Type} [Sink σ] {inner : Sink.Appending σ} (h : inner.Reports) :
    (FaultySink.appending inner).Reports := by
  intro data f f' error hwrite
  rw [run_write] at hwrite
  show ((f.passed data).map (inner.accepted · f.sink)).getD [] = []
  cases hpassed : f.passed data with
  | none => rfl
  | some front =>
      simp only [hpassed] at hwrite
      have hinner := inside_eq_error hwrite
      rw [sink_counted] at hinner
      exact h hinner

namespace Writer

variable {ε σ : Type} [Sink σ] {appending : Sink.Appending σ} {w : Writer ε σ}

/-- The sink holds what the journal says is stored. -/
def Reported (appending : Sink.Appending σ) (w : Writer ε σ) : Prop :=
  appending.contents w.sink = w.journal.stored

theorem Reported.note (h : w.Reported appending) {event : Event} (hstored : event.stored = []) :
    (w.note event).Reported appending := by
  show appending.contents w.sink = (w.journal.note event).stored
  rw [Journal.stored_note, hstored, List.append_nil]
  exact h

theorem Reported.release (h : w.Reported appending) : w.release.Reported appending := by
  have hsink : (w.note .sinkReleased).Reported appending := h.note rfl
  have hengine : ((w.note .sinkReleased).note .engineReleased).Reported appending :=
    hsink.note rfl
  exact hengine

end Writer

namespace Action

open Writer (Reported)

variable {ε σ : Type} [Sink σ] {appending : Sink.Appending σ}

theorem reported_offer (hreports : appending.Reports) (chunk : Bytes) :
    Ensures (Reported appending : Writer ε σ → Prop) (onSink (Sink.writeFully chunk))
      (fun _ => Reported appending) (Reported appending) := by
  have hstored {w : Writer ε σ} {count : Nat} {s : σ} (hw : w.Reported appending)
      (hwrite : Sink.write chunk w.sink = .ok count s) :
      appending.contents s = w.journal.stored ++ chunk.take count := by
    obtain ⟨hcount, hcontents⟩ := appending.write_ok hwrite
    have haccepted := List.prefix_iff_eq_take.mp (appending.accepted_isPrefix chunk w.sink)
    rw [← hcount] at haccepted
    rw [hcontents, haccepted, hw]
  apply ensures_offer
  · exact fun _ _ hw => hw
  · intro w error s hw _ hwrite
    have hcontents := appending.write_error hwrite
    rw [hreports hwrite, hw] at hcontents
    exact hcontents
  · exact fun _ _ _ hw hwrite _ => hstored hw hwrite
  · exact fun _ _ _ hw _ hwrite _ => hstored hw hwrite

variable [Engine ε]

theorem reported_stable (hreports : appending.Reports) :
    Stable (Reported appending : Writer ε σ → Prop) (Reported appending) where
  halts _ hw := hw
  compress mode input room := by
    intro w hw
    rw [run_compress]
    cases Engine.compress mode input room w.engine with
    | error error e => exact hw.trans (List.append_nil _).symm
    | ok step e => exact hw.trans (List.append_nil _).symm
  append chunk := (reported_offer hreports chunk).bind fun _ => ensures_modify fun _ hw => hw
  record := ensures_recordFrame (fun _ hw => hw) fun _ _ _ hw => hw.trans (List.append_nil _).symm

theorem reported_complete (hreports : appending.Reports) :
    Ensures (Reported appending : Writer ε σ → Prop) complete (fun _ => Reported appending)
      (Reported appending) := by
  apply (reported_stable hreports).complete
  · exact fun _ _ hw => hw
  · exact fun chunk => reported_offer hreports chunk
  · exact fun _ _ hw => hw.trans (List.append_nil _).symm

end Action

/-! ## What the journal says is stored -/

namespace Journal

/-- Everything that was offered has been stored. -/
def Delivered (j : Journal) : Prop :=
  j.stored = j.offers.flatten

/-- What has been stored is the front of what was offered. -/
def Broken (j : Journal) : Prop :=
  j.stored <+: j.offers.flatten

variable {j : Journal} {event : Event}

theorem Delivered.broken (h : j.Delivered) : j.Broken := by
  rw [Broken, h]

theorem Delivered.note (h : j.Delivered) (hstored : event.stored = [])
    (hoffered : event.offered? = none) : (j.note event).Delivered := by
  simp [Delivered, hstored, hoffered, show j.stored = j.offers.flatten from h]

theorem Broken.note (h : j.Broken) (hstored : event.stored = [])
    (hoffered : event.offered? = none) : (j.note event).Broken := by
  simpa [Broken, hstored, hoffered] using h

end Journal

namespace Action

variable {ε σ : Type} [Sink σ]

theorem delivered_offer (chunk : Bytes) :
    Ensures (fun w : Writer ε σ => w.journal.Delivered) (onSink (Sink.writeFully chunk))
      (fun _ w => w.journal.Delivered) fun w => w.journal.Broken := by
  intro w hw
  by_cases hchunk : chunk = []
  · rw [hchunk, run_offer_nil]
    exact hw
  obtain ⟨event, s, hoffer, hanswer⟩ := exists_event_of_offer hchunk w
  have hoffers : (w.journal.note event).offers.flatten = w.journal.stored ++ chunk := by
    rw [Journal.offers_note, hoffer, List.flatten_append, hw]
    simp
  rcases hanswer with ⟨htaken, hrun⟩ | ⟨hrefused, error, hrun⟩
  · rw [hrun]
    show (w.journal.note event).stored = _
    rw [hoffers, Journal.stored_note, Event.stored_of_taken hoffer htaken]
  · rw [hrun]
    show (w.journal.note event).stored <+: _
    rw [hoffers, Journal.stored_note]
    exact (List.prefix_append_right_inj _).mpr (Event.stored_of_refused hoffer hrefused hchunk).1

variable [Engine ε]

theorem delivered_stable :
    Stable (fun w : Writer ε σ => w.journal.Delivered) fun w => w.journal.Broken where
  halts _ hw := hw.broken
  compress mode input room := by
    intro w hw
    rw [run_compress]
    cases Engine.compress mode input room w.engine with
    | error error e => exact (hw.note rfl rfl).broken
    | ok step e => exact hw.note rfl rfl
  append chunk := (delivered_offer chunk).bind fun _ => ensures_modify fun _ hw => hw
  record := ensures_recordFrame (fun _ hw => hw.broken) fun _ _ _ hw => hw.note rfl rfl

end Action

namespace Writer

variable {ε σ : Type} [Engine ε] [Sink σ] {w v : Writer ε σ} {size : Nat}

theorem delivered_upheld :
    Upheld (fun w : Writer ε σ => w.journal.Delivered) fun w => w.journal.Broken where
  accept _ := Action.delivered_stable.accept fun _ hw => hw
  poison _ hw := hw.note rfl rfl
  hang hw := hw

/-- Engine output is stored and, only if it is all of it, a part of the table behind it that
is not the whole. -/
def LacksTable (w : Writer ε σ) : Prop :=
  ∃ given front, w.journal.stored = given ++ front ∧ given <+: w.journal.outputs.flatten ∧
    front <+: w.frameLog.table.encode ∧ front.length < w.frameLog.table.encodedSize ∧
    (front ≠ [] → given = w.journal.outputs.flatten)

omit [Engine ε] [Sink σ] in
theorem lacksTable_of_broken (hechoes : w.journal.Echoes) (hbroken : w.journal.Broken) :
    w.LacksTable := by
  refine ⟨w.journal.stored, [], (List.append_nil _).symm, ?_, List.nil_prefix, ?_, by simp⟩
  · rw [← hechoes]
    exact hbroken
  · exact SeekTable.encodedSize_pos _

omit [Engine ε] in
theorem table_writeTable (t : SeekTable) :
    Action.Ensures (fun w : Writer ε σ => w.frameLog.table = t) Action.writeTable
      (fun _ w => w.frameLog.table = t) fun w => w.frameLog.table = t := by
  apply Action.ensures_writeTable
  · exact fun _ hw => hw
  · exact fun _ _ hw => hw
  · exact fun _ => Action.ensures_onSink fun _ _ _ hw => hw
  · exact fun _ _ hw => hw

omit [Engine ε] in
/-- The table is stored as a whole or not, and only in the latter case the action fails. -/
theorem stored_writeTable (hsize : 0 < size) :
    Action.Ensures
      (fun w : Writer ε σ => (w.journal.Echoes ∧ w.journal.Delivered) ∧ w.Unwritten size)
      Action.writeTable
      (fun _ w => w.journal.stored = w.journal.outputs.flatten ++ w.frameLog.table.encode)
      LacksTable := by
  rintro w ⟨⟨hechoes, hdelivered⟩, hhandout, rfl⟩
  have htable := table_writeTable w.frameLog.table w rfl
  have hall : w.journal.stored = w.journal.outputs.flatten := by
    rw [← hechoes]
    exact hdelivered
  by_cases hreserve : Reservation.reserve w.footerChunkSize = .ok ()
  · obtain ⟨chunks, events, hchunked, hrun⟩ :=
      Action.writeTable_offers hsize hreserve hhandout
    have hne : ∀ chunk ∈ chunks, chunk ≠ [] := fun _ => hchunked.ne_nil_of_mem hsize
    rcases hrun with ⟨v, hrun, hoffered, hevents⟩ | ⟨error, v, hrun, hoffered, hevents⟩
    · rw [hrun] at htable ⊢
      have hstored := hoffered.stored_spec hne
      rw [if_pos rfl, hchunked.flatten_eq] at hstored
      have houtputs : v.journal.outputs = w.journal.outputs := by
        simp [Journal.outputs, hevents, hoffered.outputs_eq_nil, Event.output?]
      dsimp only
      rw [htable, houtputs, ← hall, Journal.stored_eq_flatMap, hevents,
        Journal.stored_eq_flatMap w.journal]
      simp [hstored, Event.stored]
    · rw [hrun] at htable ⊢
      have hstored := hoffered.stored_spec hne
      rw [if_neg Bool.false_ne_true, hchunked.flatten_eq, SeekTable.length_encode] at hstored
      have houtputs : v.journal.outputs = w.journal.outputs := by
        simp [Journal.outputs, hevents, hoffered.outputs_eq_nil]
      dsimp only
      refine ⟨w.journal.stored, events.flatMap Event.stored, ?_, ?_, ?_, ?_, ?_⟩
      · rw [Journal.stored_eq_flatMap, hevents, Journal.stored_eq_flatMap w.journal,
          List.flatMap_append]
      · rw [houtputs, hall]
      · rw [htable]
        exact hstored.1
      · rw [htable]
        exact hstored.2
      · rw [houtputs]
        exact fun _ => hall
  · obtain ⟨error, hrun⟩ := Action.writeTable_of_unreservable hreserve
    rw [hrun]
    exact lacksTable_of_broken hechoes hdelivered.broken

theorem stored_complete (hsize : 0 < size) :
    Action.Ensures
      (fun w : Writer ε σ => (w.journal.Echoes ∧ w.journal.Delivered) ∧ w.Unwritten size)
      Action.complete
      (fun _ w => w.journal.stored = w.journal.outputs.flatten ++ w.frameLog.table.encode)
      LacksTable := by
  intro w hw
  have hend : Action.Ensures
      (fun v : Writer ε σ => (v.journal.Echoes ∧ v.journal.Delivered) ∧ v.Unwritten size)
      (Action.endFrameIf (0 < w.pendingUncompressed))
      (fun _ v => (v.journal.Echoes ∧ v.journal.Delivered) ∧ v.Unwritten size)
      fun v => (v.journal.Echoes ∧ v.journal.Broken) ∧ v.Unwritten size :=
    ((Action.echoes_relays.endFrameIf _).and (Action.delivered_stable.endFrameIf _)).and
      ((unwritten_stable size).endFrameIf _)
  rw [Action.run_complete]
  exact (hend.weaken fun v hv => lacksTable_of_broken hv.1.1 hv.1.2).bind
    (fun _ => stored_writeTable hsize) w hw

omit [Engine ε] [Sink σ] in
theorem LacksTable.note (h : w.LacksTable) {event : Event} (hstored : event.stored = [])
    (houtput : event.output? = none) : (w.note event).LacksTable := by
  have hsame : (w.note event).journal.stored = w.journal.stored := by
    simp [Writer.note, hstored]
  have hsame' : (w.note event).journal.outputs = w.journal.outputs := by
    simp [Writer.note, houtput]
  rw [LacksTable, hsame, hsame']
  exact h

omit [Engine ε] [Sink σ] in
theorem LacksTable.release (h : w.LacksTable) : w.release.LacksTable := by
  have hsink : (w.note .sinkReleased).LacksTable := h.note rfl rfl
  have hengine : ((w.note .sinkReleased).note .engineReleased).LacksTable := hsink.note rfl rfl
  exact hengine

/-! ## Faulty sinks -/

/-- The plan is as it was made and the sink inside has not been closed. -/
def Planned (faults : SinkFaults) (w : Writer ε (FaultySink MemorySink)) : Prop :=
  w.sink.faults = faults ∧ w.sink.sink.isClosed = false

end Writer

namespace Action

open Writer (Planned)

variable {ε : Type} {faults : SinkFaults}

theorem planned_offer (chunk : Bytes) :
    Ensures (Planned faults : Writer ε (FaultySink MemorySink) → Prop)
      (onSink (Sink.writeFully chunk)) (fun _ => Planned faults) (Planned faults) := by
  rintro w ⟨hfaults, hclosed⟩
  by_cases hchunk : chunk = []
  · rw [hchunk, run_offer_nil]
    exact ⟨hfaults, hclosed⟩
  have hcounted : (w.sink.counted chunk).faults = faults := by
    rw [FaultySink.counted, if_neg hchunk]
    exact hfaults
  rw [run_offer hchunk, FaultySink.run_write]
  cases w.sink.passed chunk with
  | none => exact ⟨hcounted, by simpa using hclosed⟩
  | some front =>
      have hwrite : FaultySink.inside (Sink.write front) (w.sink.counted chunk) =
          .ok front.length { w.sink.counted chunk with sink := w.sink.sink.append front } := by
        simp [FaultySink.inside, Sink.write, hclosed]
      simp only [hwrite]
      by_cases hshort : front.length < chunk.length
      · simp only [if_pos hshort]
        exact ⟨hcounted, hclosed⟩
      · simp only [if_neg hshort]
        exact ⟨hcounted, hclosed⟩

variable [Engine ε]

theorem planned_stable : Stable (Planned faults : Writer ε (FaultySink MemorySink) → Prop)
    (Planned faults) where
  halts _ hw := hw
  compress mode input room := by
    intro w hw
    rw [run_compress]
    cases Engine.compress mode input room w.engine with
    | error error e => exact hw
    | ok step e => exact hw
  append chunk := (planned_offer chunk).bind fun _ => ensures_modify fun _ hw => hw
  record := ensures_recordFrame (fun _ hw => hw) fun _ _ _ hw => hw

theorem planned_complete :
    Ensures (Planned faults : Writer ε (FaultySink MemorySink) → Prop) complete
      (fun _ => Planned faults) (Planned faults) := by
  apply planned_stable.complete
  · exact fun _ _ hw => hw
  · exact fun chunk => planned_offer chunk
  · exact fun _ _ hw => hw

end Action

namespace Writer

variable {ε : Type} [Engine ε] {faults : SinkFaults}

theorem planned_upheld : Upheld (Planned faults : Writer ε (FaultySink MemorySink) → Prop)
    (Planned faults) where
  accept _ := Action.planned_stable.accept fun _ hw => hw
  poison _ hw := hw
  hang hw := hw

theorem reported_upheld {σ : Type} [Sink σ] {appending : Sink.Appending σ}
    (hreports : appending.Reports) :
    Upheld (Reported appending : Writer ε σ → Prop) (Reported appending) where
  accept _ := (Action.reported_stable hreports).accept fun _ hw => hw
  poison _ hw := hw.trans (List.append_nil _).symm
  hang hw := hw

omit [Engine ε] in
/-- What is read at the end of an archive without its table is not the table. -/
theorem LacksTable.elsewhere {σ : Type} {w : Writer ε σ} {archive : Bytes} (h : w.LacksTable)
    (harchive : archive = w.journal.stored) :
    ∃ given front, archive = given ++ front ∧ given <+: w.journal.outputs.flatten ∧
      front <+: w.frameLog.table.encode ∧ front ≠ w.frameLog.table.encode ∧
      (front ≠ [] → given = w.journal.outputs.flatten) ∧
      ∀ t, SeekTable.parse archive = .ok t →
        ∃ before, archive = before ++ t.encode ∧ before.length ≠ given.length := by
  obtain ⟨given, front, hstored, hgiven, hfront, hcut, hall⟩ := h
  have hfits : w.frameLog.table.encodedSize - SeekTable.headerSize ≤ maxFrameSize :=
    Nat.le_trans (Nat.sub_le _ _) (w.frameLog.table.encodedSize_bound w.frameLog.bounded)
  rw [harchive, hstored]
  refine ⟨given, front, rfl, hgiven, hfront, ?_, hall, fun t hparse => ?_⟩
  · rintro rfl
    rw [SeekTable.length_encode] at hcut
    exact Nat.lt_irrefl _ hcut
  · exact SeekTable.elsewhere_of_parse hfits hfront hcut hparse

theorem delivered_opened {σ : Type} [Sink σ] {config : Config} {engine : Except ArchiveError ε}
    {sink : Except SinkError σ} {limit : Nat} {w : Writer ε σ}
    (h : openWith config engine sink limit = .ok w) : w.journal.Delivered := by
  have hsilent := silent_openWith config engine sink limit
  rw [h] at hsilent
  obtain ⟨e, s, rfl, rfl⟩ := exists_of_opened h
  obtain ⟨-, e', j, -, -, hstored, rfl⟩ := openWith_eq_ok h
  rw [Journal.Delivered, hsilent.1]
  exact hstored

theorem tracked_opened {config : Config} {engine : Except ArchiveError ε} {limit : Nat}
    {w : Writer ε (FaultySink MemorySink)}
    (h : openWith config engine (FaultySink.openOver faults {}) limit = .ok w) :
    w.Reported (FaultySink.appending MemorySink.appending) ∧ w.Planned faults := by
  obtain ⟨e, f, rfl, hf⟩ := exists_of_opened h
  rw [hf] at h
  obtain ⟨-, e', j, -, -, hstored, rfl⟩ := openWith_eq_ok h
  rw [FaultySink.openOver] at hf
  split at hf
  · cases hf
  · cases hf
    exact ⟨hstored.symm, rfl, rfl⟩

theorem lacksTable_close_of_poisoned {σ : Type} [Sink σ] {appending : Sink.Appending σ}
    {w closed : Writer ε σ} {answer : Except Halt Summary} (hpoisoned : w.status = .poisoned)
    (hlacks : w.LacksTable) (hreported : w.Reported appending)
    (hclose : w.close = (answer, closed)) : closed.LacksTable ∧ closed.Reported appending := by
  simp only [close, hpoisoned] at hclose
  cases hclose
  have hnoted : (w.note (.logged .closingPoisoned)).LacksTable := hlacks.note rfl rfl
  have hheld : (w.note (.logged .closingPoisoned)).Reported appending := hreported.note rfl
  exact ⟨hnoted.release, hheld.release⟩

omit [Engine ε] in
theorem Planned.run_close {w : Writer ε (FaultySink MemorySink)} (h : w.Planned faults) :
    Sink.close w.sink =
      if faults.failClose then .error (injectedFault "close") w.sink
      else .ok () { w.sink with sink := { w.sink.sink with isClosed := true } } := by
  obtain ⟨hfaults, hinner⟩ := h
  rw [FaultySink.run_close, hfaults]
  split
  · rfl
  · simp [FaultySink.inside, Sink.close, hinner]

/-- With the table written, only the sink can still make the close fail. -/
theorem close_of_complete {w u closed : Writer ε (FaultySink MemorySink)} {error : ArchiveError}
    (husable : w.status = .usable) (hcomplete : Action.complete w = .ok () u)
    (hplanned : u.Planned faults) (hclose : w.close = (.error (.failed error), closed)) :
    faults.failClose = true ∧ error = .sink (injectedFault "close") ∧ closed.sink = u.sink ∧
      closed.frameLog = u.frameLog ∧ closed.journal.outputs = u.journal.outputs := by
  simp only [close, husable, hcomplete, Action.onSink, Recorded.close, hplanned.run_close]
    at hclose
  by_cases hfail : faults.failClose = true
  · simp only [if_pos hfail] at hclose
    cases hclose
    have houtputs : (((u.journal.note (.sinkClosed false)).note .sinkReleased).note
        .engineReleased).outputs = u.journal.outputs := by
      simp [Event.output?]
    exact ⟨hfail, rfl, rfl, rfl, houtputs⟩
  · simp only [if_neg hfail] at hclose
    cases hclose

/-- If a close fails because its sink fails to close, the archive is whole and its table is
read.  If it fails for any other reason, the archive consists of engine output and, at most, a
part of the table; whatever is read at its end as a table, should there be anything, does not
begin where the table was to begin. -/
theorem failed_close_lacks_table {config : Config} {engine : ε} {engineFaults : EngineFaults}
    {limit : Nat} {opened w closed : Writer (FaultyEngine ε) (FaultySink MemorySink)}
    {writes : List Bytes} {answers : List (Except Halt Unit)} {error : ArchiveError}
    (hopen : openWith config (FaultyEngine.create engineFaults engine)
      (FaultySink.openOver faults {}) limit = .ok opened)
    (hrun : opened.writeAll writes = (answers, w))
    (hclose : w.close = (.error (.failed error), closed)) :
    (faults.failClose = true ∧ error = .sink (injectedFault "close") ∧
      closed.sink.sink.contents =
        closed.journal.outputs.flatten ++ closed.frameLog.table.encode ∧
      SeekTable.parse closed.sink.sink.contents = .ok closed.frameLog.table) ∨
    ∃ given front, closed.sink.sink.contents = given ++ front ∧
      given <+: closed.journal.outputs.flatten ∧ front <+: closed.frameLog.table.encode ∧
      front ≠ closed.frameLog.table.encode ∧
      (front ≠ [] → given = closed.journal.outputs.flatten) ∧
      ∀ t, SeekTable.parse closed.sink.sink.contents = .ok t →
        ∃ before, closed.sink.sink.contents = before ++ t.encode ∧
          before.length ≠ given.length := by
  have husable := status_opened hopen
  have hvalid : config.Valid := by
    obtain ⟨e, f, he, hf⟩ := exists_of_opened hopen
    rw [he, hf] at hopen
    exact (openWith_eq_ok hopen).1
  obtain ⟨hreported, hplanned⟩ := tracked_opened hopen
  have hreports := FaultySink.reports MemorySink.reports
  replace hreported := (reported_upheld hreports).keeps husable hreported writes
  replace hplanned := planned_upheld.keeps husable hplanned writes
  have hechoes := echoes_upheld.keeps husable (echoes_opened hopen) writes
  have hunwritten := (unwritten_upheld _).keeps husable (unwritten_opened hopen) writes
  have hdelivered := delivered_upheld.writeAll husable (delivered_opened hopen) writes
  have hunclosed := (answered_of_usable husable hrun).ne_closed
  rw [hrun] at hreported hplanned hechoes hunwritten hdelivered
  cases hstatus : w.status with
  | closed => exact absurd hstatus hunclosed
  | hung => simp [close, hstatus] at hclose
  | poisoned =>
      rcases hdelivered with ⟨husable', -⟩ | ⟨-, hbroken⟩
      · rw [hstatus] at husable'
        cases husable'
      · obtain ⟨hlacks, hheld⟩ := lacksTable_close_of_poisoned hstatus
          (lacksTable_of_broken hechoes hbroken) hreported hclose
        exact .inr (hlacks.elsewhere hheld)
  | usable =>
      rcases hdelivered with ⟨-, hall⟩ | ⟨hstopped, -⟩
      rotate_left
      · exact absurd hstatus hstopped
      have hreported' := Action.reported_complete hreports w hreported
      have hplanned' := Action.planned_complete w hplanned
      have hstored := stored_complete hvalid.chunk_pos w ⟨⟨hechoes, hall⟩, hunwritten⟩
      cases hcomplete : Action.complete w with
      | error halt u =>
          rw [hcomplete] at hreported' hstored
          simp only [close, hstatus, hcomplete] at hclose
          cases halt with
          | unfinished => cases hclose
          | failed failure =>
              cases hclose
              exact .inr (hstored.release.elsewhere hreported'.release)
      | ok a u =>
          rw [hcomplete] at hreported' hplanned' hstored
          obtain ⟨hfail, herror, hsink, hlog, houtputs⟩ :=
            close_of_complete hstatus hcomplete hplanned' hclose
          have hcontents : u.sink.sink.contents =
              u.journal.outputs.flatten ++ u.frameLog.table.encode :=
            hreported'.trans hstored
          rw [hsink, hlog, houtputs, hcontents]
          exact .inl ⟨hfail, herror, rfl, SeekTable.parse_append_encode _ u.frameLog.bounded _⟩

/-- The sink fails to close, and an empty table is read from what it holds. -/
theorem failed_close_leaves_table :
    ∃ opened closed : Writer (FaultyEngine EagerEngine) (FaultySink MemorySink),
      openWith { minFrameSize := 64 } (FaultyEngine.create {} {})
        (FaultySink.openOver { failClose := true } {}) 4 = .ok opened ∧
      opened.close = (.error (.failed (.sink (injectedFault "close"))), closed) ∧
      SeekTable.parse closed.sink.sink.contents = .ok ⟨false, #[], by simp⟩ := by
  have hrun : ∃ opened : Writer (FaultyEngine EagerEngine) (FaultySink MemorySink),
      openWith { minFrameSize := 64 } (FaultyEngine.create {} {})
        (FaultySink.openOver { failClose := true } {}) 4 = .ok opened ∧
      opened.close.1 = .error (.failed (.sink (injectedFault "close"))) ∧
      SeekTable.parse opened.close.2.sink.sink.contents = .ok ⟨false, #[], by simp⟩ :=
    ⟨_, rfl, by decide +kernel, by decide +kernel⟩
  obtain ⟨opened, hopen, hanswer, hparse⟩ := hrun
  exact ⟨opened, _, hopen, Prod.ext hanswer rfl, hparse⟩

/-- Two frames end, and of the second chunk of the table the sink accepts the first half: it
holds the frames and fifteen bytes of the table. -/
theorem short_table_lacks_table :
    ∃ opened w closed : Writer (FaultyEngine EagerEngine) (FaultySink MemorySink),
      openWith { EagerEngine.config with footerChunkSize := 10 } (FaultyEngine.create {} {})
        (FaultySink.openOver { shortWrite := some 8 } {}) 4 = .ok opened ∧
      opened.writeAll [[1, 2, 3], [4, 5, 6, 7], [], [8]] =
        ([.ok (), .ok (), .ok (), .ok ()], w) ∧
      w.close = (.error (.failed (.sink (.shortWrite 10 5))), closed) ∧
      closed.journal.outputs.flatten.length = 18 ∧
      closed.sink.sink.contents =
        closed.journal.outputs.flatten ++ closed.frameLog.table.encode.take 15 ∧
      ∀ t, SeekTable.parse closed.sink.sink.contents = .ok t →
        ∃ before, closed.sink.sink.contents = before ++ t.encode ∧ before.length ≠ 18 := by
  have hrun : ∃ opened : Writer (FaultyEngine EagerEngine) (FaultySink MemorySink),
      openWith { EagerEngine.config with footerChunkSize := 10 } (FaultyEngine.create {} {})
        (FaultySink.openOver { shortWrite := some 8 } {}) 4 = .ok opened ∧
      (opened.writeAll [[1, 2, 3], [4, 5, 6, 7], [], [8]]).1 =
        [.ok (), .ok (), .ok (), .ok ()] ∧
      let closing := (opened.writeAll [[1, 2, 3], [4, 5, 6, 7], [], [8]]).2.close
      closing.1 = .error (.failed (.sink (.shortWrite 10 5))) ∧
        closing.2.journal.outputs.flatten.length = 18 ∧
        closing.2.sink.sink.contents.length = 33 :=
    ⟨_, rfl, by decide +kernel, by decide +kernel, by decide +kernel, by decide +kernel⟩
  obtain ⟨opened, hopen, hanswers, hanswer, houtputs, hsize⟩ := hrun
  have hwrites : opened.writeAll [[1, 2, 3], [4, 5, 6, 7], [], [8]] = (_, _) :=
    Prod.ext hanswers rfl
  have hclose : (opened.writeAll [[1, 2, 3], [4, 5, 6, 7], [], [8]]).2.close = (_, _) :=
    Prod.ext hanswer rfl
  rcases failed_close_lacks_table hopen hwrites hclose with
    ⟨hfail, -⟩ | ⟨given, front, hcontents, hgiven, hfront, -, hall, helsewhere⟩
  · cases hfail
  · have hlengths : given.length + front.length = 33 := by
      rw [← hsize, hcontents, List.length_append]
    have hshort : given.length ≤ 18 := houtputs ▸ hgiven.length_le
    have hne : front ≠ [] := List.length_pos_iff.mp (by omega)
    have hframes : given.length = 18 := (congrArg List.length (hall hne)).trans houtputs
    have hfifteen : front.length = 15 := by omega
    obtain rfl := hall hne
    rw [List.prefix_iff_eq_take.mp hfront, hfifteen] at hcontents
    exact ⟨opened, _, _, hopen, hwrites, hclose, houtputs, hcontents, hframes ▸ helsewhere⟩

end Writer
end SeekableArchive
