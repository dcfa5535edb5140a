import SeekableArchive.Proofs.Offers

/-!
# How the table is offered

The encoded table goes to the sink in chunks of one size, the last of which may be shorter,
up to the first chunk that the sink refuses.  Nothing else happens in between, and what is
left to do after it are the closing of the sink and the releases.
-/

namespace SeekableArchive

/-- The bytes are cut into chunks of `size` bytes, the last of which may be shorter. -/
inductive Chunked (size : Nat) : Bytes → List Bytes → Prop
  | last {bytes : Bytes} (hne : bytes ≠ []) (hle : bytes.length ≤ size) :
      Chunked size bytes [bytes]
  | more {bytes : Bytes} {chunks : List Bytes} (hlt : size < bytes.length)
      (hrest : Chunked size (bytes.drop size) chunks) :
      Chunked size bytes (bytes.take size :: chunks)

namespace Chunked

variable {size : Nat} {bytes chunk : Bytes} {chunks : List Bytes}

theorem flatten_eq (h : Chunked size bytes chunks) : chunks.flatten = bytes := by
  induction h with
  | last hne hle => simp
  | more hlt hrest ih => rw [List.flatten_cons, ih, List.take_append_drop]

theorem chunks_ne_nil (h : Chunked size bytes chunks) : chunks ≠ [] := by
  cases h <;> exact List.cons_ne_nil _ _

theorem ne_nil_of_mem (h : Chunked size bytes chunks) (hsize : 0 < size)
    (hchunk : chunk ∈ chunks) : chunk ≠ [] := by
  induction h with
  | last hne hle =>
      rw [List.mem_singleton.mp hchunk]
      exact hne
  | more hlt hrest ih =>
      rcases List.mem_cons.mp hchunk with rfl | hchunk
      · apply List.ne_nil_of_length_pos
        rw [List.length_take]
        omega
      · exact ih hchunk

/-- Only the last chunk may be shorter. -/
theorem length_eq_of_mem_dropLast (h : Chunked size bytes chunks)
    (hchunk : chunk ∈ chunks.dropLast) : chunk.length = size := by
  induction h with
  | last hne hle => cases hchunk
  | more hlt hrest ih =>
      rw [List.dropLast_cons_of_ne_nil hrest.chunks_ne_nil] at hchunk
      rcases List.mem_cons.mp hchunk with rfl | hchunk
      · rw [List.length_take]
        omega
      · exact ih hchunk

theorem length_le_of_mem (h : Chunked size bytes chunks) (hchunk : chunk ∈ chunks) :
    chunk.length ≤ size := by
  induction h with
  | last hne hle =>
      rw [List.mem_singleton.mp hchunk]
      exact hle
  | more hlt hrest ih =>
      rcases List.mem_cons.mp hchunk with rfl | hchunk
      · exact List.length_take_le _ _
      · exact ih hchunk

/-- The number of chunks is the number of bytes over the size, rounded up. -/
theorem length_chunks (h : Chunked size bytes chunks) (hsize : 0 < size) :
    chunks.length = (bytes.length + (size - 1)) / size := by
  induction h with
  | last hne hle =>
      have hpos := List.length_pos_iff.mpr hne
      rw [List.length_singleton]
      symm
      apply Nat.div_eq_of_lt_le
      · omega
      · omega
  | @more bytes chunks hlt hrest ih =>
      have hsplit : bytes.length + (size - 1) =
          ((bytes.drop size).length + (size - 1)) + size := by
        rw [List.length_drop]
        omega
      rw [List.length_cons, ih, hsplit, Nat.add_div_right _ hsize]

end Chunked

/-- The events of offering the chunks one after the other, up to the first one that is
refused.  The flag tells whether none was. -/
inductive Offered : List Bytes → List Event → Bool → Prop
  | nil : Offered [] [] true
  | taken {chunk : Bytes} {chunks : List Bytes} {event : Event} {events : List Event}
      {complete : Bool} (hoffer : event.offered? = some chunk) (htaken : event.isRefusal = false)
      (hrest : Offered chunks events complete) :
      Offered (chunk :: chunks) (event :: events) complete
  | refused {chunk : Bytes} {chunks : List Bytes} {event : Event}
      (hoffer : event.offered? = some chunk) (hrefused : event.isRefusal = true) :
      Offered (chunk :: chunks) [event] false

namespace Event

theorem eq_of_offered {event : Event} {data : Bytes} (h : event.offered? = some data) :
    ∃ accepted, event = .sinkOffered data accepted := by
  cases event with
  | sinkOffered data' accepted =>
      cases h
      exact ⟨accepted, rfl⟩
  | _ => cases h

/-- An offer that is not refused is stored as a whole. -/
theorem stored_of_taken {event : Event} {chunk : Bytes} (hoffer : event.offered? = some chunk)
    (htaken : event.isRefusal = false) : event.stored = chunk := by
  obtain ⟨accepted, rfl⟩ := eq_of_offered hoffer
  cases accepted with
  | none => cases htaken
  | some count => exact List.take_of_length_le (Nat.not_lt.mp (of_decide_eq_false htaken))

/-- Of an offer that is refused a part may be stored, but not the end. -/
theorem stored_of_refused {event : Event} {chunk : Bytes} (hoffer : event.offered? = some chunk)
    (hrefused : event.isRefusal = true) (hchunk : chunk ≠ []) :
    event.stored <+: chunk ∧ event.stored.length < chunk.length := by
  obtain ⟨accepted, rfl⟩ := eq_of_offered hoffer
  cases accepted with
  | none => exact ⟨List.nil_prefix, List.length_pos_iff.mpr hchunk⟩
  | some count =>
      have hshort : count < chunk.length := of_decide_eq_true hrefused
      refine ⟨List.take_prefix _ _, ?_⟩
      rw [Event.stored, List.length_take]
      omega

end Event

namespace Offered

variable {chunks : List Bytes} {events : List Event} {complete : Bool}

/-- Nothing but offers happens. -/
theorem outputs_eq_nil (h : Offered chunks events complete) :
    events.filterMap Event.output? = [] := by
  have houtput {event : Event} {chunk : Bytes} (hoffer : event.offered? = some chunk) :
      event.output? = none := by
    obtain ⟨accepted, rfl⟩ := Event.eq_of_offered hoffer
    rfl
  induction h with
  | nil => rfl
  | taken hoffer htaken hrest ih => rw [List.filterMap_cons_none (houtput hoffer), ih]
  | refused hoffer hrefused => rw [List.filterMap_cons_none (houtput hoffer), List.filterMap_nil]

/-- If no chunk is refused all of them are stored, and otherwise less. -/
theorem stored_spec (h : Offered chunks events complete) (hne : ∀ chunk ∈ chunks, chunk ≠ []) :
    if complete then events.flatMap Event.stored = chunks.flatten
    else events.flatMap Event.stored <+: chunks.flatten ∧
      (events.flatMap Event.stored).length < chunks.flatten.length := by
  induction h with
  | nil => rfl
  | @taken chunk chunks event events complete hoffer htaken hrest ih =>
      replace ih := ih fun later hlater => hne later (List.mem_cons_of_mem _ hlater)
      rw [List.flatMap_cons, List.flatten_cons, Event.stored_of_taken hoffer htaken]
      cases complete with
      | true =>
          simp only [if_true] at ih ⊢
          rw [ih]
      | false =>
          simp only [Bool.false_eq_true, if_false] at ih ⊢
          refine ⟨(List.prefix_append_right_inj _).mpr ih.1, ?_⟩
          rw [List.length_append, List.length_append]
          omega
  | @refused chunk chunks event hoffer hrefused =>
      obtain ⟨hfront, hshort⟩ :=
        Event.stored_of_refused hoffer hrefused (hne chunk (List.mem_cons_self ..))
      simp only [Bool.false_eq_true, if_false, List.flatMap_cons, List.flatMap_nil,
        List.append_nil, List.flatten_cons, List.length_append]
      exact ⟨hfront.trans (List.prefix_append _ _), by omega⟩

end Offered

namespace Action

variable {ε σ : Type} [Sink σ] {w w' : Writer ε σ}

/-- An offer is one event, and the writer goes on exactly if it is not a refusal. -/
theorem exists_event_of_offer {chunk : Bytes} (hchunk : chunk ≠ []) (w : Writer ε σ) :
    ∃ event s, event.offered? = some chunk ∧
      (event.isRefusal = false ∧ onSink (Sink.writeFully chunk) w =
          .ok () { w with sink := s, journal := w.journal.note event } ∨
        event.isRefusal = true ∧ ∃ error, onSink (Sink.writeFully chunk) w =
          .error (.failed (.sink error)) { w with sink := s, journal := w.journal.note event }) := by
  rw [run_offer hchunk]
  cases Sink.write chunk w.sink with
  | error error s => exact ⟨_, s, rfl, .inr ⟨rfl, error, rfl⟩⟩
  | ok accepted s =>
      refine ⟨.sinkOffered chunk (some accepted), s, rfl, ?_⟩
      by_cases hshort : accepted < chunk.length
      · simp only [if_pos hshort]
        exact .inr ⟨decide_eq_true hshort, _, rfl⟩
      · simp only [if_neg hshort]
        exact .inl ⟨decide_eq_false hshort, trivial⟩

/-- The loop hands over what is unread in chunks as large as its buffer, and it fails only
where the sink does. -/
theorem drainTable_offers {room pieces : Nat} (hroom : 0 < room)
    (hcoherent : w.frameLog.Coherent) (hunread : w.frameLog.unread ≠ [])
    (hpieces : w.frameLog.unread.length ≤ pieces) :
    ∃ chunks events, Chunked room w.frameLog.unread chunks ∧
      ((∃ w', drainTable room pieces w = .ok () w' ∧ Offered chunks events true ∧
          w'.journal.events = w.journal.events ++ events) ∨
        ∃ error w', drainTable room pieces w = .error (.failed (.sink error)) w' ∧
          Offered chunks events false ∧ w'.journal.events = w.journal.events ++ events) := by
  induction pieces generalizing w with
  | zero => exact absurd (List.length_eq_zero_iff.mp (Nat.le_zero.mp hpieces)) hunread
  | succ pieces ih =>
      obtain ⟨houtput, hremaining, hleft, -, hnext⟩ := FrameLog.serialize_spec hcoherent room
      have hpos := List.length_pos_iff.mpr hunread
      have hchunk : (w.frameLog.serialize room).1.output ≠ [] := by
        apply List.ne_nil_of_length_pos
        rw [houtput, List.length_take]
        omega
      rw [List.length_drop] at hremaining
      rw [run_drainTable_succ]
      obtain ⟨event, s, hoffer, hanswer⟩ := exists_event_of_offer hchunk
        { w with frameLog := (w.frameLog.serialize room).2 }
      by_cases hall : w.frameLog.unread.length ≤ room
      · have hdone : (w.frameLog.serialize room).1.remaining = 0 := by omega
        rw [houtput, List.take_of_length_le hall] at hoffer
        refine ⟨[w.frameLog.unread], [event], .last hunread hall, ?_⟩
        rcases hanswer with ⟨htaken, hrun⟩ | ⟨hrefused, error, hrun⟩
        · rw [hrun]
          simp only [if_pos hdone]
          exact .inl ⟨_, rfl, .taken hoffer htaken .nil, Journal.events_note w.journal event⟩
        · rw [hrun]
          exact .inr ⟨error, _, rfl, .refused hoffer hrefused, Journal.events_note w.journal event⟩
      · have hmore : (w.frameLog.serialize room).1.remaining ≠ 0 := by omega
        have hrest : (w.frameLog.serialize room).2.unread.length + room =
            w.frameLog.unread.length := by
          rw [hleft, List.length_drop]
          omega
        have hsome : (w.frameLog.serialize room).2.unread ≠ [] :=
          List.ne_nil_of_length_pos (by omega)
        have hfewer : (w.frameLog.serialize room).2.unread.length ≤ pieces := by omega
        obtain ⟨chunks, events, hchunked, hloop⟩ := ih (w := { w with
            sink := s
            journal := w.journal.note event
            frameLog := (w.frameLog.serialize room).2
            bytesOut := w.bytesOut + (w.frameLog.serialize room).1.output.length })
          hnext hsome hfewer
        change Chunked room (w.frameLog.serialize room).2.unread chunks at hchunked
        rw [hleft] at hchunked
        rw [houtput] at hoffer
        rcases hanswer with ⟨htaken, hrun⟩ | ⟨hrefused, error, hrun⟩
        · refine ⟨_, event :: events, .more (Nat.not_le.mp hall) hchunked, ?_⟩
          rw [hrun]
          simp only [if_neg hmore]
          rcases hloop with ⟨w', hrun', hoffered, hevents⟩ | ⟨error, w', hrun', hoffered, hevents⟩
          · refine .inl ⟨w', hrun', .taken hoffer htaken hoffered, ?_⟩
            simpa using hevents
          · refine .inr ⟨error, w', hrun', .taken hoffer htaken hoffered, ?_⟩
            simpa using hevents
        · refine ⟨_, [event], .more (Nat.not_le.mp hall) hchunked, ?_⟩
          rw [hrun]
          exact .inr ⟨error, _, rfl, .refused hoffer hrefused, Journal.events_note w.journal event⟩

/-- A log that has not begun to hand out its table offers the whole of it. -/
theorem writeTable_offers (hchunk : 0 < w.footerChunkSize)
    (hreserve : Reservation.reserve w.footerChunkSize = .ok ())
    (hhandout : w.frameLog.handout = none) :
    ∃ chunks events, Chunked w.footerChunkSize w.frameLog.table.encode chunks ∧
      ((∃ w', writeTable w = .ok () w' ∧ Offered chunks events true ∧
          w'.journal.events =
            w.journal.events ++ events ++ [.logged (.tableWritten w.frames)]) ∨
        ∃ error w', writeTable w = .error (.failed (.sink error)) w' ∧
          Offered chunks events false ∧ w'.journal.events = w.journal.events ++ events) := by
  have hunread := FrameLog.unread_of_handout_eq_none hhandout
  have hlength := w.frameLog.table.length_encode
  have hpos := w.frameLog.table.encodedSize_pos
  obtain ⟨chunks, events, hchunked, hloop⟩ := drainTable_offers hchunk
    (FrameLog.coherent_of_handout_eq_none hhandout)
    (by rw [hunread]; exact List.ne_nil_of_length_pos (by omega))
    (Nat.le_of_eq ((congrArg List.length hunread).trans hlength))
  rw [hunread] at hchunked
  refine ⟨chunks, events, hchunked, ?_⟩
  have hbuffer := (buffer_eq_ok_iff "seek table buffer").mpr hreserve
  rcases hloop with ⟨v, hrun, hoffered, hevents⟩ | ⟨error, v, hrun, hoffered, hevents⟩
  · refine .inl ⟨_, writeTable_eq_ok_iff.mpr ⟨hreserve, v, hrun, rfl⟩, hoffered, ?_⟩
    rw [Writer.note, Journal.events_note, hevents]
  · refine .inr ⟨error, v, ?_, hoffered, hevents⟩
    rw [writeTable, run_get_bind, run_ofExcept_bind, hbuffer]
    simp only [run_bind, hrun]

end Action

namespace Writer

variable {ε σ : Type} [Engine ε] [Sink σ] {w v : Writer ε σ}

/-! ## Before the table -/

/-- Nothing of the table has been handed out, and its chunks are to have that size. -/
structure Unwritten (size : Nat) (w : Writer ε σ) : Prop where
  handout : w.frameLog.handout = none
  chunk : w.footerChunkSize = size

theorem unwritten_stable (size : Nat) :
    Action.Stable (Unwritten size : Writer ε σ → Prop) (Unwritten size) where
  halts _ hw := hw
  compress _ _ _ := Action.ensures_onEngine fun _ _ _ hw => ⟨hw.handout, hw.chunk⟩
  append _ := (Action.ensures_onSink fun _ _ _ hw => ⟨hw.handout, hw.chunk⟩).bind fun _ =>
    Action.ensures_modify fun _ hw => ⟨hw.handout, hw.chunk⟩
  record := by
    apply Action.ensures_recordFrame
    · exact fun w hw => ⟨hw.handout, hw.chunk⟩
    · intro w frameLog hrecord hw
      obtain ⟨-, -, -, -, hhandout, -⟩ := FrameLog.record_eq_ok_iff.mp hrecord
      exact ⟨hhandout, hw.chunk⟩

theorem unwritten_upheld (size : Nat) :
    Upheld (Unwritten size : Writer ε σ → Prop) (Unwritten size) where
  accept _ := (unwritten_stable size).accept fun _ hw => ⟨hw.handout, hw.chunk⟩
  poison _ hw := ⟨hw.handout, hw.chunk⟩
  hang hw := ⟨hw.handout, hw.chunk⟩

theorem unwritten_opened {config : Config} {engine : Except ArchiveError ε}
    {sink : Except SinkError σ} {limit : Nat}
    (h : openWith config engine sink limit = .ok w) : w.Unwritten config.footerChunkSize := by
  obtain ⟨e, s, rfl, rfl⟩ := exists_of_opened h
  obtain ⟨-, e', j, -, -, -, rfl⟩ := openWith_eq_ok h
  exact ⟨rfl, rfl⟩

/-! ## The end of a close -/

/-- What a close notes that has got past the frame end, and what it answers.  The chunks of the
table are offered.  If all of them are taken the sink is closed, which may fail. -/
inductive Concluded (frames : Nat) (chunks : List Bytes) : Except Halt Summary → List Event → Prop
  | closed {events : List Event} {summary : Summary} (h : Offered chunks events true) :
      Concluded frames chunks (.ok summary) (events ++
        [.logged (.tableWritten frames), .sinkClosed true, .sinkReleased, .engineReleased,
          .logged (.closed summary.frames summary.bytesIn summary.bytesOut)])
  | unclosed {events : List Event} {error : SinkError} (h : Offered chunks events true) :
      Concluded frames chunks (.error (.failed (.sink error))) (events ++
        [.logged (.tableWritten frames), .sinkClosed false, .sinkReleased, .engineReleased])
  | refused {events : List Event} {error : SinkError} (h : Offered chunks events false) :
      Concluded frames chunks (.error (.failed (.sink error)))
        (events ++ [.sinkReleased, .engineReleased])

theorem close_concludes (husable : w.status = .usable)
    (hend : Action.endFrameIf (0 < w.pendingUncompressed) w = .ok () v)
    (hchunk : 0 < v.footerChunkSize)
    (hreserve : Reservation.reserve v.footerChunkSize = .ok ())
    (hhandout : v.frameLog.handout = none) :
    ∃ chunks noted, Chunked v.footerChunkSize v.frameLog.table.encode chunks ∧
      Concluded v.frames chunks w.close.1 noted ∧
      w.close.2.journal.events = v.journal.events ++ noted := by
  have hcomplete := Action.complete_of_end hend
  obtain ⟨chunks, events, hchunked, hrun⟩ := Action.writeTable_offers hchunk hreserve hhandout
  simp only [close, husable, hcomplete]
  rcases hrun with ⟨u, hrun, hoffered, hevents⟩ | ⟨error, u, hrun, hoffered, hevents⟩
  · simp only [hrun, Action.onSink, Recorded.close]
    cases Sink.close u.sink with
    | ok _ s =>
        refine ⟨chunks, _, hchunked, .closed hoffered, ?_⟩
        simp [note, release, hevents]
    | error error s =>
        refine ⟨chunks, _, hchunked, .unclosed hoffered, ?_⟩
        simp [note, release, hevents]
  · simp only [hrun]
    refine ⟨chunks, _, hchunked, .refused hoffered, ?_⟩
    simp [note, release, hevents]

end Writer
end SeekableArchive
