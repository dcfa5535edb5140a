import SeekableArchive.Proofs.Completion
import SeekableArchive.Proofs.TerseEngine

/-!
# Frames that the table can record

The floor is soft.  A frame that has not reached it takes in a whole write more, so a frame
may hold more than the table can state, although the floor and every write are within that
limit.  The frame log refuses such a frame when it ends, and this is all that can go wrong
over a dependable engine and a sink that accepts everything.
-/

namespace SeekableArchive

open Filter

namespace Writer

variable {ε σ : Type} [Engine ε] [Sink σ] {start : ε} {accepting : Sink.Accepting σ}
  {w w' : Writer ε σ}

/-- What the writes answer, and what the close answers after them. -/
def answers (w : Writer ε σ) (writes : List Bytes) : List (Except Halt Unit) :=
  (w.writeAll writes).1 ++ [(w.writeAll writes).2.close.1.map fun _ => ()]

theorem answers_nil : w.answers [] = [w.close.1.map fun _ => ()] := rfl

theorem answers_cons {data : Bytes} {writes : List Bytes} :
    w.answers (data :: writes) = (w.write data).1 :: (w.write data).2.answers writes := rfl

theorem answers_of_accepts {writes : List Bytes} {summary : Summary} {closed : Writer ε σ}
    (haccepts : w.Accepts writes w') (hclose : w'.close = (.ok summary, closed)) :
    w.answers writes = List.replicate (writes.length + 1) (.ok ()) := by
  rw [Accepts] at haccepts
  rw [answers, haccepts, hclose, List.replicate_succ']
  rfl

/-! ## Frames that are refused -/

/-- What the frame log answers about a frame that has taken in more than it can state. -/
def tooLarge (size : Nat) : Halt :=
  .failed (.frameLog (RecordFault.uncompressedTooLarge size).message)

theorem Ready.endFrameIf_fails {p : Prop} [Decidable p] (hdependable : Engine.Dependable start)
    (h : w.Ready start accepting) (hp : p) (hframes : w.frames < maxFrames)
    (hlong : maxFrameSize < w.pendingUncompressed)
    (hmoderate : Action.Moderate (Action.endFrameIf p) w) :
    ∀ᶠ limit in atTop, ∃ v, Action.endFrameIf p (w.within limit) =
      .error (tooLarge w.pendingUncompressed) v := by
  rw [Action.endFrameIf, if_pos hp] at hmoderate ⊢
  rcases h.endFrame_settles_or_fails hdependable hframes hmoderate with ⟨hshort, -⟩ | ⟨-, hfails⟩
  · omega
  · exact hfails

theorem Ready.write_fails {data : Bytes} (hdependable : Engine.Dependable start)
    (h : w.Ready start accepting) (hfull : w.minFrameSize ≤ w.pendingUncompressed)
    (hframes : w.frames < maxFrames) (hlong : maxFrameSize < w.pendingUncompressed)
    (hmoderate : Action.Moderate (Action.accept data) w) :
    ∀ᶠ limit in atTop,
      ((w.within limit).write data).1 = .error (tooLarge w.pendingUncompressed) := by
  replace hmoderate : Action.Moderate (Action.endFrameIf (w.minFrameSize ≤ w.pendingUncompressed)
      >>= fun _ => Action.takeIn data) w :=
    hmoderate.of_run_eq fun limit => (Action.run_accept data (w.within limit)).symm
  filter_upwards [h.endFrameIf_fails hdependable hfull hframes hlong hmoderate.left]
    with limit hfails
  obtain ⟨v, hend⟩ := hfails
  have haccept : Action.accept data (w.within limit) =
      .error (tooLarge w.pendingUncompressed) v := by
    rw [Action.run_accept]
    exact Action.bind_eq_of_error hend
  have husable : (w.within limit).status = .usable := h.balanced.usable
  simp only [write, husable, haccept, tooLarge]

theorem Ready.close_fails (hdependable : Engine.Dependable start) (h : w.Ready start accepting)
    (hframes : w.frames < maxFrames) (hlong : maxFrameSize < w.pendingUncompressed)
    (hmoderate : Action.Moderate Action.complete w) :
    ∀ᶠ limit in atTop,
      (w.within limit).close.1 = .error (tooLarge w.pendingUncompressed) := by
  have hpending : 0 < w.pendingUncompressed := by omega
  replace hmoderate : Action.Moderate (Action.endFrameIf (0 < w.pendingUncompressed)
      >>= fun _ => Action.writeTable) w :=
    hmoderate.of_run_eq fun limit => (Action.run_complete (w.within limit)).symm
  filter_upwards [h.endFrameIf_fails hdependable hpending hframes hlong hmoderate.left]
    with limit hfails
  obtain ⟨v, hend⟩ := hfails
  have hcomplete : Action.complete (w.within limit) =
      .error (tooLarge w.pendingUncompressed) v := by
    rw [Action.run_complete]
    exact Action.bind_eq_of_error hend
  have husable : (w.within limit).status = .usable := h.balanced.usable
  simp only [close, husable, hcomplete, tooLarge]

/-! ## Runs -/

omit [Engine ε] [Sink σ] in
/-- What has been recorded is not too long, so the first content that is comes later. -/
theorem Balanced.find_destined (h : w.Balanced) (floor : Nat) (writes : List Bytes) :
    (w.journal.flows.destined floor writes).find? (fun content => maxFrameSize < content.length) =
      (segmentsFrom floor w.journal.flows.current.taken writes).find?
        fun content => maxFrameSize < content.length := by
  have hrecorded : (w.journal.flows.ended.map Flow.taken).find?
      (fun content => maxFrameSize < content.length) = none := by
    rw [List.find?_eq_none]
    intro content hcontent
    have hsizes := h.described.uncompressedSizes
    have hlength : content.length ∈ w.journal.flows.ended.map fun flow => flow.taken.length := by
      obtain ⟨flow, hflow, rfl⟩ := List.mem_map.mp hcontent
      exact List.mem_map_of_mem hflow
    rw [← hsizes] at hlength
    obtain ⟨entry, -, hentry⟩ := List.mem_map.mp hlength
    have hbound := entry.uncompressedSize.toNat_lt
    rw [decide_eq_true_eq, maxFrameSize]
    omega
  rw [Flows.destined, List.find?_append, hrecorded, Option.none_or]

/-- All goes well until the first content that is too long fills the open frame; what comes
next is to end that frame, and fails. -/
theorem Ready.refuses {writes : List Bytes} {long : Bytes}
    (hdependable : Engine.Dependable start) (h : w.Ready start accepting)
    (hcount : (w.journal.flows.destined w.minFrameSize writes).length ≤ maxFrames)
    (hfits : w.Fits writes)
    (hlong : (w.journal.flows.destined w.minFrameSize writes).find?
      (fun content => maxFrameSize < content.length) = some long) :
    ∀ᶠ limit in atTop, ∃ front back later, writes = front ++ back ∧
      ((w.within limit).writeAll front).2.pendingUncompressed = long.length ∧
      (w.within limit).answers writes =
        List.replicate front.length (.ok ()) ++ .error (tooLarge long.length) :: later := by
  induction writes generalizing w with
  | nil =>
      have husable := h.balanced.usable
      rw [h.balanced.find_destined, segmentsFrom] at hlong
      split at hlong
      · cases hlong
      · have hover : maxFrameSize < long.length := by simpa using List.find?_some hlong
        obtain rfl := List.mem_singleton.mp (List.mem_of_find?_eq_some hlong)
        rw [← h.balanced.uncompressed] at hover ⊢
        have hframes := h.balanced.frames_lt (h.balanced.destined_of_open (by omega) _) hcount
        filter_upwards [h.close_fails hdependable hframes hover (hfits.moderate_complete husable)]
          with limit hclose
        exact ⟨[], [], [], rfl, rfl, by rw [answers_nil, hclose]; rfl⟩
  | cons data writes ih =>
      have husable := h.balanced.usable
      have hmoderate := hfits.moderate_accept husable
      have hframes (hfull : w.minFrameSize ≤ w.pendingUncompressed) : w.frames < maxFrames :=
        h.balanced.frames_lt (h.balanced.destined_of_full hfull data writes) hcount
      -- Either this write is to end a frame that is too long, or it succeeds and what the
      -- writes are destined for stays the same behind it.
      by_cases hover : w.minFrameSize ≤ w.pendingUncompressed ∧ maxFrameSize < w.pendingUncompressed
      · obtain ⟨hfull, hover⟩ := hover
        have hpending : w.pendingUncompressed = long.length := by
          rw [h.balanced.find_destined, segmentsFrom, ← h.balanced.uncompressed, if_pos hfull,
            List.find?_cons_of_pos (by simpa [← h.balanced.uncompressed] using hover)] at hlong
          rw [h.balanced.uncompressed, Option.some.inj hlong]
        filter_upwards [h.write_fails hdependable hfull (hframes hfull) hover hmoderate]
          with limit hwrite
        refine ⟨[], data :: writes, ((w.within limit).write data).2.answers writes, rfl,
          hpending, ?_⟩
        rw [answers_cons, hwrite, hpending]
        rfl
      · obtain ⟨v, hsettles, hv⟩ := h.accept_settles hdependable hframes (by omega) hmoderate
        obtain ⟨hfloor, hdestined⟩ := h.balanced.destined_settles hsettles
        rw [← hdestined writes, ← hfloor] at hlong hcount
        filter_upwards [hsettles, ih hv hcount (hfits.accept husable hsettles) hlong]
          with limit hfirst hrest
        obtain ⟨front, back, later, rfl, hpending, hrest⟩ := hrest
        have hwrite := write_of_accept (w := w.within limit) husable hfirst
        refine ⟨data :: front, back, later, rfl, ?_, ?_⟩
        · rw [writeAll, hwrite]
          exact hpending
        · rw [answers_cons, hwrite, hrest]
          rfl

omit [Engine ε] [Sink σ] in
theorem replicate_ok_ne {count accepted : Nat} {halt : Halt} {later : List (Except Halt Unit)} :
    List.replicate accepted (.ok ()) ++ .error halt :: later ≠ List.replicate count (.ok ()) := by
  intro h
  have hmem : Except.error halt ∈ List.replicate count (Except.ok () : Except Halt Unit) :=
    h ▸ List.mem_append_right _ List.mem_cons_self
  cases (List.mem_replicate.mp hmem).2

theorem ready_fresh {config : Config} {sink : σ} {j : Journal} {limit : Nat}
    (hvalid : config.Valid) (hfooter : Reservation.reserve config.footerChunkSize = .ok ())
    (hopen : accepting.IsOpen sink) (hflows : j.flows = {}) (hstored : j.stored = []) :
    (fresh config start sink j limit).Ready start accepting := by
  have hsession : (fresh config start sink j limit).InSession start :=
    inSession_fresh hflows hstored
  exact ⟨hsession.balanced, hsession.session, hopen, hvalid.chunk_pos, hfooter⟩

omit [Engine ε] [Sink σ] in
theorem destined_fresh {config : Config} {sink : σ} {j : Journal} {limit : Nat}
    (hflows : j.flows = {}) (writes : List Bytes) :
    (fresh config start sink j limit).journal.flows.destined
      (fresh config start sink j limit).minFrameSize writes =
        segments config.minFrameSize writes := by
  change j.flows.destined config.minFrameSize writes = _
  rw [hflows, Flows.destined_empty]

theorem Ready.records {writes : List Bytes} (hdependable : Engine.Dependable start)
    (h : w.Ready start accepting)
    (hsizes : ∀ content ∈ w.journal.flows.destined w.minFrameSize writes,
      content.length ≤ maxFrameSize)
    (hcount : (w.journal.flows.destined w.minFrameSize writes).length ≤ maxFrames)
    (hfits : w.Fits writes) :
    ∀ᶠ limit in atTop, (w.within limit).answers writes =
      List.replicate (writes.length + 1) (.ok ()) := by
  obtain ⟨w', haccepts, hw', hfits', hfloor, hlast⟩ :=
    h.accepts_settles hdependable hsizes hcount hfits
  rw [← hlast, ← hfloor] at hsizes hcount
  filter_upwards [haccepts, hw'.closes hdependable hsizes hcount hfits'] with limit haccept hclose
  obtain ⟨summary, closed, hclose⟩ := hclose
  exact answers_of_accepts haccept hclose

end Writer

/-- Over a dependable engine and an accepting sink, writes that fit the table make a clean run
under every large enough limit. -/
theorem CleanRun.eventually_ready {ε σ : Type} [Engine ε] [Sink σ] {config : Config}
    {engine configured : ε} {sink : σ} {writes : List Bytes} (accepting : Sink.Accepting σ)
    (hvalid : config.validate = .ok ())
    (hfooter : Reservation.reserve config.footerChunkSize = .ok ())
    (hconfigured : Engine.Configured config.settings engine configured)
    (hdependable : Engine.Dependable configured) (hopen : accepting.IsOpen sink)
    (hsizes : ∀ segment ∈ segments config.minFrameSize writes, segment.length ≤ maxFrameSize)
    (hcount : (segments config.minFrameSize writes).length ≤ maxFrames)
    (hframes : ∀ᶠ limit in atTop, ∀ opened,
      Writer.openWith config (.ok engine) (.ok sink) limit = .ok opened →
        ∀ flow ∈ (opened.writeAll writes).2.close.2.journal.flows.all,
          flow.given.length ≤ maxFrameSize) :
    ∀ᶠ limit in atTop, ∃ run : CleanRun config engine sink limit writes,
      run.written.Ready configured accepting := by
  have hconfig := Config.validate_eq_ok_iff.mp hvalid
  obtain ⟨j, hflows, hstored, hopens⟩ := Writer.openWith_of_configured sink hconfig hconfigured
  have hready : (Writer.fresh config configured sink j 0).Ready configured accepting :=
    Writer.ready_fresh hconfig hfooter hopen hflows hstored
  have hfits : (Writer.fresh config configured sink j 0).Fits writes := by
    filter_upwards [hframes] with limit hsmall
    exact hsmall _ (hopens limit)
  have hdestined : (Writer.fresh config configured sink j 0).journal.flows.destined
      (Writer.fresh config configured sink j 0).minFrameSize writes =
        segments config.minFrameSize writes := Writer.destined_fresh hflows writes
  rw [← hdestined] at hsizes hcount
  obtain ⟨w, haccepts, hw, hfits', hfloor, hlast⟩ :=
    hready.accepts_settles hdependable hsizes hcount hfits
  rw [← hlast, ← hfloor] at hsizes hcount
  have hcloses := hw.closes hdependable hsizes hcount hfits'
  filter_upwards [haccepts, hcloses] with limit haccept hclose
  obtain ⟨summary, closed, hclose⟩ := hclose
  exact ⟨⟨_, _, closed, summary, hopens limit, haccept, hclose⟩, Writer.ready_within_iff.mpr hw⟩

namespace Writer

variable {ε σ : Type} [Engine ε] [Sink σ]

/-- Accepted data is recorded as long as the writes that share a frame fit the table
together.  The configuration is valid, the engine accepts its settings and is dependable from
then on, the footer buffer can be reserved, and the sink is open and accepts everything.
There are fewer writes than the table has room for frames, and what the engine makes of a
frame fits the table.  Then, under every large enough limit, all writes and the close succeed
exactly if no segment of the writes is longer than the table can state; and none is if the
floor, less one byte, and the longest write stay within that together.  If there is a longer
segment, the operation that ends the first one fails.  Exactly the writes before it succeed,
they leave that whole segment pending, and the frame log refuses it by its length. -/
theorem accepted_data_is_recorded {config : Config} {engine configured : ε} {sink : σ}
    {writes : List Bytes} (accepting : Sink.Accepting σ) (hvalid : config.validate = .ok ())
    (hfooter : Reservation.reserve config.footerChunkSize = .ok ())
    (hconfigured : Engine.Configured config.settings engine configured)
    (hdependable : Engine.Dependable configured) (hopen : accepting.IsOpen sink)
    (hcount : writes.length < maxFrames)
    (hframes : ∀ᶠ limit in atTop, ∀ opened,
      openWith config (.ok engine) (.ok sink) limit = .ok opened →
        ∀ flow ∈ (opened.writeAll writes).2.close.2.journal.flows.all,
          flow.given.length ≤ maxFrameSize) :
    ∀ᶠ limit in atTop, ∃ opened,
      openWith config (.ok engine) (.ok sink) limit = .ok opened ∧
      (opened.answers writes = List.replicate (writes.length + 1) (.ok ()) ↔
        ∀ segment ∈ segments config.minFrameSize writes, segment.length ≤ maxFrameSize) ∧
      ((∀ data ∈ writes, config.minFrameSize - 1 + data.length ≤ maxFrameSize) →
        opened.answers writes = List.replicate (writes.length + 1) (.ok ())) ∧
      ∀ long, (segments config.minFrameSize writes).find?
          (fun segment => maxFrameSize < segment.length) = some long →
        ∃ front back later, writes = front ++ back ∧
          (opened.writeAll front).2.pendingUncompressed = long.length ∧
          opened.answers writes = List.replicate front.length (.ok ()) ++
            .error (.failed (.frameLog (RecordFault.uncompressedTooLarge long.length).message)) ::
              later := by
  have hconfig := Config.validate_eq_ok_iff.mp hvalid
  obtain ⟨j, hflows, hstored, hopens⟩ := openWith_of_configured sink hconfig hconfigured
  have hready : (fresh config configured sink j 0).Ready configured accepting :=
    ready_fresh hconfig hfooter hopen hflows hstored
  have hfits : (fresh config configured sink j 0).Fits writes := by
    filter_upwards [hframes] with limit hsmall
    exact hsmall _ (hopens limit)
  have hdestined : (fresh config configured sink j 0).journal.flows.destined
      (fresh config configured sink j 0).minFrameSize writes =
        segments config.minFrameSize writes := destined_fresh hflows writes
  have hroom : ((fresh config configured sink j 0).journal.flows.destined
      (fresh config configured sink j 0).minFrameSize writes).length ≤ maxFrames := by
    rw [hdestined]
    exact (length_segments_le hconfig.floor_pos writes).trans hcount.le
  have hbound (hwrites : ∀ data ∈ writes, config.minFrameSize - 1 + data.length ≤ maxFrameSize) :
      ∀ segment ∈ segments config.minFrameSize writes, segment.length ≤ maxFrameSize :=
    fun segment hsegment => length_le_of_mem_segmentsFrom (Nat.zero_le _) hwrites hsegment
  cases hlong : (segments config.minFrameSize writes).find?
      fun segment => maxFrameSize < segment.length with
  | none =>
      have hsizes : ∀ segment ∈ segments config.minFrameSize writes,
          segment.length ≤ maxFrameSize := by
        simpa using hlong
      filter_upwards [hready.records hdependable (by rwa [hdestined]) hroom hfits]
        with limit hanswers
      exact ⟨_, hopens limit, iff_of_true hanswers hsizes, fun _ => hanswers, by simp⟩
  | some long =>
      have hover : maxFrameSize < long.length := by simpa using List.find?_some hlong
      have hsizes : ¬ ∀ segment ∈ segments config.minFrameSize writes,
          segment.length ≤ maxFrameSize := fun hall =>
        Nat.not_le.mpr hover (hall long (List.mem_of_find?_eq_some hlong))
      filter_upwards [hready.refuses hdependable hroom hfits (by rwa [hdestined])]
        with limit hanswers
      obtain ⟨front, back, later, hwhole, hpending, hanswers⟩ := hanswers
      refine ⟨_, hopens limit,
        iff_of_false (fun hall => replicate_ok_ne (hanswers.symm.trans hall)) hsizes,
        fun hwrites => absurd (hbound hwrites) hsizes, fun first hfirst => ?_⟩
      cases hfirst
      exact ⟨front, back, later, hwhole, hpending, hanswers⟩

/-- A frame is as long as the table can state: the floor, less one byte, and the longest write
make up that limit together. -/
theorem longest_frame_is_recorded :
    ∀ᶠ limit in atTop, ∃ opened : Writer TerseEngine MemorySink,
      openWith TerseEngine.config (.ok {}) (.ok {}) limit = .ok opened ∧
      opened.answers (TerseEngine.writes (maxFrameSize - 1)) = [.ok (), .ok (), .ok ()] := by
  have hchunk : Reservation.reserve TerseEngine.config.footerChunkSize = .ok () :=
    Reservation.reserve_eq_ok_iff.mpr (by decide)
  have hopen : MemorySink.accepting.IsOpen {} := rfl
  have hcount : (TerseEngine.writes (maxFrameSize - 1)).length < maxFrames := by
    simp [TerseEngine.writes, maxFrames]
  have hrecorded := accepted_data_is_recorded MemorySink.accepting rfl hchunk
    TerseEngine.configured (TerseEngine.dependable {}) hopen hcount
    (Eventually.of_forall fun _ _ hopened => TerseEngine.frames_short hopened _)
  filter_upwards [hrecorded] with limit hrun
  obtain ⟨opened, hopens, -, hfits, -⟩ := hrun
  refine ⟨opened, hopens, hfits fun data hdata => ?_⟩
  rcases List.mem_pair.mp hdata with rfl | rfl
  · decide
  · rw [List.length_replicate]
    decide

/-- Floor and writes are within the limit of the table, yet together they exceed it: both
writes are accepted, and the close is refused. -/
theorem accepted_data_is_refused :
    TerseEngine.config.validate = .ok () ∧
      Reservation.reserve TerseEngine.config.footerChunkSize = .ok () ∧
      Engine.Configured TerseEngine.config.settings ({} : TerseEngine) {} ∧
      Engine.RespectsBuffers TerseEngine ∧ Engine.Dependable ({} : TerseEngine) ∧
      (∀ data ∈ TerseEngine.writes maxFrameSize, data.length ≤ maxFrameSize) ∧
      (TerseEngine.writes maxFrameSize).length < maxFrames ∧
      ∀ limit, ∃ opened w : Writer TerseEngine MemorySink,
        openWith TerseEngine.config (.ok {}) (.ok {}) (limit + 1) = .ok opened ∧
        opened.writeAll (TerseEngine.writes maxFrameSize) = ([.ok (), .ok ()], w) ∧
        w.close.1 =
          .error (.failed (.frameLog "uncompressed frame size 4294967296 exceeds u32")) ∧
        ∀ flow ∈ w.close.2.journal.flows.all, flow.given.length ≤ maxFrameSize := by
  refine ⟨rfl, Reservation.reserve_eq_ok_iff.mpr (by decide), TerseEngine.configured,
    TerseEngine.respectsBuffers, TerseEngine.dependable {}, fun data hdata => ?_, ?_,
    fun limit => ?_⟩
  · rcases List.mem_pair.mp hdata with rfl | rfl
    · decide
    · rw [List.length_replicate]
  · simp [TerseEngine.writes, maxFrames]
  · obtain ⟨opened, w, hopens, hrun, hclose⟩ :=
      TerseEngine.run_of_long (List.length_replicate (a := 0)) limit
    have hshort := TerseEngine.frames_short hopens (TerseEngine.writes maxFrameSize)
    refine ⟨opened, w, hopens, hrun, hclose, ?_⟩
    rw [TerseEngine.writes, hrun] at hshort
    exact hshort

end Writer

end SeekableArchive
