import Mathlib
import SeekableArchive.Proofs.Completion
import SeekableArchive.Proofs.Coverage
import SeekableArchive.Proofs.StoredEngine

/-!
# Archives that are read back

Over a dependable engine and an accepting sink a run is clean under every large enough
limit, unless a frame does not fit the table.  If the engine is faithful to a decoder, the
decoder finds in the archive the segments of the writes.
-/

namespace SeekableArchive

open Filter

/-! ## Checking described frames -/

theorem checkFrame_of_describes {decode : Bytes → Except String Bytes} {checksums : Bool}
    {entry : FrameEntry} {flow : Flow} (h : entry.Describes checksums flow)
    (hdecode : decode flow.given = .ok flow.taken) (index : Nat) :
    checkFrame decode index entry flow.given = .ok flow.taken := by
  simp only [checkFrame, hdecode, h.uncompressed, h.checksum]
  cases checksums <;> simp

theorem checkFrames_of_describes {decode : Bytes → Except String Bytes} {checksums : Bool}
    {entries : List FrameEntry} {ended : List Flow}
    (h : List.Forall₂ (FrameEntry.Describes checksums) entries ended)
    (hdecode : ∀ flow ∈ ended, decode flow.given = .ok flow.taken)
    (index : Nat) (rest : Bytes) (contents : List Bytes) :
    checkFrames decode index entries ((ended.map Flow.given).flatten ++ rest) contents =
      .ok (contents.reverse ++ ended.map Flow.taken) := by
  induction h generalizing index contents with
  | nil => simp [checkFrames]
  | @cons entry flow entries ended hentry hrest ih =>
      have hframe := checkFrame_of_describes hentry (hdecode flow (by simp)) index
      have hlater := ih (fun later hlater => hdecode later (by simp [hlater])) (index + 1)
        (flow.taken :: contents)
      have hfront : ((flow :: ended).map Flow.given).flatten ++ rest =
          flow.given ++ ((ended.map Flow.given).flatten ++ rest) := by
        simp
      rw [hfront]
      simp only [checkFrames, hentry.compressed, List.take_left, List.drop_left, hframe, hlater]
      simp

namespace CleanRun

variable {ε σ : Type} [Engine ε] [Sink σ] {config : Config} {engine : ε} {sink : σ}
  {limit : Nat} {writes : List Bytes} (run : CleanRun config engine sink limit writes)

/-- If nothing is left of an open frame and every frame decodes to what was taken in, the
archive decodes to the segments of the writes. -/
theorem decodeFramesWith_contents {decode : Bytes → Except String Bytes}
    (accepting : Sink.Accepting σ) (hopen : accepting.IsOpen sink)
    (hempty : accepting.contents sink = [])
    (hgiven : run.closed.journal.flows.current.given = [])
    (hdecode : ∀ flow ∈ run.closed.journal.flows.ended, decode flow.given = .ok flow.taken) :
    decodeFramesWith decode (accepting.contents run.closed.sink) =
      .ok (segments config.minFrameSize writes) := by
  have hlength := run.length_contents accepting hopen hempty
  have hcontents := run.contents_eq accepting hopen hempty
  rw [hgiven, List.length_nil, Nat.add_zero] at hlength
  rw [hgiven, List.append_nil] at hcontents
  have hparse := SeekTable.parse_append_encode _ run.closed.frameLog.bounded
    (run.closed.journal.flows.ended.map Flow.given).flatten
  have hcheck := checkFrames_of_describes run.sealed_closed.described hdecode 0
    run.closed.frameLog.table.encode []
  rw [← hcontents] at hparse hcheck
  simp only [decodeFramesWith, hparse]
  rw [if_neg (by omega), ← run.taken_ended_closed]
  exact hcheck

end CleanRun

namespace Writer

variable {ε σ : Type} [Engine ε] [Sink σ] {start : ε} {accepting : Sink.Accepting σ}
  {w w' : Writer ε σ} {decode : Bytes → Except String Bytes}

/-- A balanced writer over an open sink, in a session of its engine.  Of a frame that has
taken in nothing, nothing has been given out. -/
structure Steady (start : ε) (accepting : Sink.Accepting σ) (w : Writer ε σ) : Prop where
  balanced : w.Balanced
  session : Engine.Session start w.journal.flows w.engine
  mirrors : w.Mirrors accepting
  quiet : w.journal.flows.current.taken = [] → w.journal.flows.current.given = []
  chunk_pos : 0 < w.footerChunkSize
  chunk_reservable : Reservation.reserve w.footerChunkSize = .ok ()

theorem steady_within_iff {limit : Nat} :
    (w.within limit).Steady start accepting ↔ w.Steady start accepting :=
  ⟨fun h => ⟨balanced_within_iff.mp h.balanced, h.session, h.mirrors, h.quiet, h.chunk_pos,
    h.chunk_reservable⟩, fun h => ⟨balanced_within_iff.mpr h.balanced, h.session, h.mirrors,
    h.quiet, h.chunk_pos, h.chunk_reservable⟩⟩

theorem Steady.inSession (h : w.Steady start accepting) : w.InSession start :=
  ⟨h.balanced, h.session, h.quiet⟩

theorem Steady.ready (h : w.Steady start accepting) : w.Ready start accepting :=
  ⟨h.balanced, h.session, h.mirrors.1, h.chunk_pos, h.chunk_reservable⟩

theorem Steady.accepts {writes : List Bytes} (hfaithful : Engine.Faithful decode start)
    (h : w.Steady start accepting) (hw' : w'.Ready start accepting)
    (hrun : w.Accepts writes w') : w'.Steady start accepting := by
  have hsession := h.inSession.accepts hfaithful.quiet_calls hrun
  exact ⟨hw'.balanced, hw'.session, h.mirrors.accepts h.balanced hrun, hsession.quiet,
    hw'.chunk_pos, hw'.chunk_reservable⟩

theorem Steady.accepts_settles {writes : List Bytes} (hdependable : Engine.Dependable start)
    (hfaithful : Engine.Faithful decode start) (h : w.Steady start accepting)
    (hsizes : ∀ content ∈ w.journal.flows.destined w.minFrameSize writes,
      content.length ≤ maxFrameSize)
    (hcount : (w.journal.flows.destined w.minFrameSize writes).length ≤ maxFrames)
    (hfits : w.Fits writes) :
    ∃ w' : Writer ε σ, (∀ᶠ limit in atTop, (w.within limit).Accepts writes (w'.within limit)) ∧
      w'.Steady start accepting ∧ w'.Fits [] ∧ w'.minFrameSize = w.minFrameSize ∧
      w'.journal.flows.destined w.minFrameSize [] =
        w.journal.flows.destined w.minFrameSize writes := by
  obtain ⟨w', haccepts, hw', hrest⟩ := h.ready.accepts_settles hdependable hsizes hcount hfits
  obtain ⟨limit, hrun⟩ := haccepts.exists
  have hsteady := (steady_within_iff.mpr h).accepts hfaithful (ready_within_iff.mpr hw') hrun
  exact ⟨w', haccepts, steady_within_iff.mp hsteady, hrest⟩

theorem Steady.closes (hdependable : Engine.Dependable start) (h : w.Steady start accepting)
    (hsizes : ∀ content ∈ w.journal.flows.destined w.minFrameSize [],
      content.length ≤ maxFrameSize)
    (hcount : (w.journal.flows.destined w.minFrameSize []).length ≤ maxFrames)
    (hfits : w.Fits []) :
    ∀ᶠ limit in atTop, ∃ summary closed, (w.within limit).close = (.ok summary, closed) :=
  h.ready.closes hdependable hsizes hcount hfits

theorem steady_fresh {config : Config} {sink : σ} {j : Journal} {limit : Nat}
    (hvalid : config.Valid) (hfooter : Reservation.reserve config.footerChunkSize = .ok ())
    (hopen : accepting.IsOpen sink) (hempty : accepting.contents sink = [])
    (hflows : j.flows = {}) (hstored : j.stored = []) :
    (fresh config start sink j limit).Steady start accepting := by
  have hsession : (fresh config start sink j limit).InSession start :=
    inSession_fresh hflows hstored
  exact ⟨hsession.balanced, hsession.session, ⟨hopen, hempty.trans hstored.symm⟩,
    hsession.quiet, hvalid.chunk_pos, hfooter⟩

end Writer

namespace CleanRun

variable {ε σ : Type} [Engine ε] [Sink σ] {start : ε} {accepting : Sink.Accepting σ}
  {decode : Bytes → Except String Bytes} {config : Config} {engine : ε} {sink : σ}
  {limit : Nat} {writes : List Bytes} (run : CleanRun config engine sink limit writes)

theorem decodeFramesWith_of_steady (hfaithful : Engine.Faithful decode start)
    (h : run.written.Steady start accepting) (hopen : accepting.IsOpen sink)
    (hempty : accepting.contents sink = []) :
    decodeFramesWith decode (accepting.contents run.closed.sink) =
      .ok (segments config.minFrameSize writes) := by
  apply run.decodeFramesWith_contents accepting hopen hempty
  · exact run.given_closed h.inSession
  · obtain ⟨e, hsession⟩ := run.session_closed h.inSession
    exact hfaithful.decodes hsession

end CleanRun

/-- An archive is read back as the segments of the writes.  The configuration is valid, the
engine accepts its settings and is dependable and faithful to the decoder from then on, the
footer buffer can be reserved, and the sink is open, empty and accepts everything.  The
segments fit the table, and so does what the engine makes of them: in a run with a large
limit, no frame gets too long, be it ended or not.  Then, under every large enough limit,
opening, writing and closing succeed and the decoder gives back the segments. -/
theorem archive_round_trip {ε σ : Type} [Engine ε] [Sink σ] {config : Config}
    {engine configured : ε} {sink : σ} {writes : List Bytes}
    {decode : Bytes → Except String Bytes} (accepting : Sink.Accepting σ)
    (hvalid : config.validate = .ok ())
    (hfooter : Reservation.reserve config.footerChunkSize = .ok ())
    (hconfigured : Engine.Configured config.settings engine configured)
    (hdependable : Engine.Dependable configured)
    (hfaithful : Engine.Faithful decode configured)
    (hopen : accepting.IsOpen sink) (hempty : accepting.contents sink = [])
    (hsizes : ∀ segment ∈ segments config.minFrameSize writes, segment.length ≤ maxFrameSize)
    (hcount : (segments config.minFrameSize writes).length ≤ maxFrames)
    (hframes : ∀ᶠ limit in atTop, ∀ opened,
      Writer.openWith config (.ok engine) (.ok sink) limit = .ok opened →
        ∀ flow ∈ (opened.writeAll writes).2.close.2.journal.flows.all,
          flow.given.length ≤ maxFrameSize) :
    ∀ᶠ limit in atTop, ∃ run : CleanRun config engine sink limit writes,
      decodeFramesWith decode (accepting.contents run.closed.sink) =
        .ok (segments config.minFrameSize writes) ∧
      (segments config.minFrameSize writes).flatten = writes.flatten := by
  have hconfig := Config.validate_eq_ok_iff.mp hvalid
  obtain ⟨j, hflows, hstored, hopens⟩ :=
    Writer.openWith_of_configured sink hconfig hconfigured
  have hsteady : (Writer.fresh config configured sink j 0).Steady configured accepting :=
    Writer.steady_fresh hconfig hfooter hopen hempty hflows hstored
  have hfits : (Writer.fresh config configured sink j 0).Fits writes := by
    filter_upwards [hframes] with limit hsmall
    exact hsmall _ (hopens limit)
  have hdestined : (Writer.fresh config configured sink j 0).journal.flows.destined
      (Writer.fresh config configured sink j 0).minFrameSize writes =
        segments config.minFrameSize writes := by
    change j.flows.destined config.minFrameSize writes = _
    rw [hflows, Flows.destined_empty]
  rw [← hdestined] at hsizes hcount
  obtain ⟨w, haccepts, hw, hfits', hfloor, hlast⟩ :=
    hsteady.accepts_settles hdependable hfaithful hsizes hcount hfits
  rw [← hlast, ← hfloor] at hsizes hcount
  have hcloses := hw.closes hdependable hsizes hcount hfits'
  filter_upwards [haccepts, hcloses] with limit haccept hclose
  obtain ⟨summary, closed, hclose⟩ := hclose
  let run : CleanRun config engine sink limit writes :=
    ⟨_, _, closed, summary, hopens limit, haccept, hclose⟩
  have hread := run.decodeFramesWith_of_steady hfaithful (Writer.steady_within_iff.mpr hw) hopen
    hempty
  exact ⟨run, hread, flatten_segments _ _⟩

/-- What is known of the frames under every limit but zero bounds them in the end. -/
theorem eventually_frames_le {ε σ : Type} [Engine ε] [Sink σ] {config : Config} {engine : ε}
    {sink : σ} {frames : Writer ε σ → List Flow} {lengths : List Nat}
    (h : ∀ calls opened, Writer.openWith config (.ok engine) (.ok sink) (calls + 1) = .ok opened →
      (frames opened).map (fun flow => flow.given.length) = lengths)
    (hshort : ∀ length ∈ lengths, length ≤ maxFrameSize) :
    ∀ᶠ limit in atTop, ∀ opened,
      Writer.openWith config (.ok engine) (.ok sink) limit = .ok opened →
        ∀ flow ∈ frames opened, flow.given.length ≤ maxFrameSize := by
  filter_upwards [eventually_ge_atTop 1] with limit hlimit opened hopened flow hflow
  obtain ⟨calls, rfl⟩ := Nat.exists_eq_add_of_le' hlimit
  have hlength := List.mem_map_of_mem (f := fun flow => flow.given.length) hflow
  rw [h calls opened hopened] at hlength
  exact hshort _ hlength

def Zstd.StoredEngine.sampleConfig : Config where
  minFrameSize := 2
  checksums := true

/-- Three writes in two stored frames; the empty one begins the second. -/
theorem stored_archive_round_trip :
    ∀ᶠ limit in atTop, ∃ run : CleanRun Zstd.StoredEngine.sampleConfig
        ({} : Zstd.StoredEngine) ({} : MemorySink) limit [[1, 2], [], [3]],
      decodeFrames (MemorySink.accepting.contents run.closed.sink) = .ok [[1, 2], [3]] := by
  have hlengths (calls : Nat) (opened : Writer Zstd.StoredEngine MemorySink)
      (hopened : Writer.openWith Zstd.StoredEngine.sampleConfig (.ok {}) (.ok {}) (calls + 1) =
        .ok opened) : (opened.writeAll [[1, 2], [], [3]]).2.close.2.journal.flows.all.map
          (fun flow => flow.given.length) = [11, 10, 0] := by
    cases hopened
    cbv
  have hframes := eventually_frames_le hlengths (by decide)
  have hopen : MemorySink.accepting.IsOpen {} := rfl
  have hchunk : Reservation.reserve Zstd.StoredEngine.sampleConfig.footerChunkSize = .ok () :=
    Reservation.reserve_eq_ok_iff.mpr (by decide)
  have hround := archive_round_trip MemorySink.accepting rfl hchunk
    (.set rfl (.set rfl (.set rfl .done))) (Zstd.StoredEngine.dependable rfl)
    (Zstd.StoredEngine.faithful rfl) hopen rfl (by decide) (by decide) hframes
  filter_upwards [hround] with limit hrun
  obtain ⟨run, hdecode, -⟩ := hrun
  exact ⟨run, hdecode⟩

end SeekableArchive
