import SeekableArchive.Proofs.Accounting
import SeekableArchive.Proofs.CompleteFrames
import SeekableArchive.Proofs.InSession
import SeekableArchive.Proofs.StoredEngine
import SeekableArchive.Proofs.TableGrammar
import SeekableArchive.Verification

/-!
# Archives that have been cut off

An archive is a sequence of complete frames, of which the table is the last.  What is left
of it when it is cut off may end in bytes that look like a table.  If it verified, then it
would be a sequence of complete frames itself, hence a shorter one, and its last frame
would be a frame of the engine.  But no frame of the engine begins like a table.
-/

namespace SeekableArchive

open LittleEndian

theorem decode_of_checkFrame {decode : Bytes → Except String Bytes} {index : Nat}
    {entry : FrameEntry} {frame content : Bytes}
    (h : checkFrame decode index entry frame = .ok content) : decode frame = .ok content := by
  rw [checkFrame] at h
  cases hdecode : decode frame with
  | error text => simp [hdecode] at h
  | ok decoded =>
      simp only [hdecode] at h
      split at h
      · cases h
      · split at h
        · cases h
          rfl
        · split at h
          · cases h
          · cases h
            rfl

/-- The first byte tells a table from a compressed frame. -/
theorem SeekTable.not_begins_encode (t : SeekTable) :
    ¬ [0x28, 0xB5, 0x2F, 0xFD] <+: t.encode := by
  have hmagic : word Magic.skippable.word = [0x5E, 0x2A, 0x4D, 0x18] := by decide
  rw [encode_eq, hmagic, List.cons_append, List.cons_prefix_cons]
  rintro ⟨hfirst, -⟩
  exact absurd hfirst (by decide)

/-! ## Formats -/

/-- A decoder takes complete frames only, at least one.  No complete frame is the beginning
of another one, and a frame that begins like a table is complete if it has the size that it
states. -/
structure Framing (decode : Bytes → Except String Bytes) (Complete : Bytes → Prop) : Prop where
  accepts {bs content : Bytes} : decode bs = .ok content →
    ∃ frames : List Bytes,
      frames ≠ [] ∧ (∀ frame ∈ frames, Complete frame) ∧ frames.flatten = bs
  eq_of_isPrefix {frame frame' : Bytes} :
    Complete frame → Complete frame' → frame <+: frame' → frame = frame'
  skippable {size : UInt32} {payload : Bytes} :
    Complete (word Magic.skippable.word ++ (word size ++ payload)) ↔
      payload.length = size.toNat

namespace Framing

variable {decode : Bytes → Except String Bytes} {Complete : Bytes → Prop}

theorem ne_nil (h : Framing decode Complete) {frame : Bytes} (hframe : Complete frame) :
    frame ≠ [] := by
  rintro rfl
  have hskipped : Complete (word Magic.skippable.word ++ (word 0 ++ [])) :=
    h.skippable.mpr rfl
  have hnothing := h.eq_of_isPrefix hframe hskipped List.nil_prefix
  cases hnothing

/-- Complete frames can be told apart: a sequence of them that begins with the bytes of
another one begins with its frames. -/
theorem isPrefix_of_flatten (h : Framing decode Complete) {frames frames' : List Bytes}
    (hframes : ∀ frame ∈ frames, Complete frame) (hframes' : ∀ frame ∈ frames', Complete frame)
    (hbegins : frames.flatten <+: frames'.flatten) : frames <+: frames' := by
  induction frames generalizing frames' with
  | nil => exact List.nil_prefix
  | cons frame frames ih =>
      have hframe := hframes frame (List.mem_cons_self ..)
      cases frames' with
      | nil =>
          rw [List.flatten_nil, List.prefix_nil, List.flatten_cons,
            List.append_eq_nil_iff] at hbegins
          exact absurd hbegins.1 (h.ne_nil hframe)
      | cons frame' frames' =>
          have hframe' := hframes' frame' (List.mem_cons_self ..)
          rw [List.flatten_cons, List.flatten_cons] at hbegins
          have hfront : frame <+: frame' ++ frames'.flatten :=
            (List.prefix_append frame frames.flatten).trans hbegins
          -- Both frames begin the same bytes, so one of them begins the other.
          have hsame : frame = frame' := by
            rcases List.prefix_or_prefix_of_prefix hfront (List.prefix_append _ _) with hle | hge
            · exact h.eq_of_isPrefix hframe hframe' hle
            · exact (h.eq_of_isPrefix hframe' hframe hge).symm
          subst hsame
          rw [List.prefix_append_right_inj] at hbegins
          have hrest := ih (fun f hf => hframes f (List.mem_cons_of_mem _ hf))
            (fun f hf => hframes' f (List.mem_cons_of_mem _ hf)) hbegins
          exact List.cons_prefix_cons.mpr ⟨rfl, hrest⟩

theorem complete_encode (h : Framing decode Complete) {t : SeekTable}
    (hfits : t.encodedSize - SeekTable.headerSize ≤ maxFrameSize) : Complete t.encode := by
  obtain ⟨size, payload, hencode, hlength⟩ := SeekTable.exists_encode_eq hfits
  rw [hencode]
  exact h.skippable.mpr hlength

theorem complete_of_checkFrames (h : Framing decode Complete) {index : Nat}
    {entries : List FrameEntry} {body : Bytes} {earlier contents : List Bytes}
    (hcheck : checkFrames decode index entries body earlier = .ok contents) :
    ∃ frames : List Bytes, (∀ frame ∈ frames, Complete frame) ∧ frames.flatten =
      body.take (entries.map fun entry => entry.compressedSize.toNat).sum := by
  induction entries generalizing index body earlier with
  | nil => exact ⟨[], by simp, by simp⟩
  | cons entry entries ih =>
      rw [checkFrames] at hcheck
      cases hfirst : checkFrame decode index entry (body.take entry.compressedSize.toNat) with
      | error defect => simp [hfirst] at hcheck
      | ok content =>
          simp only [hfirst] at hcheck
          obtain ⟨front, -, hfront, hflatten⟩ := h.accepts (decode_of_checkFrame hfirst)
          obtain ⟨rest, hrest, hflatten'⟩ := ih hcheck
          refine ⟨front ++ rest, List.forall_mem_append.mpr ⟨hfront, hrest⟩, ?_⟩
          rw [List.flatten_append, hflatten, hflatten', List.map_cons, List.sum_cons,
            List.take_add]

/-- An archive that verifies is a sequence of complete frames, the last of which is a table. -/
theorem complete_of_decodeFrames (h : Framing decode Complete) {archive : Bytes}
    {contents : List Bytes} (hverified : decodeFramesWith decode archive = .ok contents) :
    ∃ (frames : List Bytes) (table : SeekTable),
      (∀ frame ∈ frames ++ [table.encode], Complete frame) ∧
        archive = (frames ++ [table.encode]).flatten := by
  rw [decodeFramesWith] at hverified
  cases hparse : SeekTable.parse archive with
  | error defect => simp [hparse] at hverified
  | ok table =>
      simp only [hparse] at hverified
      split at hverified
      · cases hverified
      · rename_i hcovered
        obtain ⟨hlong, hfits, hend⟩ := SeekTable.drop_eq_encode_of_parse hparse
        obtain ⟨frames, hframes, hflatten⟩ := h.complete_of_checkFrames hverified
        have hbody : frames.flatten = archive.take (archive.length - table.encodedSize) := by
          rw [hflatten, ← Decidable.not_not.mp hcovered]
          rfl
        refine ⟨frames, table, ?_, ?_⟩
        · exact List.forall_mem_append.mpr
            ⟨hframes, List.forall_mem_singleton.mpr (h.complete_encode hfits)⟩
        · rw [List.flatten_append, List.flatten_singleton, hbody, ← hend, List.take_append_drop]

/-- A sequence of frames that ends in a table does not begin another one, unless the other
one has a frame that is a table before its last. -/
theorem flatten_eq_of_isPrefix (h : Framing decode Complete) {frames frames' : List Bytes}
    {table table' : SeekTable} (hframes : ∀ frame ∈ frames ++ [table.encode], Complete frame)
    (hframes' : ∀ frame ∈ frames' ++ [table'.encode], Complete frame)
    (hcompressed : ∀ frame ∈ frames', [0x28, 0xB5, 0x2F, 0xFD] <+: frame)
    (hbegins : (frames ++ [table.encode]).flatten <+: (frames' ++ [table'.encode]).flatten) :
    (frames ++ [table.encode]).flatten = (frames' ++ [table'.encode]).flatten := by
  rcases List.prefix_concat_iff.mp (h.isPrefix_of_flatten hframes hframes' hbegins) with
    hsame | hshorter
  · exact congrArg List.flatten hsame
  · have hmem : table.encode ∈ frames' :=
      hshorter.subset (List.mem_append_right _ (List.mem_singleton_self _))
    exact absurd (hcompressed _ hmem) table.not_begins_encode

end Framing

/-- Every frame that the engine ends is complete and begins with the magic of a compressed
frame, and no frame is begun without input. -/
structure Engine.Framed {ε : Type} [Engine ε] (Complete : Bytes → Prop) (start : ε) : Prop where
  complete {flows : Flows} {e : ε} :
    Session start flows e → ∀ flow ∈ flows.ended, Complete flow.given
  begins {flows : Flows} {e : ε} :
    Session start flows e → ∀ flow ∈ flows.ended, [0x28, 0xB5, 0x2F, 0xFD] <+: flow.given
  quiet : Quiet start

/-! ## Archives -/

namespace CleanRun

variable {ε σ : Type} [Engine ε] [Sink σ] {config : Config} {engine configured : ε} {sink : σ}
  {limit : Nat} {writes : List Bytes} (run : CleanRun config engine sink limit writes)
  {decode : Bytes → Except String Bytes} {Complete : Bytes → Prop}

theorem contents_eq_frames (appending : Sink.Appending σ) (hempty : appending.contents sink = [])
    (hwritten : run.written.InSession configured) :
    appending.contents run.closed.sink = (run.closed.journal.flows.ended.map Flow.given ++
      [run.closed.frameLog.table.encode]).flatten := by
  rw [(run.whole_closed hempty).contents, run.sealed_closed.stored, Flows.given,
    run.given_closed hwritten, List.append_nil, List.flatten_append, List.flatten_singleton]

theorem size_fits_closed :
    run.closed.frameLog.table.encodedSize - SeekTable.headerSize ≤ maxFrameSize :=
  Nat.le_trans (Nat.sub_le _ _) (SeekTable.encodedSize_bound _ run.closed.frameLog.bounded)

theorem rejects_cut (appending : Sink.Appending σ) (hempty : appending.contents sink = [])
    (hframing : Framing decode Complete)
    (hconfigured : Engine.Configured config.settings engine configured)
    (hframed : Engine.Framed Complete configured) {cut : Bytes}
    (hcut : cut <+: appending.contents run.closed.sink)
    (hproper : cut ≠ appending.contents run.closed.sink) :
    ∃ defect, decodeFramesWith decode cut = .error defect := by
  have hwritten := run.inSession_written hconfigured hframed.quiet
  obtain ⟨e, hsession⟩ := run.session_closed hwritten
  have hcomplete : ∀ frame ∈ run.closed.journal.flows.ended.map Flow.given, Complete frame :=
    List.forall_mem_map.mpr (hframed.complete hsession)
  have hcompressed : ∀ frame ∈ run.closed.journal.flows.ended.map Flow.given,
      [0x28, 0xB5, 0x2F, 0xFD] <+: frame := List.forall_mem_map.mpr (hframed.begins hsession)
  have hframes := List.forall_mem_append.mpr
    ⟨hcomplete, List.forall_mem_singleton.mpr (hframing.complete_encode run.size_fits_closed)⟩
  rw [run.contents_eq_frames appending hempty hwritten] at hcut hproper
  cases hresult : decodeFramesWith decode cut with
  | error defect => exact ⟨defect, rfl⟩
  | ok contents =>
      obtain ⟨left, table, hleft, rfl⟩ := hframing.complete_of_decodeFrames hresult
      exact absurd (hframing.flatten_eq_of_isPrefix hleft hframes hcompressed hcut) hproper

end CleanRun

/-- Whatever was written, an archive that has been closed with success does not verify once it
has been cut off, be it inside a frame, between two, or inside the table. -/
theorem cut_archive_is_rejected {ε σ : Type} [Engine ε] [Sink σ] {config : Config}
    {engine configured : ε} {sink : σ} {limit : Nat} {opened written closed : Writer ε σ}
    {writes : List Bytes} {answers : List (Except Halt Unit)} {summary : Summary}
    {decode : Bytes → Except String Bytes} {Complete : Bytes → Prop}
    (hopen : Writer.openWith config (.ok engine) (.ok sink) limit = .ok opened)
    (hwrites : opened.writeAll writes = (answers, written))
    (hclose : written.close = (.ok summary, closed))
    (appending : Sink.Appending σ) (hempty : appending.contents sink = [])
    (hframing : Framing decode Complete)
    (hconfigured : Engine.Configured config.settings engine configured)
    (hframed : Engine.Framed Complete configured) {cut : Bytes}
    (hcut : cut <+: appending.contents closed.sink)
    (hproper : cut ≠ appending.contents closed.sink) :
    ∃ defect, decodeFramesWith decode cut = .error defect := by
  let run := CleanRun.ofClosed hopen hwrites hclose
  exact run.rejects_cut appending hempty hframing hconfigured hframed hcut hproper

/-! ## Stored frames -/

namespace Zstd

theorem framing :
    Framing (fun frame => (decode frame).mapError DecodeError.message) IsComplete where
  accepts {bs content} h := by
    cases hdecode : decode bs with
    | error e =>
        rw [hdecode] at h
        cases h
    | ok decoded => exact complete_of_decode hdecode
  eq_of_isPrefix := IsComplete.eq_of_isPrefix
  skippable := isComplete_skippable_iff (by decide)

theorem StoredEngine.framed {start : StoredEngine} (hstart : start.stage = .idle) :
    Engine.Framed IsComplete start where
  complete hsession flow hflow := by
    rw [(tracks_of_session hstart hsession).ended flow hflow]
    exact isComplete_storedFrame flow.taken
  begins hsession flow hflow := by
    rw [(tracks_of_session hstart hsession).ended flow hflow, storedFrame, List.append_assoc]
    exact List.prefix_append _ _
  quiet := (faithful hstart).quiet_calls

namespace StoredEngine

/-- One entry, which covers what a stored frame has in front of its content. -/
def decoy : SeekTable where
  checksums := false
  entries := #[⟨9, 0, none⟩]

/-- The payload looks like the table of an archive that ends with it. -/
def decoyRun : CleanRun {} ({} : StoredEngine) ({} : MemorySink) 4 [decoy.encode] :=
  .ofAnswers ⟨1, 25, 59⟩ rfl (by decide +kernel) (by decide +kernel)

end StoredEngine
end Zstd

/-- Cut off behind its only frame, the archive seems to end in a table that covers it. -/
theorem decoy_archive_is_rejected : ∃ cut,
    cut <+: MemorySink.appending.contents Zstd.StoredEngine.decoyRun.closed.sink ∧
      cut ≠ MemorySink.appending.contents Zstd.StoredEngine.decoyRun.closed.sink ∧
      SeekTable.parse cut = .ok Zstd.StoredEngine.decoy ∧
      ∃ defect, decodeFrames cut = .error defect := by
  have hframe : Zstd.storedFrame Zstd.StoredEngine.decoy.encode =
      [0x28, 0xB5, 0x2F, 0xFD, 0x00, 0x38, 0xC9, 0x00, 0x00] ++
        Zstd.StoredEngine.decoy.encode := by
    decide +kernel
  have hcut : Zstd.storedFrame Zstd.StoredEngine.decoy.encode <+:
      MemorySink.appending.contents Zstd.StoredEngine.decoyRun.closed.sink := by
    decide +kernel
  have hproper : Zstd.storedFrame Zstd.StoredEngine.decoy.encode ≠
      MemorySink.appending.contents Zstd.StoredEngine.decoyRun.closed.sink := by
    decide +kernel
  refine ⟨_, hcut, hproper, ?_, ?_⟩
  · rw [hframe]
    exact SeekTable.parse_append_encode _ (by decide) _
  · exact cut_archive_is_rejected Zstd.StoredEngine.decoyRun.opens
      Zstd.StoredEngine.decoyRun.accepts Zstd.StoredEngine.decoyRun.closes MemorySink.appending
      rfl Zstd.framing (.set rfl (.set rfl (.set rfl .done))) (Zstd.StoredEngine.framed rfl)
      hcut hproper

end SeekableArchive
