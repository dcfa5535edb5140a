import SeekableArchive.Proofs.Routing
import SeekableArchive.Proofs.Truncation

/-!
# An archive as one stream

A decoder that knows nothing of seek tables goes over an archive frame by frame.  The table
is the last frame, and one to be skipped: its size covers exactly what is left.  So the
stream decodes to everything that was written, however many frames it took.
-/

namespace SeekableArchive

open LittleEndian

/-- `Reads frame content` says that the bytes are a complete frame with this content.  A
stream of complete frames decodes to their contents, one after the other, and a frame to be
skipped has none. -/
structure StreamFormat (decode : Bytes → Except String Bytes) (Reads : Bytes → Bytes → Prop) :
    Prop where
  concatenates {frames contents : List Bytes} : frames ≠ [] →
    List.Forall₂ Reads frames contents → decode frames.flatten = .ok contents.flatten
  skips {size : UInt32} {payload : Bytes} : payload.length = size.toNat →
    Reads (word 0x184D2A5E ++ (word size ++ payload)) []

/-- Every frame that the engine ends is complete and holds what was taken in, and no frame is
begun without input. -/
structure Engine.Readable {ε : Type} [Engine ε] (Reads : Bytes → Bytes → Prop) (start : ε) :
    Prop where
  reads {flows : Flows} {e : ε} :
    Session start flows e → ∀ flow ∈ flows.ended, Reads flow.given flow.taken
  quiet : Quiet start

namespace CleanRun

variable {ε σ : Type} [Engine ε] [Sink σ] {config : Config} {engine configured : ε} {sink : σ}
  {limit : Nat} {writes : List Bytes} (run : CleanRun config engine sink limit writes)
  {Reads : Bytes → Bytes → Prop}

theorem reads_frames (hconfigured : Engine.Configured config.settings engine configured)
    (hreadable : Engine.Readable Reads configured) :
    List.Forall₂ Reads (run.closed.journal.flows.ended.map Flow.given)
      (segments config.minFrameSize writes) := by
  obtain ⟨e, hsession⟩ := run.session_closed (run.inSession_written hconfigured hreadable.quiet)
  rw [← run.taken_ended_closed, List.forall₂_map_left_iff, List.forall₂_map_right_iff,
    List.forall₂_same]
  exact hreadable.reads hsession

end CleanRun

/-- Whatever was written, an archive that has been closed with success is a stream of the
engine's frames and one frame to be skipped, the table, of exactly the size that it states.
Decoded as a whole it gives back all the writes, one after the other. -/
theorem archive_is_one_stream {ε σ : Type} [Engine ε] [Sink σ] {config : Config}
    {engine configured : ε} {sink : σ} {limit : Nat} {opened written closed : Writer ε σ}
    {writes : List Bytes} {answers : List (Except Halt Unit)} {summary : Summary}
    {decode : Bytes → Except String Bytes} {Reads : Bytes → Bytes → Prop}
    (hopen : Writer.openWith config (.ok engine) (.ok sink) limit = .ok opened)
    (hwrites : opened.writeAll writes = (answers, written))
    (hclose : written.close = (.ok summary, closed))
    (appending : Sink.Appending σ) (hempty : appending.contents sink = [])
    (hformat : StreamFormat decode Reads)
    (hconfigured : Engine.Configured config.settings engine configured)
    (hreadable : Engine.Readable Reads configured) :
    ∃ (table : SeekTable) (size : UInt32) (payload : Bytes),
      SeekTable.parse (appending.contents closed.sink) = .ok table ∧
      appending.contents closed.sink =
        (closed.journal.flows.ended.map Flow.given).flatten ++ table.encode ∧
      table.encode = word 0x184D2A5E ++ (word size ++ payload) ∧
      payload.length = size.toNat ∧
      List.Forall₂ Reads (closed.journal.flows.ended.map Flow.given)
        (segments config.minFrameSize writes) ∧
      decode (appending.contents closed.sink) = .ok writes.flatten := by
  let run := CleanRun.ofClosed hopen hwrites hclose
  have hparse := (run.summary_matches_table hempty).1
  have hcontents := run.contents_eq_frames appending hempty
    (run.inSession_written hconfigured hreadable.quiet)
  have hreads := run.reads_frames hconfigured hreadable
  obtain ⟨size, payload, hencode, hlength⟩ := SeekTable.exists_encode_eq run.size_fits_closed
  have hskipped : Reads run.closed.frameLog.table.encode [] := by
    rw [hencode]
    exact hformat.skips hlength
  have hdecode := hformat.concatenates (List.append_ne_nil_of_right_ne_nil _ (by simp))
    (List.rel_append hreads (.cons hskipped .nil))
  refine ⟨run.closed.frameLog.table, size, payload, hparse, ?_, hencode, hlength, hreads, ?_⟩
  · rw [List.flatten_append, List.flatten_singleton] at hcontents
    exact hcontents
  · rw [← hcontents, List.flatten_append, List.flatten_singleton, List.append_nil,
      flatten_segments] at hdecode
    exact hdecode

/-! ## Stored frames -/

namespace Zstd

/-- The decoder finds this content in front of anything, in an input of any size. -/
def Reads (frame content : Bytes) : Prop :=
  frame ≠ [] ∧ ∀ total rest, readFrame total (frame ++ rest) = .ok (content, rest)

theorem reads_storedFrame (content : Bytes) : Reads (storedFrame content) content := by
  refine ⟨?_, fun total rest => readFrame_storedFrame total content rest⟩
  rw [storedFrame, List.append_assoc]
  exact List.cons_ne_nil _ _

theorem reads_skippable {size : UInt32} {payload : Bytes} (h : payload.length = size.toNat) :
    Reads (word 0x184D2A5E ++ (word size ++ payload)) [] := by
  have hmagic : word 0x184D2A5E = [0x5E, 0x2A, 0x4D, 0x18] := by decide
  refine ⟨?_, fun total rest => ?_⟩
  · rw [hmagic]
    exact List.cons_ne_nil _ _
  · have hbegins : mayBeginFrame (word 0x184D2A5E ++ (word size ++ (payload ++ rest))) = true := by
      have hfront : (word 0x184D2A5E ++ (word size ++ (payload ++ rest))).take 4 =
          word 0x184D2A5E := List.take_left' (length_word _)
      rw [mayBeginFrame, hfront]
      decide
    rw [List.append_assoc, List.append_assoc]
    simp only [readFrame, hbegins, if_true, split_append (length_word 0x184D2A5E),
      readSkippable, bind, Except.bind, split_append (length_word size), toNat_word,
      split_append h]
    rfl

theorem length_le_of_reads {frames contents : List Bytes}
    (h : List.Forall₂ Reads frames contents) : frames.length ≤ frames.flatten.length := by
  induction h with
  | nil => exact Nat.le_refl _
  | cons hframe _ ih =>
      have hsome := List.length_pos_iff.mpr hframe.1
      rw [List.flatten_cons, List.length_append, List.length_cons]
      omega

/-- The induction is on the frames; the contents read before stay behind. -/
theorem readFrames_flatten {total limit : Nat} {frames contents earlier : List Bytes}
    (h : List.Forall₂ Reads frames contents) (hsome : frames ≠ [])
    (hlimit : frames.length ≤ limit) :
    readFrames total limit frames.flatten earlier = .ok (contents.reverse ++ earlier) := by
  induction h generalizing limit earlier with
  | nil => exact absurd rfl hsome
  | @cons frame content frames contents hframe hframes ih =>
      obtain ⟨limit, rfl⟩ : ∃ fewer, limit = fewer + 1 :=
        Nat.exists_eq_add_of_le' (Nat.le_trans (Nat.succ_le_succ (Nat.zero_le _)) hlimit)
      rw [List.flatten_cons, readFrames, hframe.2]
      cases hframes with
      | nil => rfl
      | @cons next content' frames contents hnext hframes =>
          have hmore : ¬ (next :: frames).flatten = [] := by
            rw [List.flatten_cons, List.append_eq_nil_iff]
            exact fun hnone => hnext.1 hnone.1
          simp only [if_neg hmore]
          rw [ih (List.cons_ne_nil _ _) (Nat.le_of_succ_le_succ hlimit),
            List.reverse_cons (a := content), List.append_assoc]
          rfl

theorem streamFormat :
    StreamFormat (fun stream => (decode stream).mapError DecodeError.message) Reads where
  concatenates {frames contents} hsome h := by
    have hlength := Nat.le_succ_of_le (length_le_of_reads h)
    simp only [decode, readFrames_flatten h hsome hlength, List.append_nil, List.reverse_reverse]
    rfl
  skips := reads_skippable

theorem StoredEngine.readable {start : StoredEngine} (hstart : start.stage = .idle) :
    Engine.Readable Reads start where
  reads hsession flow hflow := by
    rw [(tracks_of_session hstart hsession).ended flow hflow]
    exact reads_storedFrame flow.taken
  quiet := (faithful hstart).quiet_calls

def StoredEngine.emptyRun : CleanRun {} ({} : StoredEngine) ({} : MemorySink) 1 [] :=
  .ofAnswers ⟨0, 0, 17⟩ rfl (by decide +kernel) (by decide +kernel)

end Zstd

/-- A payload that looks like a table is decoded like any other, and an archive without frames
is decoded too. -/
theorem archive_is_one_stream_of_decoy :
    (Zstd.decode (MemorySink.appending.contents Zstd.StoredEngine.decoyRun.closed.sink)).mapError
        Zstd.DecodeError.message = .ok Zstd.StoredEngine.decoy.encode ∧
      (Zstd.decode (MemorySink.appending.contents Zstd.StoredEngine.emptyRun.closed.sink)).mapError
        Zstd.DecodeError.message = .ok [] := by
  constructor
  · obtain ⟨-, -, -, -, -, -, -, -, hdecode⟩ :=
      archive_is_one_stream Zstd.StoredEngine.decoyRun.opens Zstd.StoredEngine.decoyRun.accepts
        Zstd.StoredEngine.decoyRun.closes MemorySink.appending rfl Zstd.streamFormat
        (.set rfl (.set rfl (.set rfl .done))) (Zstd.StoredEngine.readable rfl)
    rwa [List.flatten_singleton] at hdecode
  · obtain ⟨-, -, -, -, -, -, -, -, hdecode⟩ :=
      archive_is_one_stream Zstd.StoredEngine.emptyRun.opens Zstd.StoredEngine.emptyRun.accepts
        Zstd.StoredEngine.emptyRun.closes MemorySink.appending rfl Zstd.streamFormat
        (.set rfl (.set rfl (.set rfl .done))) (Zstd.StoredEngine.readable rfl)
    exact hdecode

end SeekableArchive
