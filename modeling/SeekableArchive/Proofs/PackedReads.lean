import SeekableArchive.CommandLine.Run
import SeekableArchive.Proofs.Layout
import SeekableArchive.Proofs.Offers
import SeekableArchive.Proofs.Recording
import SeekableArchive.Proofs.RoundTrip

/-!
# Archives of what a reader hands out

Packing is writing.  Every read that brings something is one write, interrupted reads are
passed over, and what comes first of the end of the input and a read that fails decides how it
ends: the writer is closed, or it is abandoned with nothing of a table written.
-/

namespace SeekableArchive

open Filter

namespace ReadOutcome

/-- Nothing is read any more: the input has come to its end, or the read has failed for good. -/
def Stops : ReadOutcome → Prop
  | bytes data => data = []
  | failed fault => fault ≠ .interrupted

instance : DecidablePred Stops
  | bytes data => inferInstanceAs (Decidable (data = []))
  | failed fault => inferInstanceAs (Decidable (fault ≠ .interrupted))

def payload? : ReadOutcome → Option Bytes
  | bytes data => some data
  | failed _ => none

/-- What is read before reading stops, one payload for each read. -/
def delivered (reads : List ReadOutcome) : List Bytes :=
  (reads.takeWhile (¬ ·.Stops)).filterMap payload?

/-- The read that stops reading; a script that comes to its end is the end of the input. -/
def stop? (reads : List ReadOutcome) : Option ReadOutcome :=
  reads.find? (·.Stops)

variable {read : ReadOutcome} {reads : List ReadOutcome} {data : Bytes}

/-- A read that does not stop reading was interrupted or brings something. -/
theorem goes_iff : ¬ read.Stops ↔ read = failed .interrupted ∨ ∃ data ≠ [], read = bytes data := by
  cases read with
  | bytes data => simp [Stops]
  | failed fault => simp [Stops]

theorem delivered_of_stops (h : read.Stops) (reads : List ReadOutcome) :
    delivered (read :: reads) = [] := by
  simp [delivered, h]

theorem delivered_of_goes (h : ¬ read.Stops) (reads : List ReadOutcome) :
    delivered (read :: reads) = read.payload?.toList ++ delivered reads := by
  have hgoes : (!decide read.Stops) = true := by simpa using h
  cases hpayload : read.payload? with
  | none => simp [delivered, hgoes, hpayload]
  | some data => simp [delivered, hgoes, hpayload]

theorem stop?_of_stops (h : read.Stops) (reads : List ReadOutcome) :
    stop? (read :: reads) = some read := by
  simp [stop?, h]

theorem stop?_of_goes (h : ¬ read.Stops) (reads : List ReadOutcome) :
    stop? (read :: reads) = stop? reads := by
  simp [stop?, h]

theorem of_mem_delivered (h : data ∈ delivered reads) : data ≠ [] ∧ bytes data ∈ reads := by
  obtain ⟨read, hread, hpayload⟩ := List.mem_filterMap.mp h
  cases read with
  | failed fault => cases hpayload
  | bytes data' =>
      cases hpayload
      have hgoes := List.mem_takeWhile_imp hread
      exact ⟨of_decide_eq_true hgoes, (List.takeWhile_prefix _).subset hread⟩

end ReadOutcome

open ReadOutcome

section Writing

variable {ε σ : Type} [Engine ε] [Sink σ] {w w' : Writer ε σ}

/-- How reading ends, by the read that stops it. -/
def PackError.ofStop : Option ReadOutcome → Except PackError Unit
  | some (.failed fault) => .error (.read fault)
  | _ => .ok ()

theorem writeReads_of_stops {read : ReadOutcome} (h : read.Stops) (w : Writer ε σ)
    (reads : List ReadOutcome) :
    writeReads w (read :: reads) = (PackError.ofStop (some read), w) := by
  cases read with
  | bytes data =>
      cases (h : data = [])
      rfl
  | failed fault =>
      cases fault with
      | interrupted => exact absurd rfl h
      | _ => rfl

theorem writeReads_bytes {data : Bytes} (h : data ≠ []) (w : Writer ε σ)
    (reads : List ReadOutcome) :
    writeReads w (.bytes data :: reads) =
      match w.write data with
      | (.ok (), w) => writeReads w reads
      | (.error halt, w) => (.error (.ofHalt halt), w) := by
  cases hwrite : w.write data with
  | mk answer v => cases answer <;> simp only [writeReads, if_neg h, hwrite]

/-- Reads are written one after the other, as long as the writes are accepted. -/
theorem writeReads_of_accepts {reads : List ReadOutcome} (h : w.Accepts (delivered reads) w') :
    writeReads w reads = (PackError.ofStop (stop? reads), w') := by
  induction reads generalizing w with
  | nil =>
      cases Writer.accepts_nil_iff.mp h
      rfl
  | cons read reads ih =>
      by_cases hstops : read.Stops
      · rw [delivered_of_stops hstops] at h
        cases Writer.accepts_nil_iff.mp h
        rw [stop?_of_stops hstops, writeReads_of_stops hstops]
      · rw [delivered_of_goes hstops] at h
        rw [stop?_of_goes hstops]
        rcases goes_iff.mp hstops with rfl | ⟨data, hdata, rfl⟩
        · exact ih h
        · obtain ⟨v, hwrite, hrest⟩ := Writer.accepts_cons_iff.mp h
          rw [writeReads_bytes hdata, hwrite]
          exact ih hrest

/-- Interrupted reads make no difference, wherever they occur. -/
theorem writeReads_filter (w : Writer ε σ) (reads : List ReadOutcome) :
    writeReads w (reads.filter (· ≠ .failed .interrupted)) = writeReads w reads := by
  induction reads generalizing w with
  | nil => rfl
  | cons read reads ih =>
      by_cases hinterrupted : read = .failed .interrupted
      · rw [List.filter_cons_of_neg (by simp [hinterrupted]), ih, hinterrupted, writeReads]
      · rw [List.filter_cons_of_pos (by simp [hinterrupted])]
        by_cases hstops : read.Stops
        · rw [writeReads_of_stops hstops, writeReads_of_stops hstops]
        · obtain ⟨data, hdata, rfl⟩ := (goes_iff.mp hstops).resolve_left hinterrupted
          rw [writeReads_bytes hdata, writeReads_bytes hdata]
          simp only [ih]

variable {config : Config} {chunkSize limit : Nat} {engine : ε} {sink : σ}

/-- Packing with a chunk that can be reserved: the writer is opened, written to, and then closed
or abandoned. -/
theorem pack_of_opened {opened : Writer ε σ} {reads : List ReadOutcome} (hchunk : 0 < chunkSize)
    (hreserve : Reservation.reserve chunkSize = .ok ())
    (hopen : Writer.openWith config (.ok engine) (.ok sink) limit = .ok opened)
    (haccepts : opened.Accepts (delivered reads) w) :
    pack config chunkSize reads (.ok engine) (.ok sink) limit =
      match stop? reads with
      | some (.failed fault) => ⟨.error (.read fault), w.abandon.journal, some w.abandon.sink⟩
      | _ => ⟨w.close.1.mapError .ofHalt, w.close.2.journal, some w.close.2.sink⟩ := by
  have hreads := writeReads_of_accepts haccepts
  simp only [pack, if_neg hchunk.ne', hopen, writeAllReads, hreserve, hreads]
  rcases stop? reads with - | ⟨data | fault⟩
  · rfl
  · rfl
  · rfl

theorem pack_filter (reads : List ReadOutcome) (engine : Except ArchiveError ε)
    (sink : Except SinkError σ) :
    pack config chunkSize (reads.filter (· ≠ .failed .interrupted)) engine sink limit =
      pack config chunkSize reads engine sink limit := by
  simp only [pack, writeAllReads, writeReads_filter]

/-- Without a chunk to read into or a valid configuration nothing is opened. -/
theorem pack_of_refused (h : chunkSize = 0 ∨ config.validate ≠ .ok ()) (reads : List ReadOutcome)
    (engine : Except ArchiveError ε) (sink : Except SinkError σ) :
    ∃ error, pack config chunkSize reads engine sink limit = ⟨.error error, .empty, none⟩ := by
  by_cases hchunk : chunkSize = 0
  · exact ⟨.zeroChunkSize, by rw [pack, if_pos hchunk]⟩
  · cases hvalid : config.validate with
    | ok u => exact absurd hvalid (h.resolve_left hchunk)
    | error fault =>
        refine ⟨.archive (.invalidConfig fault.message), ?_⟩
        simp only [pack, if_neg hchunk, Writer.openWith, hvalid]

end Writing

/-! ## Clean runs of reads that stop -/

namespace CleanRun

variable {ε σ : Type} [Engine ε] [Sink σ] {config : Config} {engine configured : ε} {sink : σ}
  {limit : Nat} {writes : List Bytes} (run : CleanRun config engine sink limit writes)

/-- If no write was empty, everything that the engine has given out belongs to a frame that has
ended: the last write, if there was any, left an open frame for the close to end. -/
theorem given_closed_of_ne_nil (h : ∀ data ∈ writes, data ≠ []) :
    run.closed.journal.flows.current.given = [] := by
  rw [run.given_current_closed]
  by_cases hpending : run.written.pendingUncompressed = 0
  · rw [if_pos hpending]
    have hnothing := run.balanced_written.1.pending_eq_zero_iff.mp hpending
    rcases List.eq_nil_or_concat writes with hnone | ⟨earlier, data, hlast⟩
    · subst hnone
      have hsame := Writer.accepts_nil_iff.mp run.accepts
      rw [hsame, run.flows_opened]
    · rw [List.concat_eq_append] at hlast
      obtain ⟨v, -, hback, hv, -⟩ := run.balanced_between hlast
      obtain ⟨u, hwrite, hend⟩ := Writer.accepts_cons_iff.mp hback
      have htaken := hv.taken_write hwrite
      rw [← Writer.accepts_nil_iff.mp hend, hnothing, List.suffix_nil] at htaken
      exact absurd htaken (h data (by simp [hlast]))
  · rw [if_neg hpending]

/-- The archive decodes to the segments, if no write was empty. -/
theorem decodeFramesWith_of_ne_nil {decode : Bytes → Except String Bytes}
    (accepting : Sink.Accepting σ) (hopen : accepting.IsOpen sink)
    (hempty : accepting.contents sink = [])
    (hdecodes : ∀ flows e, Engine.Session configured flows e →
      ∀ flow ∈ flows.ended, decode flow.given = .ok flow.taken)
    (hsession : Engine.Session configured run.written.journal.flows run.written.engine)
    (h : ∀ data ∈ writes, data ≠ []) :
    decodeFramesWith decode (accepting.contents run.closed.sink) =
      .ok (segments config.minFrameSize writes) := by
  obtain ⟨e, hclosed⟩ := run.exists_session_closed hsession
  exact run.decodeFramesWith_contents accepting hopen hempty (run.given_closed_of_ne_nil h)
    (hdecodes _ e hclosed)

end CleanRun

namespace Writer

variable {ε σ : Type}

theorem flows_abandon (w : Writer ε σ) : w.abandon.journal.flows = w.journal.flows := by
  rw [abandon]
  split <;> rfl

theorem sink_abandon (w : Writer ε σ) : w.abandon.sink = w.sink := by
  rw [abandon]
  split <;> rfl

end Writer

/-! ## Packing -/

section Packing

variable {ε σ : Type} [Engine ε] [Sink σ]

/-- What is expected of the parts when these payloads are packed.  The configuration is valid,
and the buffers for a read and for the table can be reserved.  The engine accepts its settings,
never fails or stalls from then on, and its frames decode to what they have taken in.  The sink
is open, empty and accepts everything.  The frames fit the table, and so does what the engine
makes of them under a large limit. -/
structure Packable (accepting : Sink.Accepting σ) (decode : Bytes → Except String Bytes)
    (config : Config) (chunkSize : Nat) (engine configured : ε) (sink : σ)
    (payloads : List Bytes) : Prop where
  valid : config.validate = .ok ()
  chunk_pos : 0 < chunkSize
  chunk_reservable : Reservation.reserve chunkSize = .ok ()
  footer_reservable : Reservation.reserve config.footerChunkSize = .ok ()
  configures : Engine.Configured config.settings engine configured
  dependable : Engine.Dependable configured
  decodes : ∀ flows e, Engine.Session configured flows e →
    ∀ flow ∈ flows.ended, decode flow.given = .ok flow.taken
  isOpen : accepting.IsOpen sink
  empty : accepting.contents sink = []
  sizes : ∀ segment ∈ segments config.minFrameSize payloads, segment.length ≤ maxFrameSize
  count : (segments config.minFrameSize payloads).length ≤ maxFrames
  frames : ∀ᶠ limit in atTop, ∀ opened,
    Writer.openWith config (.ok engine) (.ok sink) limit = .ok opened →
      ∀ flow ∈ (opened.writeAll payloads).2.close.2.journal.flows.all,
        flow.given.length ≤ maxFrameSize

variable {accepting : Sink.Accepting σ} {decode : Bytes → Except String Bytes} {config : Config}
  {chunkSize : Nat} {engine configured : ε} {sink : σ} {payloads : List Bytes}

theorem Packable.eventually_ready
    (h : Packable accepting decode config chunkSize engine configured sink payloads) :
    ∀ᶠ limit in atTop, ∃ run : CleanRun config engine sink limit payloads,
      run.written.Ready configured accepting :=
  CleanRun.eventually_ready accepting h.valid h.footer_reservable h.configures h.dependable
    h.isOpen h.sizes h.count h.frames

theorem Packable.floor_pos
    (h : Packable accepting decode config chunkSize engine configured sink payloads) :
    0 < config.minFrameSize :=
  (Config.validate_eq_ok_iff.mp h.valid).floor_pos

/-- Packing is writing what is read, one write for each read that brings something, whatever is
interrupted in between.

If the input comes to its end before a read fails, packing succeeds under every large enough
limit, and leaves what the writer of the reads leaves that is then closed: the archive, the
summary and the journal.  The archive decodes to the segments of the reads, which together are
all that was read, as many bytes as the summary says, and each of which is shorter than floor
and chunk together.  If a read fails first, packing answers that fault and leaves what the
abandoned writer of the reads leaves: nothing but the engine's output has been offered to the
sink, and it holds just that.  Without a chunk to read into, or if the configuration is not
valid, packing fails before anything is opened, and leaves every directory as it was. -/
theorem reads_are_packed_in_order (accepting : Sink.Accepting σ)
    (decode : Bytes → Except String Bytes) (config : Config) (chunkSize : Nat)
    (engine configured : ε) (sink : σ) :
    (∀ reads, (∀ data, .bytes data ∈ reads → data.length ≤ chunkSize) →
      Packable accepting decode config chunkSize engine configured sink (delivered reads) →
      ((∀ fault, stop? reads ≠ some (.failed fault)) →
        ∀ᶠ limit in atTop, ∃ run : CleanRun config engine sink limit (delivered reads),
          pack config chunkSize reads (.ok engine) (.ok sink) limit =
            ⟨.ok run.summary, run.closed.journal, some run.closed.sink⟩ ∧
          decodeFramesWith decode (accepting.contents run.closed.sink) =
            .ok (segments config.minFrameSize (delivered reads)) ∧
          (segments config.minFrameSize (delivered reads)).flatten = (delivered reads).flatten ∧
          run.summary.bytesIn = (delivered reads).flatten.length ∧
          ∀ frame ∈ segments config.minFrameSize (delivered reads),
            frame.length < config.minFrameSize + chunkSize) ∧
      ∀ fault, stop? reads = some (.failed fault) →
        ∀ᶠ limit in atTop, ∃ opened w,
          Writer.openWith config (.ok engine) (.ok sink) limit = .ok opened ∧
          opened.Accepts (delivered reads) w ∧
          pack config chunkSize reads (.ok engine) (.ok sink) limit =
            ⟨.error (.read fault), w.abandon.journal, some w.abandon.sink⟩ ∧
          w.abandon.journal.offers = w.abandon.journal.outputs ∧
          accepting.contents w.abandon.sink = w.abandon.journal.flows.given) ∧
    (∀ reads (engine : Except ArchiveError ε) (sink : Except SinkError σ) limit,
      pack config chunkSize (reads.filter (· ≠ .failed .interrupted)) engine sink limit =
        pack config chunkSize reads engine sink limit) ∧
    (chunkSize = 0 ∨ config.validate ≠ .ok () → ∀ reads (engine : Except ArchiveError ε) limit,
      (∀ sink : Except SinkError σ, ∃ error,
        pack config chunkSize reads engine sink limit = ⟨.error error, .empty, none⟩) ∧
      ∀ (d : Directory) (path : String),
        (((pack config chunkSize reads engine (FileSink.create d path) limit).sink.map
          (·.save d)).getD d) = d) := by
  refine ⟨fun reads hsmall h => ⟨fun hends => ?_, fun fault hstops => ?_⟩,
    fun reads engine sink limit => pack_filter reads engine sink, fun hrefused reads engine limit =>
      ⟨fun sink => pack_of_refused hrefused reads engine sink, fun d path => ?_⟩⟩
  · filter_upwards [h.eventually_ready] with limit hrun
    obtain ⟨run, hready⟩ := hrun
    refine ⟨run, ?_, ?_, flatten_segments _ _, ?_, ?_⟩
    · rw [pack_of_opened h.chunk_pos h.chunk_reservable run.opens run.accepts, run.closes]
      rcases hstop : stop? reads with - | ⟨data | fault⟩
      · rfl
      · rfl
      · exact absurd hstop (hends fault)
    · exact run.decodeFramesWith_of_ne_nil accepting h.isOpen h.empty h.decodes hready.session
        fun data hdata => (of_mem_delivered hdata).1
    · rw [run.bytesIn_summary, List.length_flatten]
    · intro frame hframe
      have hbound : frame.length ≤ config.minFrameSize - 1 + chunkSize :=
        length_le_of_mem_segmentsFrom (Nat.zero_le _) (fun data hdata =>
          Nat.add_le_add_left (hsmall data (of_mem_delivered hdata).2) _) hframe
      have hfloor := h.floor_pos
      omega
  · filter_upwards [h.eventually_ready] with limit hrun
    obtain ⟨run, hready⟩ := hrun
    have hechoes := Writer.echoes_upheld.keeps_accepts run.balanced_opened.usable
      (Writer.echoes_opened run.opens) run.accepts
    refine ⟨run.opened, run.written, run.opens, run.accepts, ?_, Writer.echoes_abandon hechoes, ?_⟩
    · rw [pack_of_opened h.chunk_pos h.chunk_reservable run.opens run.accepts, hstops]
    · rw [Writer.sink_abandon, Writer.flows_abandon, ← hready.balanced.stored]
      exact (run.mirrors_written accepting h.isOpen h.empty).2
  · obtain ⟨error, hpack⟩ := pack_of_refused hrefused reads engine (FileSink.create d path)
    rw [hpack]
    rfl

end Packing

theorem Zstd.StoredEngine.packable :
    Packable MemorySink.accepting
      (fun frame => (Zstd.decode frame).mapError Zstd.DecodeError.message)
      Zstd.StoredEngine.sampleConfig 2 ({} : Zstd.StoredEngine) {} ({} : MemorySink)
      [[1, 2], [3]] where
  valid := rfl
  chunk_pos := by decide
  chunk_reservable := Reservation.reserve_eq_ok_iff.mpr (by decide)
  footer_reservable := Reservation.reserve_eq_ok_iff.mpr (by decide)
  configures := .set rfl (.set rfl (.set rfl .done))
  dependable := Zstd.StoredEngine.dependable rfl
  decodes _ _ := (Zstd.StoredEngine.faithful rfl).decodes
  isOpen := rfl
  empty := rfl
  sizes := by decide
  count := by decide
  frames := by
    have hlengths (calls : Nat) (opened : Writer Zstd.StoredEngine MemorySink)
        (hopened : Writer.openWith Zstd.StoredEngine.sampleConfig (.ok {}) (.ok {}) (calls + 1) =
          .ok opened) : (opened.writeAll [[1, 2], [3]]).2.close.2.journal.flows.all.map
            (fun flow => flow.given.length) = [11, 10, 0] := by
      cases hopened
      cbv
    exact eventually_frames_le hlengths (by decide)

/-- An interruption between two reads is passed over; a failure in the place of the end of the
input is answered. -/
theorem stored_reads_are_packed :
    (∀ᶠ limit in atTop, ∃ run : CleanRun Zstd.StoredEngine.sampleConfig
        ({} : Zstd.StoredEngine) ({} : MemorySink) limit [[1, 2], [3]],
      pack Zstd.StoredEngine.sampleConfig 2
          [.bytes [1, 2], .failed .interrupted, .bytes [3], .bytes [], .bytes [4]]
          (.ok ({} : Zstd.StoredEngine)) (.ok ({} : MemorySink)) limit =
        ⟨.ok run.summary, run.closed.journal, some run.closed.sink⟩ ∧
      decodeFrames (MemorySink.accepting.contents run.closed.sink) = .ok [[1, 2], [3]] ∧
      run.summary.bytesIn = 3) ∧
    (∀ᶠ limit in atTop, (pack Zstd.StoredEngine.sampleConfig 2
        [.bytes [1, 2], .failed .interrupted, .bytes [3], .failed .unexpectedEnd]
        (.ok ({} : Zstd.StoredEngine)) (.ok ({} : MemorySink)) limit).result =
          .error (.read .unexpectedEnd)) ∧
    ∃ error, pack Zstd.StoredEngine.sampleConfig 0 [.bytes [1, 2]]
      (.ok ({} : Zstd.StoredEngine)) (.ok ({} : MemorySink)) 1 = ⟨.error error, .empty, none⟩ := by
  have hpack := (reads_are_packed_in_order MemorySink.accepting
    (fun frame => (Zstd.decode frame).mapError Zstd.DecodeError.message)
    Zstd.StoredEngine.sampleConfig 2 ({} : Zstd.StoredEngine) {} ({} : MemorySink)).1
  refine ⟨?_, ?_, ?_⟩
  · have hends := (hpack [.bytes [1, 2], .failed .interrupted, .bytes [3], .bytes [], .bytes [4]]
      (by simp) Zstd.StoredEngine.packable).1 (by simp [stop?, Stops])
    filter_upwards [hends] with limit hrun
    obtain ⟨run, hanswer, hdecode, -, hbytes, -⟩ := hrun
    exact ⟨run, hanswer, hdecode, hbytes⟩
  · have hfails := (hpack [.bytes [1, 2], .failed .interrupted, .bytes [3], .failed .unexpectedEnd]
      (by simp) Zstd.StoredEngine.packable).2 .unexpectedEnd rfl
    filter_upwards [hfails] with limit hrun
    obtain ⟨opened, w, -, -, hanswer, -⟩ := hrun
    rw [hanswer]
  · exact ((reads_are_packed_in_order MemorySink.accepting
      (fun frame => (Zstd.decode frame).mapError Zstd.DecodeError.message)
      Zstd.StoredEngine.sampleConfig 0 ({} : Zstd.StoredEngine) {} ({} : MemorySink)).2.2
        (.inl rfl) [.bytes [1, 2]] (.ok {}) 1).1 (.ok {})

end SeekableArchive
