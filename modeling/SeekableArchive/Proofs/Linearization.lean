import SeekableArchive.Proofs.Accounting
import SeekableArchive.Proofs.Recording
import SeekableArchive.Proofs.Records
import SeekableArchive.Proofs.RoundTrip

/-!
# Concurrent writes

Whatever the schedule, threads that share a writer leave it as the same writes would that
are made one after the other, and together they report what those are answered.  So what
holds of sequential runs holds of all schedules.
-/

namespace SeekableArchive

open Filter

/-! ## Tallies -/

namespace Tally

theorem add_count (t t' : Tally) (payload : Bytes) (answer : Except Halt Unit) :
    t.add (t'.count payload answer) = (t.add t').count payload answer := by
  cases answer with
  | ok _ => simp [add, count, Nat.add_assoc]
  | error _ => simp [add, count, Nat.add_assoc]

theorem count_add (t t' : Tally) (payload : Bytes) (answer : Except Halt Unit) :
    (t.count payload answer).add t' = (t.add t').count payload answer := by
  cases answer with
  | ok _ => simp [add, count, Nat.add_assoc, Nat.add_comm, Nat.add_left_comm]
  | error _ => simp [add, count, Nat.add_assoc, Nat.add_comm, Nat.add_left_comm]

theorem foldl_add_count (tallies : List Tally) (t : Tally) (payload : Bytes)
    (answer : Except Halt Unit) :
    tallies.foldl add (t.count payload answer) = (tallies.foldl add t).count payload answer := by
  induction tallies generalizing t with
  | nil => rfl
  | cons tally tallies ih => rw [List.foldl_cons, List.foldl_cons, count_add, ih]

theorem foldl_count_replicate (payloads : List Bytes) (t : Tally) :
    (payloads.zip (List.replicate payloads.length (.ok ()))).foldl
        (fun t (payload, answer) => t.count payload answer) t =
      t.add ⟨payloads.length, 0, (payloads.map List.length).sum⟩ := by
  induction payloads generalizing t with
  | nil => rfl
  | cons payload payloads ih =>
      rw [List.length_cons, List.replicate_succ, List.zip_cons_cons, List.foldl_cons, ih]
      simp only [List.map_cons, List.sum_cons, add, count, Tally.mk.injEq]
      exact ⟨by omega, trivial, by omega⟩

theorem ofAnswers_replicate (payloads : List Bytes) :
    ofAnswers payloads (List.replicate payloads.length (.ok ())) =
      ⟨payloads.length, 0, (payloads.map List.length).sum⟩ := by
  rw [ofAnswers, foldl_count_replicate]
  simp [add]

end Tally

/-! ## Schedules -/

namespace Workload

variable {workload : Workload} {next : Nat → Nat} {schedule : List Nat}

theorem Interleaves.lt_threads (h : workload.Interleaves next schedule) :
    ∀ thread ∈ schedule, thread < workload.threads := by
  induction h with
  | done _ => exact List.forall_mem_nil _
  | turn hthread _ _ ih => exact List.forall_mem_cons.mpr ⟨hthread, ih⟩

/-- What has been written and what is scheduled make up the workload. -/
theorem Interleaves.length_add_sum (h : workload.Interleaves next schedule) :
    schedule.length + ∑ thread ∈ Finset.range workload.threads, next thread =
      workload.threads * workload.writesPerThread := by
  induction h with
  | done h =>
      rw [Finset.sum_congr rfl fun thread hthread => h thread (Finset.mem_range.mp hthread)]
      simp
  | @turn next thread schedule hthread _ _ ih =>
      have hmem := Finset.mem_range.mpr hthread
      rw [Finset.sum_update_of_mem hmem] at ih
      rw [← Finset.add_sum_erase _ _ hmem, List.length_cons, Finset.erase_eq]
      omega

/-- A round, in which each of the threads makes its next write. -/
theorem exists_next_round {threads : List Nat} {sequence : Nat} (hnodup : threads.Nodup)
    (hthreads : ∀ thread ∈ threads, thread < workload.threads)
    (hnext : ∀ thread ∈ threads, next thread = sequence)
    (hleft : sequence < workload.writesPerThread) :
    ∃ next', (∀ thread ∈ threads, next' thread = sequence + 1) ∧
      (∀ thread ∉ threads, next' thread = next thread) ∧
      ∀ schedule, workload.calls next (threads ++ schedule) =
          (threads.map fun thread => workload.payload thread sequence) ++
            workload.calls next' schedule ∧
        (workload.Interleaves next' schedule →
          workload.Interleaves next (threads ++ schedule)) := by
  induction threads generalizing next with
  | nil => exact ⟨next, by simp, by simp, fun _ => ⟨rfl, id⟩⟩
  | cons thread threads ih =>
      obtain ⟨hthread, hnodup⟩ := List.nodup_cons.mp hnodup
      obtain ⟨hlt, hthreads⟩ := List.forall_mem_cons.mp hthreads
      obtain ⟨hfirst, hnext⟩ := List.forall_mem_cons.mp hnext
      have hstill : ∀ other ∈ threads,
          Function.update next thread (sequence + 1) other = sequence := by
        intro other hother
        rw [Function.update_of_ne (ne_of_mem_of_not_mem hother hthread), hnext other hother]
      obtain ⟨next', hwritten, hothers, hround⟩ := ih hnodup hthreads hstill
      refine ⟨next', List.forall_mem_cons.mpr ⟨?_, hwritten⟩, ?_, fun schedule => ⟨?_, ?_⟩⟩
      · rw [hothers thread hthread, Function.update_self]
      · intro other hother
        rw [List.mem_cons, not_or] at hother
        rw [hothers other hother.2, Function.update_of_ne hother.1]
      · rw [List.cons_append, calls, hfirst, (hround schedule).1]
        rfl
      · intro h
        refine .turn hlt (hfirst ▸ hleft) ?_
        rw [hfirst]
        exact (hround schedule).2 h

/-- The induction is on the rounds that are left. -/
theorem rounds_from {count sequence : Nat} (hcount : sequence + count = workload.writesPerThread)
    (hnext : ∀ thread < workload.threads, next thread = sequence) :
    let schedule := (List.range' sequence count).flatMap fun _ => List.range workload.threads
    workload.Interleaves next schedule ∧
      workload.calls next schedule = (List.range' sequence count).flatMap fun sequence =>
        (List.range workload.threads).map fun thread => workload.payload thread sequence := by
  induction count generalizing sequence next with
  | zero => exact ⟨.done fun thread hthread => (hnext thread hthread).trans hcount, rfl⟩
  | succ count ih =>
      obtain ⟨next', hwritten, -, hround⟩ := exists_next_round
        (List.nodup_range : (List.range workload.threads).Nodup)
        (fun thread hthread => List.mem_range.mp hthread)
        (fun thread hthread => hnext thread (List.mem_range.mp hthread)) (by omega)
      obtain ⟨hinterleaves, hcalls⟩ := ih (by omega)
        fun thread hthread => hwritten thread (List.mem_range.mpr hthread)
      simp only [List.range'_succ, List.flatMap_cons]
      exact ⟨(hround _).2 hinterleaves, (hround _).1.trans (congrArg _ hcalls)⟩

/-- Every workload can be scheduled: the threads may take turns. -/
theorem rounds_interleave (workload : Workload) :
    workload.Interleaves (fun _ => 0) workload.turns ∧
      workload.calls (fun _ => 0) workload.turns = workload.rounds := by
  rw [turns, rounds, List.range_eq_range' (n := workload.writesPerThread)]
  exact rounds_from (Nat.zero_add _) fun _ _ => rfl

theorem length_calls (workload : Workload) (next : Nat → Nat) (schedule : List Nat) :
    (workload.calls next schedule).length = schedule.length := by
  induction schedule generalizing next with
  | nil => rfl
  | cons thread schedule ih => rw [calls, List.length_cons, List.length_cons, ih]

end Workload

/-! ## Linearization -/

namespace Crew

variable {ε σ : Type} {workload : Workload}

/-- One more answer to one of the threads is one more answer in all. -/
theorem foldl_tallies_update {threads : List Nat} {thread : Nat} (hmem : thread ∈ threads)
    (hnodup : threads.Nodup) (workers : Nat → Worker) (sequence : Nat) (payload : Bytes)
    (answer : Except Halt Unit) (t : Tally) :
    (threads.map fun other => (Function.update workers thread
        ⟨sequence, (workers thread).tally.count payload answer⟩ other).tally).foldl Tally.add t =
      ((threads.map fun other => (workers other).tally).foldl Tally.add t).count payload
        answer := by
  induction threads generalizing t with
  | nil => cases hmem
  | cons first threads ih =>
      obtain ⟨hfirst, hnodup⟩ := List.nodup_cons.mp hnodup
      by_cases hthread : first = thread
      · -- Of the threads behind this one, none has moved.
        subst hthread
        have hothers : (threads.map fun other => (Function.update workers first
            ⟨sequence, (workers first).tally.count payload answer⟩ other).tally) =
              threads.map fun other => (workers other).tally :=
          List.map_congr_left fun other hother => by
            rw [Function.update_of_ne (ne_of_mem_of_not_mem hother hfirst)]
        rw [List.map_cons, List.map_cons, hothers, Function.update_self, List.foldl_cons,
          List.foldl_cons, Tally.add_count, Tally.foldl_add_count]
      · have hlater := (List.mem_cons.mp hmem).resolve_left (Ne.symm hthread)
        rw [List.map_cons, List.map_cons, Function.update_of_ne hthread, List.foldl_cons,
          List.foldl_cons, ih hlater hnodup]

theorem total_start (writer : Writer ε σ) (workload : Workload) :
    total { writer } workload = {} := by
  rw [total]
  induction List.range workload.threads with
  | nil => rfl
  | cons thread threads ih => exact ih

variable [Engine ε] [Sink σ]

/-- A turn is a write, the answer to which is counted. -/
theorem turn_spec (crew : Crew ε σ) {thread : Nat} (hthread : thread < workload.threads) :
    (crew.turn workload thread).writer =
        (crew.writer.write (workload.payload thread (crew.next thread))).2 ∧
      (crew.turn workload thread).next =
        Function.update crew.next thread (crew.next thread + 1) ∧
      (crew.turn workload thread).total workload =
        (crew.total workload).count (workload.payload thread (crew.next thread))
          (crew.writer.write (workload.payload thread (crew.next thread))).1 := by
  refine ⟨rfl, ?_, ?_⟩
  · funext other
    by_cases hother : other = thread
    · subst hother
      simp [turn, next]
    · simp [turn, next, Function.update_of_ne hother]
  · exact foldl_tallies_update (List.mem_range.mpr hthread) List.nodup_range crew.workers _ _ _ _

/-- Threads that take turns leave the writer as their writes do in the order of the turns, and
count the answers that these are given. -/
theorem run_linearizes (crew : Crew ε σ) {schedule : List Nat}
    (hschedule : ∀ thread ∈ schedule, thread < workload.threads) :
    (crew.run workload schedule).writer =
        (crew.writer.writeAll (workload.calls crew.next schedule)).2 ∧
      (crew.run workload schedule).total workload =
        ((workload.calls crew.next schedule).zip
          (crew.writer.writeAll (workload.calls crew.next schedule)).1).foldl
            (fun t (payload, answer) => t.count payload answer) (crew.total workload) := by
  -- The crew is general: each turn leaves another writer and other tallies to the next one.
  induction schedule generalizing crew with
  | nil => exact ⟨rfl, rfl⟩
  | cons thread schedule ih =>
      obtain ⟨hthread, hrest⟩ := List.forall_mem_cons.mp hschedule
      obtain ⟨hwriter, hnext, htotal⟩ := turn_spec crew hthread
      obtain ⟨hruns, hcounts⟩ := ih (crew.turn workload thread) hrest
      rw [hwriter, hnext] at hruns hcounts
      rw [htotal] at hcounts
      exact ⟨hruns, hcounts⟩

theorem run_start_linearizes {schedule : List Nat} (writer : Writer ε σ)
    (hschedule : ∀ thread ∈ schedule, thread < workload.threads) :
    (run workload { writer } schedule).writer =
        (writer.writeAll (workload.calls (fun _ => 0) schedule)).2 ∧
      (run workload { writer } schedule).total workload =
        Tally.ofAnswers (workload.calls (fun _ => 0) schedule)
          (writer.writeAll (workload.calls (fun _ => 0) schedule)).1 := by
  have hlinear := run_linearizes { writer } hschedule
  rwa [total_start] at hlinear

end Crew

/-! ## Concurrent runs -/

namespace CleanRun

variable {ε σ : Type} [Engine ε] [Sink σ] {config : Config} {engine configured : ε} {sink : σ}
  {writes : List Bytes}

/-- Over an engine that is faithful as well, the runs that come about are steady. -/
theorem eventually_steady {decode : Bytes → Except String Bytes} (accepting : Sink.Accepting σ)
    (hvalid : config.validate = .ok ())
    (hfooter : Reservation.reserve config.footerChunkSize = .ok ())
    (hconfigured : Engine.Configured config.settings engine configured)
    (hdependable : Engine.Dependable configured) (hfaithful : Engine.Faithful decode configured)
    (hopen : accepting.IsOpen sink) (hempty : accepting.contents sink = [])
    (hsizes : ∀ segment ∈ segments config.minFrameSize writes, segment.length ≤ maxFrameSize)
    (hcount : (segments config.minFrameSize writes).length ≤ maxFrames)
    (hframes : ∀ᶠ limit in atTop, ∀ opened,
      Writer.openWith config (.ok engine) (.ok sink) limit = .ok opened →
        ∀ flow ∈ (opened.writeAll writes).2.close.2.journal.flows.all,
          flow.given.length ≤ maxFrameSize) :
    ∀ᶠ limit in atTop, ∃ run : CleanRun config engine sink limit writes,
      run.written.Steady configured accepting := by
  have hconfig := Config.validate_eq_ok_iff.mp hvalid
  obtain ⟨j, hflows, hstored, hopens⟩ := Writer.openWith_of_configured sink hconfig hconfigured
  filter_upwards [eventually_ready accepting hvalid hfooter hconfigured hdependable hopen hsizes
    hcount hframes] with limit hrun
  obtain ⟨run, hready⟩ := hrun
  have hopened : run.opened = Writer.fresh config configured sink j limit :=
    Except.ok.inj (run.opens.symm.trans (hopens limit))
  have hsteady : run.opened.Steady configured accepting := by
    rw [hopened]
    exact Writer.steady_fresh hconfig hfooter hopen hempty hflows hstored
  exact ⟨run, hsteady.accepts hfaithful hready run.accepts⟩

end CleanRun

/-- Threads that share a writer write whole records, in whatever order they get its lock.  The
configuration, the engine, the sink and the footer buffer are as for a sequential archive that
is read back, the numbers of the workload fit a word, and the frames that the schedule fills
fit the table.  Then, under every large enough limit, all writes succeed, the bytes that the
threads report are those that the writer has counted, and the archive decodes to a stream in
which the records of every thread are whole, complete and in order. -/
theorem Crew.writes_linearize {ε σ : Type} [Engine ε] [Sink σ] {config : Config}
    {engine configured : ε} {sink : σ} {workload : Workload} {schedule : List Nat}
    {decode : Bytes → Except String Bytes} (accepting : Sink.Accepting σ)
    (hthreads : workload.threads < UInt32.size) (hwrites : workload.writesPerThread < UInt32.size)
    (hbody : workload.maxBody < UInt32.size)
    (hschedule : workload.Interleaves (fun _ => 0) schedule)
    (hvalid : config.validate = .ok ())
    (hfooter : Reservation.reserve config.footerChunkSize = .ok ())
    (hconfigured : Engine.Configured config.settings engine configured)
    (hdependable : Engine.Dependable configured)
    (hfaithful : Engine.Faithful decode configured)
    (hopen : accepting.IsOpen sink) (hempty : accepting.contents sink = [])
    (hsizes : ∀ segment ∈ segments config.minFrameSize (workload.calls (fun _ => 0) schedule),
      segment.length ≤ maxFrameSize)
    (hcount : (segments config.minFrameSize (workload.calls (fun _ => 0) schedule)).length ≤
      maxFrames)
    (hframes : ∀ᶠ limit in atTop, ∀ opened,
      Writer.openWith config (.ok engine) (.ok sink) limit = .ok opened →
        ∀ flow ∈ (Crew.run workload { writer := opened }
            schedule).writer.close.2.journal.flows.all,
          flow.given.length ≤ maxFrameSize) :
    ∀ᶠ limit in atTop, ∃ (opened closed : Writer ε σ) (crew : Crew ε σ) (summary : Summary)
        (frames : List Bytes),
      Writer.openWith config (.ok engine) (.ok sink) limit = .ok opened ∧
      Crew.run workload { writer := opened } schedule = crew ∧
      crew.total workload = ⟨workload.threads * workload.writesPerThread, 0,
        crew.writer.stats.bytesIn⟩ ∧
      crew.writer.close = (.ok summary, closed) ∧
      decodeFramesWith decode (accepting.contents closed.sink) = .ok frames ∧
      checkRecords frames.flatten workload = .ok () := by
  have hlinear (opened : Writer ε σ) := Crew.run_start_linearizes opened hschedule.lt_threads
  have hsequential : ∀ᶠ limit in atTop, ∀ opened,
      Writer.openWith config (.ok engine) (.ok sink) limit = .ok opened →
        ∀ flow ∈ (opened.writeAll
            (workload.calls (fun _ => 0) schedule)).2.close.2.journal.flows.all,
          flow.given.length ≤ maxFrameSize := by
    filter_upwards [hframes] with limit hsmall opened hopens
    have hlimited := hsmall opened hopens
    rwa [(hlinear opened).1] at hlimited
  filter_upwards [CleanRun.eventually_steady accepting hvalid hfooter hconfigured hdependable
    hfaithful hopen hempty hsizes hcount hsequential] with limit hrun
  obtain ⟨run, hsteady⟩ := hrun
  obtain ⟨hwriter, htotal⟩ := hlinear run.opened
  have haccepts : run.opened.writeAll (workload.calls (fun _ => 0) schedule) =
      (List.replicate _ (.ok ()), run.written) := run.accepts
  rw [haccepts] at hwriter htotal
  have hwritten : (workload.calls (fun _ => 0) schedule).length =
      workload.threads * workload.writesPerThread := by
    have hlength := hschedule.length_add_sum
    rwa [Finset.sum_const_zero, Nat.add_zero, ← workload.length_calls (fun _ => 0)] at hlength
  refine ⟨run.opened, run.closed, _, run.summary, segments config.minFrameSize _, run.opens, rfl,
    ?_, ?_, run.decodeFramesWith_of_steady hfaithful hsteady hopen hempty, ?_⟩
  · rw [htotal, hwriter, Tally.ofAnswers_replicate, run.bytesIn_written, hwritten]
  · rw [hwriter]
    exact run.closes
  · rw [flatten_segments]
    exact Workload.checkRecords_calls hthreads hwrites hbody hschedule

/-- Two threads with two writes each. -/
def Workload.pairs : Workload where
  threads := 2
  writesPerThread := 2
  maxBody := 3

/-- Frames of two records. -/
def Zstd.StoredEngine.recordConfig : Config where
  minFrameSize := 20
  checksums := true

/-- The second thread begins and ends. -/
theorem Workload.pairs_interleave : Workload.pairs.Interleaves (fun _ => 0) [1, 0, 0, 1] :=
  .turn (by decide) (by decide) (.turn (by decide) (by decide) (.turn (by decide) (by decide)
    (.turn (by decide) (by decide) (.done (by decide)))))

theorem Crew.stored_writes_linearize :
    ∀ᶠ limit in atTop, ∃ (opened closed : Writer Zstd.StoredEngine MemorySink)
        (crew : Crew Zstd.StoredEngine MemorySink) (summary : Summary) (frames : List Bytes),
      Writer.openWith Zstd.StoredEngine.recordConfig (.ok {}) (.ok {}) limit = .ok opened ∧
      Crew.run Workload.pairs { writer := opened } [1, 0, 0, 1] = crew ∧
      crew.total Workload.pairs = ⟨4, 0, crew.writer.stats.bytesIn⟩ ∧
      crew.writer.close = (.ok summary, closed) ∧
      decodeFrames closed.sink.contents = .ok frames ∧
      checkRecords frames.flatten Workload.pairs = .ok () := by
  have hlengths (calls : Nat) (opened : Writer Zstd.StoredEngine MemorySink)
      (hopened : Writer.openWith Zstd.StoredEngine.recordConfig (.ok {}) (.ok {}) (calls + 1) =
        .ok opened) : (Crew.run Workload.pairs { writer := opened }
          [1, 0, 0, 1]).writer.close.2.journal.flows.all.map (fun flow => flow.given.length) =
            [36, 38, 0] := by
    cases hopened
    cbv
  have hframes := eventually_frames_le hlengths (by decide)
  have hchunk : Reservation.reserve Zstd.StoredEngine.recordConfig.footerChunkSize = .ok () :=
    Reservation.reserve_eq_ok_iff.mpr (by decide)
  exact Crew.writes_linearize MemorySink.accepting (by decide) (by decide) (by decide)
    Workload.pairs_interleave rfl hchunk (.set rfl (.set rfl (.set rfl .done)))
    (Zstd.StoredEngine.dependable rfl) (Zstd.StoredEngine.faithful rfl) rfl rfl (by decide)
    (by decide) hframes

end SeekableArchive
