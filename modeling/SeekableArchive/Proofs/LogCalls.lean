import SeekableArchive.Proofs.Serialization

/-!
# Calls of a frame log in any order

Frames may be recorded and buffers filled in any order.  The first buffer freezes the
entries; from then on frames are refused and the buffers take the encoding of the entries,
one piece after the other, until nothing is left.  What has been handed out and what is
unread always make up the encoding.
-/

namespace SeekableArchive

/-! ## Copying into a buffer -/

/-- Bytes that fit are copied as a whole, and nothing behind them is touched. -/
theorem copyToFront_eq {bytes buffer : Bytes} (h : bytes.length ≤ buffer.length) :
    copyToFront bytes buffer = bytes ++ buffer.drop bytes.length := by
  induction bytes generalizing buffer with
  | nil => rfl
  | cons b bytes ih =>
      cases buffer with
      | nil => cases h
      | cons first buffer =>
          rw [copyToFront, ih (Nat.le_of_succ_le_succ h)]
          rfl

/-! ## Calls and answers -/

inductive LogCall
  | record (frame : FrameRecord)
  | serialize (buffer : Bytes)

inductive LogAnswer
  | recorded
  | refused (fault : RecordFault)
  | filled (filling : Filling)

/-- What an answer hands out. -/
def LogAnswer.piece : LogAnswer → Bytes
  | filled filling => filling.piece
  | _ => []

/-- There is a buffer among the calls. -/
def LogCall.Begun (calls : List LogCall) : Prop :=
  ∃ buffer, serialize buffer ∈ calls

/-- Why a log refuses a frame that has begun to hand out its table or has `count` entries. -/
def RecordFault.Refuses (begun : Prop) (count : Nat) (frame : FrameRecord) : RecordFault → Prop
  | serializationBegun => begun
  | full => maxFrames ≤ count
  | compressedTooLarge size => size = frame.compressed ∧ maxFrameSize < size
  | uncompressedTooLarge size => size = frame.uncompressed ∧ maxFrameSize < size

namespace FrameLog

/-- A log that refuses a frame stays as it is. -/
def perform (log : FrameLog) : LogCall → LogAnswer × FrameLog
  | .record frame =>
      match log.record frame.compressed frame.uncompressed frame.checksum with
      | .ok log' => (.recorded, log')
      | .error fault => (.refused fault, log)
  | .serialize buffer =>
      let (filling, log') := log.serializeInto buffer
      (.filled filling, log')

def performAll (log : FrameLog) : List LogCall → List LogAnswer × FrameLog
  | [] => ([], log)
  | call :: calls =>
      let (answer, log) := log.perform call
      let (answers, log) := log.performAll calls
      (answer :: answers, log)

/-- What the calls make the log hand out, one piece after the other. -/
def handedOut (log : FrameLog) (calls : List LogCall) : Bytes :=
  (log.performAll calls).1.flatMap LogAnswer.piece

/-- How a log answers that a frame is to be recorded: either one entry is appended and
nothing else changes, or nothing at all does. -/
inductive Records (begun : Prop) (log : FrameLog) (frame : FrameRecord) :
    LogAnswer → FrameLog → Prop
  | recorded {log' : FrameLog} (hbegun : ¬ begun) (hroom : log.size < maxFrames)
      (hfits : frame.Fits) (hentries : log'.entries = log.entries.push (frame.entry log.checksums))
      (hchecksums : log'.checksums = log.checksums) (hhandout : log'.handout = log.handout) :
      Records begun log frame .recorded log'
  | refused {fault : RecordFault} (hfault : fault.Refuses begun log.size frame) :
      Records begun log frame (.refused fault) log

/-- How a log that has handed out `given` fills a buffer. -/
structure Fills (log : FrameLog) (given buffer : Bytes) (filling : Filling) : Prop where
  produced : filling.produced = min buffer.length (log.table.encodedSize - given.length)
  remaining : filling.remaining = log.table.encodedSize - (given.length + filling.produced)
  piece : given ++ filling.piece <+: log.table.encode
  length : filling.buffer.length = buffer.length
  untouched : filling.buffer.drop filling.produced = buffer.drop filling.produced

/-! ## One call -/

/-- A log in which `given` has been handed out, if it has begun to hand out anything. -/
structure Handing (begun : Prop) (given : Bytes) (log : FrameLog) : Prop where
  begun : begun ↔ log.handout ≠ none
  coherent : log.Coherent
  whole : given ++ log.unread = log.table.encode

variable {begun : Prop} {given : Bytes} {log : FrameLog}

theorem handing_empty (checksums : Bool) : Handing False [] (empty checksums) where
  begun := ⟨False.elim, fun h => h rfl⟩
  coherent := coherent_of_handout_eq_none rfl
  whole := rfl

theorem Handing.congr {begun' : Prop} (h : Handing begun given log) (hiff : begun ↔ begun') :
    Handing begun' given log :=
  ⟨hiff.symm.trans h.begun, h.coherent, h.whole⟩

theorem Handing.length_given (h : Handing begun given log) :
    given.length + log.unread.length = log.table.encodedSize := by
  rw [← List.length_append, h.whole, SeekTable.length_encode]

theorem perform_record (h : begun ↔ log.handout ≠ none) (frame : FrameRecord) :
    Records begun log frame (log.perform (.record frame)).1 (log.perform (.record frame)).2 := by
  simp only [perform]
  cases hrecord : log.record frame.compressed frame.uncompressed frame.checksum with
  | ok log' =>
      obtain ⟨hnone, hroom, hcompressed, huncompressed, hnone', htable⟩ :=
        record_eq_ok_iff.mp hrecord
      refine .recorded (fun hbegun => h.mp hbegun hnone) hroom ⟨hcompressed, huncompressed⟩ ?_ ?_
        (hnone'.trans hnone.symm)
      · rw [entries, htable]
        rfl
      · rw [checksums, htable]
        rfl
  | error fault =>
      refine .refused ?_
      simp only [record] at hrecord
      split at hrecord
      · rename_i hsome
        cases hrecord
        exact h.mpr (Option.isSome_iff_ne_none.mp hsome)
      · split at hrecord
        · split at hrecord
          · rename_i hlarge
            cases hrecord
            exact ⟨rfl, hlarge⟩
          · split at hrecord
            · rename_i hlarge
              cases hrecord
              exact ⟨rfl, hlarge⟩
            · cases hrecord
        · rename_i hfull
          cases hrecord
          exact Nat.not_lt.mp hfull

/-- A frame that is recorded changes what will be handed out, not what has been. -/
theorem Handing.records {frame : FrameRecord} {answer : LogAnswer} {log' : FrameLog}
    (h : Handing begun given log) (hrecords : Records begun log frame answer log') :
    Handing begun given log' ∧ answer.piece = [] := by
  cases hrecords with
  | refused hfault => exact ⟨h, rfl⟩
  | recorded hbegun hroom hfits hentries hchecksums hhandout =>
      have hnone : log.handout = none := not_not.mp fun hsome => hbegun (h.begun.mpr hsome)
      have hnone' : log'.handout = none := hhandout.trans hnone
      have hgiven : given = [] := by
        have hwhole := h.whole
        rw [unread_of_handout_eq_none hnone] at hwhole
        exact List.append_left_eq_self.mp hwhole
      refine ⟨⟨?_, coherent_of_handout_eq_none hnone', ?_⟩, rfl⟩
      · rw [hhandout]
        exact h.begun
      · rw [hgiven, unread_of_handout_eq_none hnone']
        rfl

theorem Handing.perform_record_of_begun (h : Handing True given log) (frame : FrameRecord) :
    ∃ fault, log.perform (.record frame) = (.refused fault, log) := by
  have hrecords := perform_record h.begun frame
  generalize log.perform (.record frame) = outcome at hrecords
  obtain ⟨answer, log'⟩ := outcome
  cases hrecords with
  | recorded hbegun => exact absurd trivial hbegun
  | @refused fault hfault => exact ⟨fault, rfl⟩

theorem serializeInto_spec (h : log.Coherent) (buffer : Bytes) :
    (log.serializeInto buffer).1.buffer =
        log.unread.take buffer.length ++ buffer.drop (log.unread.take buffer.length).length ∧
      (log.serializeInto buffer).1.produced = (log.unread.take buffer.length).length ∧
      (log.serializeInto buffer).1.piece = log.unread.take buffer.length ∧
      (log.serializeInto buffer).1.remaining = (log.unread.drop buffer.length).length ∧
      (log.serializeInto buffer).2.unread = log.unread.drop buffer.length ∧
      (log.serializeInto buffer).2.table = log.table ∧
      (log.serializeInto buffer).2.Coherent := by
  obtain ⟨houtput, hremaining, hunread, htable, hcoherent⟩ := serialize_spec h buffer.length
  have hfits : (log.unread.take buffer.length).length ≤ buffer.length :=
    List.length_take_le _ _
  simp only [serializeInto, Filling.piece, houtput, hremaining, hunread, htable, hcoherent,
    copyToFront_eq hfits, List.take_left', and_self]

theorem Handing.fills (h : Handing begun given log) (buffer : Bytes) :
    Fills log given buffer (log.serializeInto buffer).1 := by
  obtain ⟨hbuffer, hproduced, hpiece, hremaining, -⟩ := serializeInto_spec h.coherent buffer
  have hlength := h.length_given
  rw [List.length_take] at hproduced
  rw [List.length_drop] at hremaining
  constructor
  · rw [hproduced]
    omega
  · rw [hremaining, hproduced]
    omega
  · rw [hpiece, ← h.whole]
    exact (List.prefix_append_right_inj _).mpr (List.take_prefix _ _)
  · rw [hbuffer]
    simp only [List.length_append, List.length_take, List.length_drop]
    omega
  · rw [hbuffer, hproduced, ← List.length_take, List.drop_left]

/-- What is left after a buffer has been filled is that much less. -/
theorem Handing.serializeInto (h : Handing begun given log) (buffer : Bytes) :
    Handing True (given ++ (log.serializeInto buffer).1.piece) (log.serializeInto buffer).2 ∧
      (log.serializeInto buffer).2.table = log.table ∧
      ((log.serializeInto buffer).1.remaining = 0 →
        (log.serializeInto buffer).2.unread = []) := by
  obtain ⟨-, -, hpiece, hremaining, hunread, htable, hcoherent⟩ :=
    serializeInto_spec h.coherent buffer
  refine ⟨⟨⟨fun _ => Option.some_ne_none _, fun _ => trivial⟩, hcoherent, ?_⟩, htable, ?_⟩
  · rw [hpiece, hunread, htable, List.append_assoc, List.take_append_drop, h.whole]
  · rw [hremaining, hunread]
    exact List.length_eq_zero_iff.mp

/-! ## Any number of calls -/

theorem performAll_cons (log : FrameLog) (call : LogCall) (calls : List LogCall) :
    log.performAll (call :: calls) =
      ((log.perform call).1 :: ((log.perform call).2.performAll calls).1,
        ((log.perform call).2.performAll calls).2) := rfl

theorem handedOut_cons (log : FrameLog) (call : LogCall) (calls : List LogCall) :
    log.handedOut (call :: calls) =
      (log.perform call).1.piece ++ (log.perform call).2.handedOut calls := by
  rw [handedOut, performAll_cons, List.flatMap_cons]
  rfl

theorem Handing.performAll (h : Handing begun given log) (calls : List LogCall) :
    Handing (begun ∨ LogCall.Begun calls) (given ++ log.handedOut calls)
      (log.performAll calls).2 := by
  induction calls generalizing begun given log with
  | nil =>
      have hsame : given ++ log.handedOut [] = given := List.append_nil given
      rw [hsame]
      exact h.congr ⟨.inl, fun hbegun => hbegun.elim id fun ⟨_, hmem⟩ => nomatch hmem⟩
  | cons call calls ih =>
      rw [handedOut_cons, performAll_cons, ← List.append_assoc]
      cases call with
      | record frame =>
          obtain ⟨hnext, hpiece⟩ := h.records (perform_record h.begun frame)
          have hbegun : LogCall.Begun (.record frame :: calls) ↔ LogCall.Begun calls := by
            simp [LogCall.Begun]
          rw [hpiece, List.append_nil, hbegun]
          exact ih hnext
      | serialize buffer =>
          have hbegun : LogCall.Begun (.serialize buffer :: calls) :=
            ⟨buffer, List.mem_cons_self⟩
          exact (ih (h.serializeInto buffer).1).congr ⟨fun _ => .inr hbegun, fun _ => .inl trivial⟩

/-- Once a buffer has been filled no entry is added. -/
theorem Handing.table_performAll (h : Handing True given log) (calls : List LogCall) :
    (log.performAll calls).2.table = log.table := by
  induction calls generalizing given log with
  | nil => rfl
  | cons call calls ih =>
      rw [performAll_cons]
      cases call with
      | record frame =>
          obtain ⟨fault, hrefused⟩ := h.perform_record_of_begun frame
          rw [hrefused]
          exact ih h
      | serialize buffer =>
          obtain ⟨hnext, htable, -⟩ := h.serializeInto buffer
          exact (ih hnext).trans htable

/-- Once nothing is left, nothing more is handed out. -/
theorem Handing.spent (h : Handing True given log) (hspent : log.unread = [])
    (calls : List LogCall) :
    (log.performAll calls).2.unread = [] ∧
      ∀ filling, .filled filling ∈ (log.performAll calls).1 →
        filling.produced = 0 ∧ filling.remaining = 0 := by
  induction calls generalizing given log with
  | nil => exact ⟨hspent, nofun⟩
  | cons call calls ih =>
      rw [performAll_cons]
      cases call with
      | record frame =>
          obtain ⟨fault, hrefused⟩ := h.perform_record_of_begun frame
          rw [hrefused]
          obtain ⟨hlast, hlater⟩ := ih h hspent
          refine ⟨hlast, fun filling hmem => ?_⟩
          exact hlater filling ((List.mem_cons.mp hmem).resolve_left nofun)
      | serialize buffer =>
          obtain ⟨-, hproduced, -, hremaining, hunread, -⟩ :=
            serializeInto_spec h.coherent buffer
          rw [hspent, List.drop_nil] at hunread hremaining
          rw [hspent, List.take_nil] at hproduced
          obtain ⟨hlast, hlater⟩ := ih (h.serializeInto buffer).1 hunread
          refine ⟨hlast, fun filling hmem => ?_⟩
          rcases List.mem_cons.mp hmem with hfirst | hmem
          · rw [LogAnswer.filled.inj hfirst]
            exact ⟨hproduced, hremaining⟩
          · exact hlater filling hmem

/-- A buffer after which nothing remains has taken the last of the table. -/
theorem Handing.drained (h : Handing begun given log) {calls : List LogCall} {filling : Filling}
    (hmem : .filled filling ∈ (log.performAll calls).1) (hdone : filling.remaining = 0) :
    (log.performAll calls).2.unread = [] := by
  induction calls generalizing begun given log with
  | nil => cases hmem
  | cons call calls ih =>
      rw [performAll_cons] at hmem ⊢
      cases call with
      | record frame =>
          have hrecords := perform_record h.begun frame
          refine ih (h.records hrecords).1 ((List.mem_cons.mp hmem).resolve_left fun hfirst => ?_)
          rw [← hfirst] at hrecords
          nomatch hrecords
      | serialize buffer =>
          obtain ⟨hnext, -, hempty⟩ := h.serializeInto buffer
          rcases List.mem_cons.mp hmem with hfirst | hmem
          · rw [LogAnswer.filled.inj hfirst] at hdone
            exact (hnext.spent (hempty hdone) calls).1
          · exact ih hnext hmem

/-- A log that has not begun hands out its encoding, whatever buffers drain it. -/
theorem Handing.handedOut_eq (h : Handing begun given log) (hnone : log.handout = none)
    {first : Bytes} {later : List LogCall} {filling : Filling}
    (hmem : .filled filling ∈ (log.performAll (.serialize first :: later)).1)
    (hdone : filling.remaining = 0) :
    log.handedOut (.serialize first :: later) = log.table.encode := by
  have hgiven : given = [] := by
    have hwhole := h.whole
    rw [unread_of_handout_eq_none hnone] at hwhole
    exact List.append_left_eq_self.mp hwhole
  have hend := (h.performAll (.serialize first :: later)).whole
  obtain ⟨hnext, htable, -⟩ := h.serializeInto first
  have hframes : (log.performAll (.serialize first :: later)).2.table = log.table :=
    (hnext.table_performAll later).trans htable
  rw [h.drained hmem hdone, hframes, hgiven, List.append_nil, List.nil_append] at hend
  exact hend

/-- Frames are recorded and buffers filled in any order.  What has been handed out is always
a front of the encoding of the entries.  A frame is recorded as one more entry, or refused
without a change.  A buffer takes as much of what is left as it has room for, and keeps the
rest of its bytes; from then on the entries stay as they are, and after the last byte nothing
more is handed out.  However the buffers are chosen, once they have drained the log they hold
what a single large buffer takes. -/
theorem mixed_calls_hand_out_table {capacity : Nat} {checksums : Bool} {fresh : FrameLog}
    (hfresh : withCapacity capacity checksums = .ok fresh) (calls : List LogCall) :
    let given := fresh.handedOut calls
    let log := (fresh.performAll calls).2
    given <+: log.table.encode ∧
    (∀ frame, Records (LogCall.Begun calls) log frame (log.perform (.record frame)).1
      (log.perform (.record frame)).2) ∧
    (∀ buffer,
      let filling := (log.serializeInto buffer).1
      let log' := (log.serializeInto buffer).2
      Fills log given buffer filling ∧ ∀ later,
        (log'.performAll later).2.entries = log.entries ∧
          (filling.remaining = 0 → ∀ filling', .filled filling' ∈ (log'.performAll later).1 →
            filling'.produced = 0 ∧ filling'.remaining = 0)) ∧
    (¬ LogCall.Begun calls → ∀ first later filling whole,
      .filled filling ∈ (log.performAll (.serialize first :: later)).1 → filling.remaining = 0 →
        log.table.encodedSize ≤ whole.length →
          log.handedOut (.serialize first :: later) = (log.serializeInto whole).1.piece) := by
  intro given log
  have hlog : Handing (LogCall.Begun calls) given log := by
    have hstart := handing_empty checksums
    rw [← withCapacity_eq_ok hfresh] at hstart
    exact (hstart.performAll calls).congr ⟨fun hor => hor.resolve_left id, .inr⟩
  refine ⟨⟨_, hlog.whole⟩, perform_record hlog.begun, fun buffer => ?_, ?_⟩
  · obtain ⟨hnext, htable, hempty⟩ := hlog.serializeInto buffer
    refine ⟨hlog.fills buffer, fun later => ⟨?_, fun hdone => (hnext.spent (hempty hdone) later).2⟩⟩
    exact congrArg SeekTable.entries ((hnext.table_performAll later).trans htable)
  · intro hbegun first later filling whole hmem hdone hwhole
    have hnone : log.handout = none := not_not.mp fun hsome => hbegun (hlog.begun.mpr hsome)
    obtain ⟨-, -, hpiece, -⟩ := serializeInto_spec hlog.coherent whole
    rw [hlog.handedOut_eq hnone hmem hdone, hpiece, unread_of_handout_eq_none hnone,
      List.take_of_length_le (log.table.length_encode ▸ hwhole)]

/-- Two frames with checksums, handed out into buffers of five, no, twenty and forty bytes; the
frame that comes between them is refused. -/
theorem mixed_calls_hand_out_table_of_two :
    let log := ((empty true).performAll
      [.record ⟨9, 7, 0xDEAD⟩, .record ⟨maxFrameSize, 0, 0⟩]).2
    let later : List LogCall := [.record ⟨1, 1, 1⟩, .serialize [],
      .serialize (List.replicate 20 0xAA), .serialize (List.replicate 40 0xAA)]
    log.handedOut (.serialize (List.replicate 5 0xAA) :: later) =
        (log.serializeInto (List.replicate 41 0)).1.piece ∧
      ((log.serializeInto (List.replicate 5 0xAA)).2.performAll later).2.entries =
        #[⟨9, 7, some 0xDEAD⟩, ⟨0xFFFF_FFFF, 0, some 0⟩] := by
  intro log later
  have hfresh : withCapacity 2 true = .ok (empty true) := rfl
  obtain ⟨-, -, hfills, hdrained⟩ := mixed_calls_hand_out_table hfresh
    [.record ⟨9, 7, 0xDEAD⟩, .record ⟨maxFrameSize, 0, 0⟩]
  have hdone : ∃ filling, .filled filling ∈
      (log.performAll (.serialize (List.replicate 5 0xAA) :: later)).1 ∧ filling.remaining = 0 :=
    ⟨_, List.mem_of_getLast? rfl, by decide +kernel⟩
  obtain ⟨filling, hmem, hnothing⟩ := hdone
  constructor
  · exact hdrained (by simp [LogCall.Begun]) _ _ filling _ hmem hnothing (by decide +kernel)
  · obtain ⟨-, hlater⟩ := hfills (List.replicate 5 0xAA)
    rw [(hlater later).1]
    decide +kernel

end FrameLog
end SeekableArchive
