import SeekableArchive.Proofs.EmptyWrites
import SeekableArchive.Proofs.StoredEngine

/-!
# Writes that make no difference

Empty writes do not show in the table, wherever they stand, nor does it matter whether data
comes in one write or in two, unless the first of the two fills the frame.
-/

namespace SeekableArchive

/-! ## The segments of changed writes -/

/-- The content of the open frame after the writes, if it has been `group` before. -/
def groupFrom (floor : Nat) (group : Bytes) : List Bytes → Bytes
  | [] => group
  | data :: writes =>
      if floor ≤ group.length then groupFrom floor data writes
      else groupFrom floor (group ++ data) writes

theorem groupFrom_append (floor : Nat) (group : Bytes) (before after : List Bytes) :
    groupFrom floor group (before ++ after) =
      groupFrom floor (groupFrom floor group before) after := by
  induction before generalizing group with
  | nil => rfl
  | cons data before ih =>
      by_cases hfull : floor ≤ group.length
      · simp only [List.cons_append, groupFrom, if_pos hfull, ih]
      · simp only [List.cons_append, groupFrom, if_neg hfull, ih]

/-- Of what has been written, later segments depend on the open frame only. -/
theorem exists_segmentsFrom_append (floor : Nat) (group : Bytes) (before : List Bytes) :
    ∃ ended : List Bytes, ∀ after, segmentsFrom floor group (before ++ after) =
      ended ++ segmentsFrom floor (groupFrom floor group before) after := by
  induction before generalizing group with
  | nil => exact ⟨[], fun _ => rfl⟩
  | cons data before ih =>
      by_cases hfull : floor ≤ group.length
      · obtain ⟨ended, hended⟩ := ih data
        refine ⟨group :: ended, fun after => ?_⟩
        simp only [List.cons_append, segmentsFrom, groupFrom, if_pos hfull, hended]
      · obtain ⟨ended, hended⟩ := ih (group ++ data)
        refine ⟨ended, fun after => ?_⟩
        simp only [List.cons_append, segmentsFrom, groupFrom, if_neg hfull, hended]

/-- A full group is ended by an empty write, by the next one or by the end alike. -/
theorem segmentsFrom_nil_cons {floor : Nat} (hfloor : 0 < floor) (group : Bytes)
    (writes : List Bytes) :
    segmentsFrom floor group ([] :: writes) = segmentsFrom floor group writes := by
  by_cases hfull : floor ≤ group.length
  · have hgroup : group ≠ [] := List.ne_nil_of_length_pos (Nat.lt_of_lt_of_le hfloor hfull)
    have hnone : ¬ floor ≤ ([] : Bytes).length := Nat.not_le.mpr hfloor
    cases writes with
    | nil => simp [segmentsFrom, hfull, hgroup]
    | cons data writes => simp only [segmentsFrom, if_pos hfull, if_neg hnone, List.nil_append]
  · rw [segmentsFrom, if_neg hfull, List.append_nil]

theorem segmentsFrom_filter {floor : Nat} (hfloor : 0 < floor) (group : Bytes)
    (writes : List Bytes) :
    segmentsFrom floor group (writes.filter (· ≠ [])) = segmentsFrom floor group writes := by
  induction writes generalizing group with
  | nil => rfl
  | cons data writes ih =>
      by_cases hdata : data = []
      · subst hdata
        rw [segmentsFrom_nil_cons hfloor, ← ih]
        rfl
      · rw [List.filter_cons_of_pos (by simpa using hdata)]
        simp only [segmentsFrom, ih]

theorem segments_eq_of_filter_eq {floor : Nat} (hfloor : 0 < floor) {writes writes' : List Bytes}
    (h : writes.filter (· ≠ []) = writes'.filter (· ≠ [])) :
    segments floor writes = segments floor writes' := by
  rw [segments, segments, ← segmentsFrom_filter hfloor, h, segmentsFrom_filter hfloor]

/-- Two writes may come as one unless the first of them leaves the frame full. -/
theorem segments_merge {floor : Nat} {before after : List Bytes} {a b : Bytes}
    (h : (groupFrom floor [] (before ++ [a])).length < floor) :
    segments floor (before ++ a :: b :: after) = segments floor (before ++ (a ++ b) :: after) := by
  obtain ⟨ended, hended⟩ := exists_segmentsFrom_append floor [] before
  rw [segments, segments, hended, hended]
  rw [groupFrom_append] at h
  congr 1
  by_cases hfull : floor ≤ (groupFrom floor [] before).length
  · simp only [groupFrom, if_pos hfull] at h
    simp only [segmentsFrom, if_pos hfull, if_neg (Nat.not_le.mpr h)]
  · simp only [groupFrom, if_neg hfull] at h
    simp only [segmentsFrom, if_neg hfull, if_neg (Nat.not_le.mpr h), List.append_assoc]

namespace Writer

variable {ε σ : Type} [Engine ε] [Sink σ] {w w' : Writer ε σ} {writes : List Bytes}

/-- The frame that accepted writes leave open. -/
theorem Balanced.current_accepts (h : w.Balanced) (hrun : w.Accepts writes w') :
    w'.journal.flows.current.taken =
      groupFrom w.minFrameSize w.journal.flows.current.taken writes := by
  induction writes generalizing w with
  | nil =>
      cases accepts_nil_iff.mp hrun
      rfl
  | cons data writes ih =>
      obtain ⟨v, hwrite, hrest⟩ := accepts_cons_iff.mp hrun
      obtain ⟨hv, hfloor, -, last, given, hflows⟩ := h.accept (write_eq_ok h.usable hwrite)
      rw [ih hv hrest, hfloor, hflows, h.uncompressed, groupFrom]
      by_cases hfull : w.minFrameSize ≤ w.journal.flows.current.taken.length
      · rw [if_pos hfull, if_pos hfull]
        rfl
      · rw [if_neg hfull, if_neg hfull]
        rfl

/-- Changes of the writes to a new writer that make no difference to the table: adding and
deleting empty ones, and joining two, the second of which is empty or the first of which
leaves less than a full frame pending. -/
inductive NeutralChange (opened : Writer ε σ) : List Bytes → List Bytes → Prop
  | emptied {writes writes' : List Bytes}
      (h : writes.filter (· ≠ []) = writes'.filter (· ≠ [])) : NeutralChange opened writes writes'
  | joined {before after : List Bytes} {a b : Bytes}
      (h : (opened.writeAll (before ++ [a])).2.stats.pendingUncompressed < opened.minFrameSize ∨
        b = []) :
      NeutralChange opened (before ++ a :: b :: after) (before ++ (a ++ b) :: after)

end Writer

namespace CleanRun

variable {ε σ σ' : Type} [Engine ε] [Sink σ] [Sink σ'] {config : Config} {engine : ε}
  {sink : σ} {sink' : σ'} {limit limit' : Nat} {writes writes' : List Bytes}

theorem pending_before (run : CleanRun config engine sink limit writes)
    {before after : List Bytes} (hsplit : writes = before ++ after) :
    (run.opened.writeAll before).2.stats.pendingUncompressed =
      (groupFrom config.minFrameSize [] before).length := by
  obtain ⟨v, hbefore, -, hv, -⟩ := run.balanced_between hsplit
  have htaken := run.balanced_opened.current_accepts hbefore
  rw [run.floor_opened, run.flows_opened] at htaken
  rw [show (run.opened.writeAll before).2 = v from congrArg Prod.snd hbefore, Writer.stats,
    if_neg (by simp [hv.usable])]
  exact hv.uncompressed.trans (congrArg List.length htaken)

theorem segments_eq_of_neutral (run : CleanRun config engine sink limit writes)
    (hneutral : run.opened.NeutralChange writes writes') :
    segments config.minFrameSize writes = segments config.minFrameSize writes' := by
  have hfloor := run.valid.floor_pos
  cases hneutral with
  | emptied h => exact segments_eq_of_filter_eq hfloor h
  | @joined before after a b h =>
      rcases h with hpending | rfl
      · rw [run.pending_before (List.append_cons before a (b :: after)), run.floor_opened]
          at hpending
        exact segments_merge hpending
      · apply segments_eq_of_filter_eq hfloor
        simp [List.filter_cons]

/-- Neutral changes of the writes leave the frames as they are.  The tables that are read back
list the same sizes and checksums of contents, and the summaries count the same frames and
bytes.  If the engine ignores calls without input, runs that differ in empty writes only make
the same archive. -/
theorem neutral_changes_keep_frames (run : CleanRun config engine sink limit writes)
    (run' : CleanRun config engine sink' limit' writes') (appending : Sink.Appending σ)
    (appending' : Sink.Appending σ') (hempty : appending.contents sink = [])
    (hempty' : appending'.contents sink' = [])
    (hneutral : run.opened.NeutralChange writes writes') :
    ∃ table table' : SeekTable,
      SeekTable.parse (appending.contents run.closed.sink) = .ok table ∧
      SeekTable.parse (appending'.contents run'.closed.sink) = .ok table' ∧
      table.entries.toList.map FrameEntry.uncompressedSize =
        table'.entries.toList.map FrameEntry.uncompressedSize ∧
      table.entries.toList.map FrameEntry.checksum =
        table'.entries.toList.map FrameEntry.checksum ∧
      run.summary.frames = run'.summary.frames ∧
      run.summary.bytesIn = run'.summary.bytesIn ∧
      (writes.filter (· ≠ []) = writes'.filter (· ≠ []) → ∀ (start : ε) (same : ε → ε → Prop),
        Engine.Configured config.settings engine start → Engine.Indistinguishable same →
          Engine.IgnoresEmpty start same →
            appending.contents run.closed.sink = appending'.contents run'.closed.sink) := by
  have hsegments := run.segments_eq_of_neutral hneutral
  obtain ⟨hparse, hsummary⟩ := run.summary_matches_table hempty
  obtain ⟨hparse', hsummary'⟩ := run'.summary_matches_table hempty'
  have hsizes : run.closed.frameLog.table.entries.toList.map FrameEntry.uncompressedSize =
      run'.closed.frameLog.table.entries.toList.map FrameEntry.uncompressedSize := by
    have hlengths := run.uncompressedSizes.trans
      ((congrArg (List.map List.length) hsegments).trans run'.uncompressedSizes.symm)
    apply List.map_injective_iff.mpr fun _ _ => UInt32.toNat_inj.mp
    simpa only [List.map_map, Function.comp_def] using hlengths
  have hbytes : (writes.map List.length).sum = (writes'.map List.length).sum := by
    rw [← List.length_flatten, ← List.length_flatten, ← flatten_segments config.minFrameSize,
      hsegments, flatten_segments]
  refine ⟨_, _, hparse, hparse', hsizes, ?_, ?_, ?_, ?_⟩
  · rw [run.checksums_eq, run'.checksums_eq, hsegments]
  · rw [hsummary, hsummary']
    simpa only [List.length_map, Array.length_toList] using congrArg List.length hsizes
  · rw [hsummary, hsummary']
    exact hbytes
  · intro hfilter start same hconfigured hindistinguishable hignores
    exact run.contents_eq_of_padded run' appending appending' hempty hempty'
      (padded_of_filter_eq hfilter) hconfigured hindistinguishable hignores

end CleanRun

/-! ## The storing engine -/

namespace Zstd
namespace StoredEngine

/-- What a frame that takes input has taken, or else the stage that the engine is in. -/
def outline (e : StoredEngine) : UInt32 × (Bytes ⊕ Stage) :=
  (e.workers,
    match e.stage with
    | .idle => .inl []
    | .filling _ inputs => .inl inputs.reverse.flatten
    | stage => .inr stage)

/-- Whether a frame has begun without any input does not matter. -/
def Alike (e f : StoredEngine) : Prop :=
  e.outline = f.outline

variable {e e' f : StoredEngine}

theorem outline_taking (h : e.stage = .idle ∨ ∃ isShared inputs, e.stage = .filling isShared inputs)
    (input : Bytes) {held : Bytes} (hheld : e.outline.2 = .inl held) :
    outline { e with stage := e.taking input } = (e.workers, .inl (held ++ input)) := by
  obtain hidle | ⟨isShared, inputs, hfilling⟩ := h
  · simp only [outline, hidle, Sum.inl.injEq] at hheld
    simp [outline, taking, hidle, ← hheld]
  · simp only [outline, hfilling, Sum.inl.injEq] at hheld
    simp [outline, taking, hfilling, ← hheld]

theorem alike_cases (h : Alike e f) :
    e = f ∨ ∃ held, e.outline = (e.workers, .inl held) ∧ f.outline = (e.workers, .inl held) := by
  obtain ⟨workers, stage⟩ := e
  obtain ⟨workers', stage'⟩ := f
  cases stage with
  | idle => exact .inr ⟨[], rfl, h.symm⟩
  | filling isShared inputs => exact .inr ⟨_, rfl, h.symm⟩
  | draining isShared left =>
      left
      cases stage' <;> simp_all [Alike, outline]
  | broken =>
      left
      cases stage' <;> simp_all [Alike, outline]

/-- An engine of which an outline tells what it holds is idle or takes input. -/
theorem open_of_outline {held : Bytes} (h : e.outline.2 = .inl held) :
    (e.stage = .idle ∨ ∃ isShared inputs, e.stage = .filling isShared inputs) ∧
      e.frame = storedFrame held := by
  obtain ⟨workers, stage⟩ := e
  cases stage with
  | idle =>
      cases h
      exact ⟨.inl rfl, rfl⟩
  | filling isShared inputs =>
      cases h
      exact ⟨.inr ⟨isShared, inputs, rfl⟩, rfl⟩
  | draining isShared left => cases h
  | broken => cases h

/-- Engines that give out the same frame do so in the same calls. -/
theorem drains_of_frame_eq {room : Nat} {given : Bytes} (hdrains : Engine.Drains room e given e')
    (he : e.stage ≠ .broken) (hf : f.stage ≠ .broken) (hframe : f.frame = e.frame) :
    Engine.Drains room f given { f with stage := .idle } := by
  induction hdrains generalizing f with
  | @last e e' step hcall hdone =>
      obtain ⟨isShared, hcomplete⟩ := compress_complete he room
      obtain ⟨isShared', hcomplete'⟩ := compress_complete hf room
      rw [hcomplete] at hcall
      cases hcall
      have hall : e.frame.drop room = [] := List.length_eq_zero_iff.mp hdone
      rw [hframe, if_pos hall] at hcomplete'
      exact .last hcomplete' hdone
  | @more e e' e'' step given hcall hmore hrest ih =>
      obtain ⟨isShared, hcomplete⟩ := compress_complete he room
      obtain ⟨isShared', hcomplete'⟩ := compress_complete hf room
      rw [hcomplete] at hcall
      cases hcall
      have hleft : ¬ e.frame.drop room = [] := fun hall => hmore (by simp [hall])
      rw [hframe, if_neg hleft] at hcomplete'
      simp only [if_neg hleft] at ih
      exact .more hcomplete' hmore
        (ih (f := { f with stage := .draining isShared' (e.frame.drop room) }) (by simp)
          (by simp) rfl)

theorem indistinguishable_alike : Engine.Indistinguishable Alike where
  equivalence := ⟨fun _ => rfl, Eq.symm, Eq.trans⟩
  room _ := rfl
  proceeds {e e' f input room step} halike hcall := by
    obtain rfl | ⟨held, he, hf⟩ := alike_cases halike
    · exact ⟨e', hcall, rfl⟩
    · obtain ⟨hopen, -⟩ := open_of_outline (congrArg Prod.snd he)
      obtain ⟨hopen', -⟩ := open_of_outline (congrArg Prod.snd hf)
      rw [compress_proceed hopen] at hcall
      cases hcall
      refine ⟨_, compress_proceed hopen' input room, ?_⟩
      have hworkers : e.workers = f.workers := (congrArg Prod.fst hf).symm
      rw [Alike, outline_taking hopen input (congrArg Prod.snd he),
        outline_taking hopen' input (congrArg Prod.snd hf), hworkers]
  ends {e e' f room given} halike hdrains := by
    obtain rfl | ⟨held, he, hf⟩ := alike_cases halike
    · exact ⟨e', hdrains, rfl⟩
    · obtain ⟨hopen, hframe⟩ := open_of_outline (congrArg Prod.snd he)
      obtain ⟨hopen', hframe'⟩ := open_of_outline (congrArg Prod.snd hf)
      have hworkers : e.workers = f.workers := (congrArg Prod.fst hf).symm
      have hsound := not_broken_of_open hopen
      obtain ⟨-, rfl⟩ := given_of_drains hdrains hsound
      refine ⟨_, drains_of_frame_eq hdrains hsound (not_broken_of_open hopen')
        (hframe'.trans hframe.symm), ?_⟩
      rw [Alike, outline, outline, hworkers]

theorem ignoresEmpty {start : StoredEngine} (hstart : start.stage = .idle) :
    Engine.IgnoresEmpty start Alike := by
  intro asked flows asking e e' step _ hsession hcall
  have hopen := (tracks_of_session hstart hsession).open_stage
  rw [compress_proceed hopen] at hcall
  cases hcall
  refine ⟨rfl, ?_⟩
  obtain ⟨held, hheld⟩ : ∃ held, e.outline = (e.workers, .inl held) := by
    obtain hidle | ⟨isShared, inputs, hfilling⟩ := hopen
    · exact ⟨[], by simp [outline, hidle]⟩
    · exact ⟨inputs.reverse.flatten, by simp [outline, hfilling]⟩
  rw [Alike, outline_taking hopen [] (congrArg Prod.snd hheld), hheld, List.append_nil]

/-- Frames of two bytes or more, with checksums. -/
def pairConfig : Config where
  minFrameSize := 2
  checksums := true

def plainRun : CleanRun pairConfig ({} : StoredEngine) ({} : MemorySink) 2
    [[1], [2, 3], [4], [5]] :=
  .ofAnswers ⟨2, 5, 64⟩ rfl (by decide +kernel) (by decide +kernel)

/-- The empty write in the middle ends a frame early. -/
def paddedRun : CleanRun pairConfig ({} : StoredEngine) ({} : MemorySink) 3
    [[], [1], [2, 3], [], [4], [5], []] :=
  .ofAnswers ⟨2, 5, 64⟩ rfl (by decide +kernel) (by decide +kernel)

def joinedRun : CleanRun pairConfig ({} : StoredEngine) ({} : MemorySink) 2
    [[1, 2, 3], [4], [5]] :=
  .ofAnswers ⟨2, 5, 64⟩ rfl (by decide +kernel) (by decide +kernel)

end StoredEngine

end Zstd

open Zstd.StoredEngine in
/-- With empty writes in between the archive is the same, and with the first two writes in one
the table lists the same contents. -/
theorem CleanRun.neutral_changes_keep_stored_frames :
    MemorySink.appending.contents plainRun.closed.sink =
        MemorySink.appending.contents paddedRun.closed.sink ∧
      ∃ table table' : SeekTable,
        SeekTable.parse (MemorySink.appending.contents plainRun.closed.sink) = .ok table ∧
        SeekTable.parse (MemorySink.appending.contents joinedRun.closed.sink) = .ok table' ∧
        table.entries.toList.map FrameEntry.checksum =
          table'.entries.toList.map FrameEntry.checksum := by
  constructor
  · obtain ⟨-, -, -, -, -, -, -, -, hsame⟩ := plainRun.neutral_changes_keep_frames paddedRun
      MemorySink.appending MemorySink.appending rfl rfl (.emptied (by decide))
    exact hsame (by decide) {} Alike (.set rfl (.set rfl (.set rfl .done)))
      indistinguishable_alike (ignoresEmpty rfl)
  · have hneutral : plainRun.opened.NeutralChange ([] ++ [1] :: [2, 3] :: [[4], [5]])
        ([] ++ ([1] ++ [2, 3]) :: [[4], [5]]) :=
      .joined (.inl (by decide +kernel))
    obtain ⟨table, table', hparse, hparse', -, hchecksums, -⟩ :=
      plainRun.neutral_changes_keep_frames joinedRun MemorySink.appending MemorySink.appending
        rfl rfl hneutral
    exact ⟨table, table', hparse, hparse', hchecksums⟩

end SeekableArchive
