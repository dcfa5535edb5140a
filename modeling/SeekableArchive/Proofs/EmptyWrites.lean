import SeekableArchive.Proofs.Checksums
import SeekableArchive.Proofs.InSession

/-!
# Empty writes

Two runs whose writes differ in empty ones only are not in step: an empty write may end a
frame that the other run ends at its next write, or when it is closed.  What the two agree
on is what a writer finds once its frame, if it is full, is ended.  To that an empty write
is a stutter if the engine ignores calls without input, so both runs end with the same
frames and make the same archive.
-/

namespace SeekableArchive

namespace Engine

variable {ε : Type} [Engine ε] {room : Nat} {e e' f f' : ε} {data given given' : Bytes}

/-- Related states cannot be told apart by a writer: they ask for buffers of the same size,
answer what is offered alike, and end a frame with the same output. -/
structure Indistinguishable (same : ε → ε → Prop) : Prop where
  equivalence : Equivalence same
  room {e f : ε} : same e f → outputChunkSize e = outputChunkSize f
  proceeds {e e' f : ε} {input : Bytes} {room : Nat} {step : EngineStep} :
    same e f → compress .proceed input room e = .ok step e' →
      ∃ f', compress .proceed input room f = .ok step f' ∧ same e' f'
  ends {e e' f : ε} {room : Nat} {given : Bytes} :
    same e f → Drains room e given e' → ∃ f', Drains room f given f' ∧ same e' f'

/-- In every session, a call without input gives out nothing and leaves a state behind that
cannot be told from the one before. -/
def IgnoresEmpty (start : ε) (same : ε → ε → Prop) : Prop :=
  ∀ ⦃asked flows : Flows⦄ ⦃asking e e' : ε⦄ ⦃step : EngineStep⦄,
    Session start asked asking → Session start flows e →
      compress .proceed [] (outputChunkSize asking) e = .ok step e' →
        step.output = [] ∧ same e' e

theorem IgnoresEmpty.quiet {start : ε} {same : ε → ε → Prop} (h : IgnoresEmpty start same) :
    Quiet start :=
  fun _ _ _ _ _ _ hasked hsession _ hcall => (h hasked hsession hcall).1

/-- An engine ends a frame in one way. -/
theorem Drains.unique (h : Drains room e given e') (h' : Drains room e given' f') :
    given = given' ∧ e' = f' := by
  induction h generalizing given' with
  | last hcall hdone =>
      cases h' with
      | last hcall' _ =>
          cases hcall.symm.trans hcall'
          exact ⟨rfl, rfl⟩
      | more hcall' hmore _ =>
          cases hcall.symm.trans hcall'
          exact absurd hdone hmore
  | more hcall hmore _ ih =>
      cases h' with
      | last hcall' hdone =>
          cases hcall.symm.trans hcall'
          exact absurd hdone hmore
      | more hcall' _ hrest =>
          cases hcall.symm.trans hcall'
          obtain ⟨hgiven, hlast⟩ := ih hrest
          exact ⟨congrArg _ hgiven, hlast⟩

namespace Indistinguishable

variable {same : ε → ε → Prop}

theorem drains (h : Indistinguishable same) (hsame : same e f) (hdrains : Drains room e given e')
    (hdrains' : Drains room f given' f') : given = given' ∧ same e' f' := by
  obtain ⟨last, hends, hlast⟩ := h.ends hsame hdrains
  obtain ⟨hgiven, rfl⟩ := hends.unique hdrains'
  exact ⟨hgiven, hlast⟩

theorem feeds (h : Indistinguishable same) (hsame : same e f) (hfeeds : Feeds room e data given e')
    (hfeeds' : Feeds room f data given' f') : given = given' ∧ same e' f' := by
  induction hfeeds generalizing f given' with
  | last hcall hdone =>
      obtain ⟨next, hnext, hsame'⟩ := h.proceeds hsame hcall
      cases hfeeds' with
      | last hcall' _ =>
          cases hnext.symm.trans hcall'
          exact ⟨rfl, hsame'⟩
      | more hcall' hmore _ =>
          cases hnext.symm.trans hcall'
          exact absurd hdone hmore
  | more hcall hmore _ ih =>
      obtain ⟨next, hnext, hsame'⟩ := h.proceeds hsame hcall
      cases hfeeds' with
      | last hcall' hdone =>
          cases hnext.symm.trans hcall'
          exact absurd hdone hmore
      | more hcall' _ hrest =>
          cases hnext.symm.trans hcall'
          obtain ⟨hgiven, hlast⟩ := ih hsame' hrest
          exact ⟨congrArg _ hgiven, hlast⟩

end Indistinguishable

/-- Data without bytes is taken in by a single call. -/
theorem Feeds.of_empty {start asking : ε} {asked flows : Flows} {same : ε → ε → Prop}
    (h : IgnoresEmpty start same) (hasked : Session start asked asking)
    (hsession : Session start flows e) (hfeeds : Feeds (outputChunkSize asking) e [] given e') :
    given = [] ∧ same e' e := by
  cases hfeeds with
  | last hcall _ => exact h hasked hsession hcall
  | more _ hmore _ => exact absurd List.drop_nil hmore

end Engine

/-! ## What the next write finds -/

namespace Writer

variable {ε σ σ' : Type} [Engine ε] [Sink σ] [Sink σ']

/-- What has flowed, and the engine, once the frame of the writer is ended if it is full. -/
inductive Resumes (w : Writer ε σ) : Flows → ε → Prop
  | afresh {given : Bytes} {e : ε} (hfull : w.minFrameSize ≤ w.pendingUncompressed)
      (hdrains : Engine.Drains (Engine.outputChunkSize w.engine) w.engine given e) :
      w.Resumes (w.journal.flows.fill [] given).finish e
  | within (hroom : ¬ w.minFrameSize ≤ w.pendingUncompressed) :
      w.Resumes w.journal.flows w.engine

variable {start : ε} {same : ε → ε → Prop} {w v : Writer ε σ} {w' v' : Writer ε σ'}
  {flows flows' : Flows} {e e' : ε} {data : Bytes}

omit [Sink σ] in
theorem Resumes.unique (h : w.Resumes flows e) (h' : w.Resumes flows' e') :
    flows = flows' ∧ e = e' := by
  cases h with
  | afresh hfull hdrains =>
      cases h' with
      | afresh _ hdrains' =>
          obtain ⟨rfl, rfl⟩ := hdrains.unique hdrains'
          exact ⟨rfl, rfl⟩
      | within hroom => exact absurd hfull hroom
  | within hroom =>
      cases h' with
      | afresh hfull _ => exact absurd hfull hroom
      | within _ => exact ⟨rfl, rfl⟩

omit [Sink σ] in
theorem Resumes.session (h : w.Resumes flows e) (hw : w.InSession start) :
    Engine.Session start flows e := by
  cases h with
  | afresh _ hdrains => exact .finish hw.session hdrains
  | within _ => exact hw.session

omit [Sink σ] in
theorem Resumes.below_floor (h : w.Resumes flows e) (hw : w.Balanced)
    (hfloor : 0 < w.minFrameSize) : flows.current.taken.length < w.minFrameSize := by
  cases h with
  | afresh _ _ => exact hfloor
  | within hroom =>
      rw [← hw.uncompressed]
      exact Nat.not_le.mp hroom

theorem Balanced.resumes_accept (h : w.Balanced) (hrun : Action.accept data w = .ok () v) :
    ∃ flows e given, w.Resumes flows e ∧
      Engine.Feeds (Engine.outputChunkSize e) e data given v.engine ∧
      v.journal.flows = flows.fill data given := by
  rw [Action.run_accept, Action.bind_eq_ok_iff] at hrun
  obtain ⟨_, u, hend, htake⟩ := hrun
  rw [Action.endFrameIf_eq_ok_iff] at hend
  by_cases hfull : w.minFrameSize ≤ w.pendingUncompressed
  · rw [if_pos hfull] at hend
    obtain ⟨hu, -, -, last, hdrains, hflows⟩ := h.endFrame hend
    obtain ⟨-, -, -, given, hfeeds, hflows'⟩ := hu.takeIn htake
    rw [hflows] at hflows'
    exact ⟨_, _, given, .afresh hfull hdrains, hfeeds, hflows'⟩
  · rw [if_neg hfull] at hend
    subst hend
    obtain ⟨-, -, -, given, hfeeds, hflows⟩ := h.takeIn htake
    exact ⟨_, _, given, .within hfull, hfeeds, hflows⟩

/-- An empty write ends a full frame and changes nothing else. -/
theorem InSession.resumes_empty (hignores : Engine.IgnoresEmpty start same)
    (hw : w.InSession start) (hfloor : 0 < w.minFrameSize)
    (hrun : Action.accept [] w = .ok () v) :
    ∃ flows e, w.Resumes flows e ∧ v.Resumes flows v.engine ∧ same v.engine e := by
  obtain ⟨hv, hkept, -, -⟩ := hw.balanced.accept hrun
  obtain ⟨flows, e, given, hresumes, hfeeds, hflows⟩ := hw.balanced.resumes_accept hrun
  have hsession := hresumes.session hw
  obtain ⟨rfl, hsame⟩ := hfeeds.of_empty hignores hsession hsession
  have hstays : v.journal.flows = flows := by
    rw [hflows, Flows.fill, List.append_nil, List.append_nil]
  -- What is resumed is never full, so the next write does not end it again.
  have hroom : ¬ v.minFrameSize ≤ v.pendingUncompressed := by
    rw [hkept, hv.uncompressed, hstays]
    exact Nat.not_le.mpr (hresumes.below_floor hw.balanced hfloor)
  refine ⟨flows, e, hresumes, ?_, hsame⟩
  rw [← hstays]
  exact .within hroom

/-- A close ends what it resumes, if that holds anything. -/
theorem Balanced.resumes_close {summary : Summary} (h : w.Balanced) (hfloor : 0 < w.minFrameSize)
    (hrun : w.close = (.ok summary, v)) :
    ∃ flows e, w.Resumes flows e ∧
      (flows.current.taken = [] ∧ v.journal.flows = flows ∨
        flows.current.taken ≠ [] ∧ ∃ last e',
          Engine.Drains (Engine.outputChunkSize e) e last e' ∧
            v.journal.flows = (flows.fill [] last).finish) := by
  obtain ⟨-, last, hdrains, hflows⟩ := h.close hrun
  by_cases hpending : 0 < w.pendingUncompressed
  · obtain ⟨e, hdrains⟩ := hdrains hpending
    rw [if_pos hpending] at hflows
    by_cases hfull : w.minFrameSize ≤ w.pendingUncompressed
    · exact ⟨_, e, .afresh hfull hdrains, .inl ⟨rfl, hflows⟩⟩
    · exact ⟨_, _, .within hfull, .inr ⟨h.pending_pos_iff.mp hpending, last, e, hdrains, hflows⟩⟩
  · rw [if_neg hpending] at hflows
    have hempty := h.pending_eq_zero_iff.mp (Nat.eq_zero_of_not_pos hpending)
    exact ⟨_, _, .within (by omega), .inl ⟨hempty, hflows⟩⟩

/-! ## Two writers that resume the same -/

/-- Both writers are in sessions from the same start, with the same floor, and resume what
has flowed alike with engines that cannot be told apart. -/
structure Meet (start : ε) (same : ε → ε → Prop) (w : Writer ε σ) (w' : Writer ε σ') :
    Prop where
  left : w.InSession start
  right : w'.InSession start
  floor_pos : 0 < w.minFrameSize
  floor : w.minFrameSize = w'.minFrameSize
  resumes {flows flows' : Flows} {e e' : ε} :
    w.Resumes flows e → w'.Resumes flows' e' → flows = flows' ∧ same e e'

omit [Sink σ] [Sink σ'] in
theorem Meet.symm (h : Meet start same w w') (hsame : Equivalence same) :
    Meet start same w' w where
  left := h.right
  right := h.left
  floor_pos := h.floor ▸ h.floor_pos
  floor := h.floor.symm
  resumes hright hleft := by
    obtain ⟨hflows, hengines⟩ := h.resumes hleft hright
    exact ⟨hflows.symm, hsame.symm hengines⟩

omit [Sink σ] [Sink σ'] in
theorem meet_of_flows_eq (hindistinguishable : Engine.Indistinguishable same)
    (hw : w.InSession start) (hw' : w'.InSession start) (hpos : 0 < w.minFrameSize)
    (hfloor : w.minFrameSize = w'.minFrameSize) (hflows : w.journal.flows = w'.journal.flows)
    (hengines : same w.engine w'.engine) : Meet start same w w' where
  left := hw
  right := hw'
  floor_pos := hpos
  floor := hfloor
  resumes h h' := by
    have hpending : w.pendingUncompressed = w'.pendingUncompressed := by
      rw [hw.balanced.uncompressed, hw'.balanced.uncompressed, hflows]
    cases h with
    | afresh hfull hdrains =>
        cases h' with
        | afresh _ hdrains' =>
            rw [← hindistinguishable.room hengines] at hdrains'
            obtain ⟨rfl, hlast⟩ := hindistinguishable.drains hengines hdrains hdrains'
            exact ⟨by rw [hflows], hlast⟩
        | within hroom => exact absurd (hfloor ▸ hpending ▸ hfull) hroom
    | within hroom =>
        cases h' with
        | afresh hfull _ => exact absurd hfull (hfloor ▸ hpending ▸ hroom)
        | within _ => exact ⟨hflows, hengines⟩

omit [Sink σ'] in
/-- An empty write to the one writer is a stutter. -/
theorem Meet.accept_empty (h : Meet start same w w')
    (hindistinguishable : Engine.Indistinguishable same)
    (hignores : Engine.IgnoresEmpty start same) (hrun : Action.accept [] w = .ok () v) :
    Meet start same v w' := by
  have hkept : v.minFrameSize = w.minFrameSize := (h.left.balanced.accept hrun).2.1
  obtain ⟨flows, e, hw, hv, hsame⟩ := h.left.resumes_empty hignores h.floor_pos hrun
  constructor
  · exact h.left.accept hignores.quiet hrun
  · exact h.right
  · exact hkept ▸ h.floor_pos
  · exact hkept.trans h.floor
  · intro flows' flows'' e' e'' hleft hright
    obtain ⟨rfl, rfl⟩ := hv.unique hleft
    obtain ⟨hflows, hengines⟩ := h.resumes hw hright
    exact ⟨hflows, hindistinguishable.equivalence.trans hsame hengines⟩

theorem Meet.accept (h : Meet start same w w')
    (hindistinguishable : Engine.Indistinguishable same)
    (hignores : Engine.IgnoresEmpty start same) (hrun : Action.accept data w = .ok () v)
    (hrun' : Action.accept data w' = .ok () v') : Meet start same v v' := by
  obtain ⟨-, hkept, -, -⟩ := h.left.balanced.accept hrun
  obtain ⟨-, hkept', -, -⟩ := h.right.balanced.accept hrun'
  obtain ⟨flows, e, given, hw, hfeeds, hflows⟩ := h.left.balanced.resumes_accept hrun
  obtain ⟨flows', e', given', hw', hfeeds', hflows'⟩ := h.right.balanced.resumes_accept hrun'
  obtain ⟨rfl, hengines⟩ := h.resumes hw hw'
  rw [← hindistinguishable.room hengines] at hfeeds'
  obtain ⟨rfl, hlast⟩ := hindistinguishable.feeds hengines hfeeds hfeeds'
  apply meet_of_flows_eq hindistinguishable
  · exact h.left.accept hignores.quiet hrun
  · exact h.right.accept hignores.quiet hrun'
  · exact hkept ▸ h.floor_pos
  · rw [hkept, hkept', h.floor]
  · rw [hflows, hflows']
  · exact hlast

/-- Closed writers that met have ended the same frames. -/
theorem Meet.flows_closed {summary summary' : Summary} (h : Meet start same w w')
    (hindistinguishable : Engine.Indistinguishable same) (hrun : w.close = (.ok summary, v))
    (hrun' : w'.close = (.ok summary', v')) : v.journal.flows = v'.journal.flows := by
  obtain ⟨flows, e, hw, hclosed⟩ := h.left.balanced.resumes_close h.floor_pos hrun
  obtain ⟨flows', e', hw', hclosed'⟩ :=
    h.right.balanced.resumes_close (h.floor ▸ h.floor_pos) hrun'
  obtain ⟨rfl, hengines⟩ := h.resumes hw hw'
  rw [← hindistinguishable.room hengines] at hclosed'
  -- One of them may have ended its last frame before; the other has then nothing else to end.
  rcases hclosed with ⟨hempty, hflows⟩ | ⟨hopen, last, _, hdrains, hflows⟩
  · rcases hclosed' with ⟨-, hflows'⟩ | ⟨hopen, -⟩
    · exact hflows.trans hflows'.symm
    · exact absurd hempty hopen
  · rcases hclosed' with ⟨hempty, -⟩ | ⟨-, last', _, hdrains', hflows'⟩
    · exact absurd hempty hopen
    · obtain ⟨rfl, -⟩ := hindistinguishable.drains hengines hdrains hdrains'
      exact hflows.trans hflows'.symm

end Writer

/-- The same writes, with empty ones here and there in both lists. -/
inductive Padded : List Bytes → List Bytes → Prop
  | nil : Padded [] []
  | left {writes writes' : List Bytes} (h : Padded writes writes') : Padded ([] :: writes) writes'
  | right {writes writes' : List Bytes} (h : Padded writes writes') : Padded writes ([] :: writes')
  | both (data : Bytes) {writes writes' : List Bytes} (h : Padded writes writes') :
      Padded (data :: writes) (data :: writes')

theorem padded_of_filter_eq {writes writes' : List Bytes}
    (h : writes.filter (· ≠ []) = writes'.filter (· ≠ [])) : Padded writes writes' := by
  induction writes generalizing writes' with
  | nil =>
      induction writes' with
      | nil => exact .nil
      | cons data writes' ih =>
          by_cases hdata : data = []
          · subst hdata
            exact .right (ih h)
          · simp [hdata] at h
  | cons data writes ih =>
      by_cases hdata : data = []
      · subst hdata
        exact .left (ih h)
      · -- The same write stands in the other list behind empty ones.
        induction writes' with
        | nil => simp [hdata] at h
        | cons data' writes' ih' =>
            by_cases hdata' : data' = []
            · subst hdata'
              exact .right (ih' h)
            · simp only [hdata, hdata', ne_eq, not_false_eq_true, decide_true,
                List.filter_cons_of_pos, List.cons.injEq] at h
              obtain ⟨rfl, hrest⟩ := h
              exact .both data (ih hrest)

namespace Writer

variable {ε σ σ' : Type} [Engine ε] [Sink σ] [Sink σ'] {start : ε} {same : ε → ε → Prop}
  {w v : Writer ε σ} {w' v' : Writer ε σ'} {writes writes' : List Bytes}

theorem Meet.accepts (hpadded : Padded writes writes') (h : Meet start same w w')
    (hindistinguishable : Engine.Indistinguishable same)
    (hignores : Engine.IgnoresEmpty start same) (hrun : w.Accepts writes v)
    (hrun' : w'.Accepts writes' v') : Meet start same v v' := by
  induction hpadded generalizing w w' with
  | nil =>
      cases accepts_nil_iff.mp hrun
      cases accepts_nil_iff.mp hrun'
      exact h
  | left _ ih =>
      obtain ⟨u, hwrite, hrest⟩ := accepts_cons_iff.mp hrun
      have haccept := write_eq_ok h.left.balanced.usable hwrite
      exact ih (h.accept_empty hindistinguishable hignores haccept) hrest hrun'
  | right _ ih =>
      obtain ⟨u, hwrite, hrest⟩ := accepts_cons_iff.mp hrun'
      have haccept := write_eq_ok h.right.balanced.usable hwrite
      have hsymm := hindistinguishable.equivalence
      exact ih (((h.symm hsymm).accept_empty hindistinguishable hignores haccept).symm hsymm)
        hrun hrest
  | both data _ ih =>
      obtain ⟨u, hwrite, hrest⟩ := accepts_cons_iff.mp hrun
      obtain ⟨u', hwrite', hrest'⟩ := accepts_cons_iff.mp hrun'
      have haccept := write_eq_ok h.left.balanced.usable hwrite
      have haccept' := write_eq_ok h.right.balanced.usable hwrite'
      exact ih (h.accept hindistinguishable hignores haccept haccept') hrest hrest'

end Writer

/-! ## The archives -/

theorem FrameEntry.describes_leftUnique (checksums : Bool) :
    Relator.LeftUnique (FrameEntry.Describes checksums) := by
  rintro ⟨compressed, uncompressed, checksum⟩ ⟨compressed', uncompressed', checksum'⟩ flow h h'
  have hcompressed : compressed = compressed' :=
    UInt32.toNat_inj.mp (h.compressed.trans h'.compressed.symm)
  have huncompressed : uncompressed = uncompressed' :=
    UInt32.toNat_inj.mp (h.uncompressed.trans h'.uncompressed.symm)
  have hchecksum : checksum = checksum' := h.checksum.trans h'.checksum.symm
  rw [hcompressed, huncompressed, hchecksum]

/-- Frames are described by one table only. -/
theorem FrameLog.Describes.table_unique {log log' : FrameLog} {ended : List Flow}
    (h : log.Describes ended) (h' : log'.Describes ended)
    (hchecksums : log.checksums = log'.checksums) : log.table = log'.table := by
  rw [FrameLog.Describes, ← hchecksums] at h'
  have hentries := List.left_unique_forall₂' (FrameEntry.describes_leftUnique _) h h'
  obtain ⟨⟨checksums, entries, uniform⟩, handout, bounded⟩ := log
  obtain ⟨⟨checksums', entries', uniform'⟩, handout', bounded'⟩ := log'
  obtain rfl : checksums = checksums' := hchecksums
  obtain rfl : entries = entries' := Array.toList_inj.mp hentries
  rfl

namespace CleanRun

variable {ε σ σ' : Type} [Engine ε] [Sink σ] [Sink σ'] {config : Config} {engine start : ε}
  {same : ε → ε → Prop} {sink : σ} {sink' : σ'} {limit limit' : Nat}
  {writes writes' : List Bytes}

/-- Runs whose writes differ in empty ones only end the same frames, if the engine ignores
calls without input. -/
theorem flows_closed_of_padded (run : CleanRun config engine sink limit writes)
    (run' : CleanRun config engine sink' limit' writes') (hpadded : Padded writes writes')
    (hconfigured : Engine.Configured config.settings engine start)
    (hindistinguishable : Engine.Indistinguishable same)
    (hignores : Engine.IgnoresEmpty start same) :
    run.closed.journal.flows = run'.closed.journal.flows := by
  obtain ⟨hopened, hengine⟩ := run.inSession_opened hconfigured
  obtain ⟨hopened', hengine'⟩ := run'.inSession_opened hconfigured
  have hmeet : Writer.Meet start same run.opened run'.opened := by
    apply Writer.meet_of_flows_eq hindistinguishable hopened hopened'
    · exact run.floor_opened ▸ run.valid.floor_pos
    · exact run.floor_opened.trans run'.floor_opened.symm
    · exact run.flows_opened.trans run'.flows_opened.symm
    · rw [hengine, hengine']
      exact hindistinguishable.equivalence.refl start
  have hwritten := hmeet.accepts hpadded hindistinguishable hignores run.accepts run'.accepts
  exact hwritten.flows_closed hindistinguishable run.closes run'.closes

/-- And they make the same archive. -/
theorem contents_eq_of_padded (run : CleanRun config engine sink limit writes)
    (run' : CleanRun config engine sink' limit' writes') (appending : Sink.Appending σ)
    (appending' : Sink.Appending σ') (hempty : appending.contents sink = [])
    (hempty' : appending'.contents sink' = []) (hpadded : Padded writes writes')
    (hconfigured : Engine.Configured config.settings engine start)
    (hindistinguishable : Engine.Indistinguishable same)
    (hignores : Engine.IgnoresEmpty start same) :
    appending.contents run.closed.sink = appending'.contents run'.closed.sink := by
  have hflows := run.flows_closed_of_padded run' hpadded hconfigured hindistinguishable hignores
  have htable : run.closed.frameLog.table = run'.closed.frameLog.table := by
    have hdescribed := run'.sealed_closed.described
    rw [← hflows] at hdescribed
    apply run.sealed_closed.described.table_unique hdescribed
    exact run.checksums_closed.trans run'.checksums_closed.symm
  rw [(run.whole_closed hempty).contents, (run'.whole_closed hempty').contents,
    run.sealed_closed.stored, run'.sealed_closed.stored, hflows, htable]

end CleanRun

end SeekableArchive
