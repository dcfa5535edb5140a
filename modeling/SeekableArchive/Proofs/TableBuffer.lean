import SeekableArchive.Proofs.ChunkSize
import SeekableArchive.Proofs.Recording

/-!
# The buffer for the table

Chunks of any positive size make a valid configuration.  The buffer that holds one of them is
reserved when all data has been accepted and the last frame has ended, and the size matters
to nothing before.  So one for which no buffer can be reserved costs the archive its table.
-/

namespace SeekableArchive

open Filter

namespace Writer

variable {ε σ : Type} [Engine ε] [Sink σ] {start : ε} {accepting : Sink.Accepting σ}
  {w w' v : Writer ε σ} {size : Nat}

theorem flows_close (husable : w.status = .usable) :
    w.close.2.journal.flows =
      (Action.leaves (Action.endFrameIf (0 < w.pendingUncompressed)) w).journal.flows := by
  cases hend : Action.endFrameIf (0 < w.pendingUncompressed) w with
  | error halt v =>
      have hcomplete := Action.complete_of_end_eq_error hend
      rw [flows_close_of_error husable hcomplete, Action.leaves_of_eq_error hend]
  | ok u v =>
      have hcomplete := Action.complete_of_end hend
      have hkept : Action.Ensures (fun w : Writer ε σ => w.journal.flows = v.journal.flows)
          Action.writeTable (fun _ w => w.journal.flows = v.journal.flows)
          fun w => w.journal.flows = v.journal.flows :=
        Action.ensures_writeTable (fun _ hw => hw) (fun _ _ hw => hw)
          (Action.flows_offer (R := (· = v.journal.flows))) fun _ _ hw => hw
      rw [Action.leaves_of_eq_ok hend]
      cases htable : Action.writeTable v with
      | error halt u =>
          rw [flows_close_of_error husable (hcomplete.trans htable)]
          exact hkept.of_eq_error rfl htable
      | ok _ u =>
          have hu := hkept.of_eq_ok rfl htable
          simp only [close, husable, hcomplete, htable, Action.onSink, Recorded.close]
          cases Sink.close u.sink with
          | error error s => exact hu
          | ok _ s => exact hu

/-! ## Another size -/

def resize (w : Writer ε σ) (size : Nat) : Writer ε σ :=
  { w with footerChunkSize := size }

omit [Engine ε] [Sink σ] in
theorem resized_eq_iff : Resized size Eq w w' ↔ w' = w.resize size := by
  constructor
  · rintro ⟨j, rfl, rfl⟩
    rfl
  · rintro rfl
    exact ⟨w.journal, rfl, rfl⟩

theorem run_endFrameIf_resize (p : Prop) [Decidable p] (w : Writer ε σ) (size : Nat) :
    Action.endFrameIf p (w.resize size) =
      match Action.endFrameIf p w with
      | .ok u v => .ok u (v.resize size)
      | .error halt v => .error halt (v.resize size) := by
  have hlockstep : Action.Lockstep (Resized size Eq : Writer ε σ → Writer ε σ → Prop)
      (Action.endFrameIf p) (Action.endFrameIf p) :=
    (Action.resized_coupled fun _ _ event h => congrArg (·.note event) h).endFrameIf Iff.rfl
  have hresized : Resized size Eq w (w.resize size) := resized_eq_iff.mpr rfl
  rcases hlockstep hresized with
    ⟨u, v, v', hend, hend', hv⟩ | ⟨halt, v, v', hend, hend', hv⟩
  · rw [hend, hend', resized_eq_iff.mp hv]
  · rw [hend, hend', resized_eq_iff.mp hv]

theorem endFrameIf_resize_eq_ok {p : Prop} [Decidable p]
    (h : Action.endFrameIf p w = .ok () v) (size : Nat) :
    Action.endFrameIf p (w.resize size) = .ok () (v.resize size) := by
  rw [run_endFrameIf_resize, h]

omit [Engine ε] [Sink σ] in
theorem Balanced.resize (h : w.Balanced) (size : Nat) : (w.resize size).Balanced :=
  ⟨h.usable, h.uncompressed, h.compressed, h.described, h.unserialized, h.hashed, h.stored⟩

/-- The same writes lead to the same answers and to writers that differ in the size alone. -/
theorem writeAll_resize (w : Writer ε σ) (size : Nat) (writes : List Bytes) :
    (w.resize size).writeAll writes =
      ((w.writeAll writes).1, (w.writeAll writes).2.resize size) := by
  have hcompanion : Companion (Resized size Eq : Writer ε σ → Writer ε σ → Prop) fun _ _ _ => False :=
    resized_companion fun j j' event h => congrArg (·.note event) h
  obtain ⟨hanswers, hlast⟩ :=
    hcompanion.inStep (resized_eq_iff.mpr rfl) writes writes List.prefix_rfl
  exact Prod.ext hanswers.symm (resized_eq_iff.mp hlast)

theorem Accepts.resize {writes : List Bytes} (h : w.Accepts writes w') (size : Nat) :
    (w.resize size).Accepts writes (w'.resize size) := by
  rw [Accepts] at h ⊢
  rw [writeAll_resize, h]

theorem flows_close_resize (w : Writer ε σ) (size : Nat) :
    (w.resize size).close.2.journal.flows = w.close.2.journal.flows := by
  by_cases husable : w.status = .usable
  · have hleft : Action.leaves (Action.endFrameIf (0 < w.pendingUncompressed)) (w.resize size) =
        (Action.leaves (Action.endFrameIf (0 < w.pendingUncompressed)) w).resize size := by
      rw [Action.leaves, Action.leaves, run_endFrameIf_resize]
      cases Action.endFrameIf (0 < w.pendingUncompressed) w <;> rfl
    rw [flows_close husable, flows_close (w := w.resize size) husable]
    exact congrArg (fun w => w.journal.flows) hleft
  · have hsame := flows_of_not_usable husable []
    have hsame' := flows_of_not_usable (w := w.resize size) husable []
    exact hsame'.trans hsame.symm

theorem Fits.resize {writes : List Bytes} (h : w.Fits writes) (size : Nat) :
    (w.resize size).Fits writes := by
  filter_upwards [h] with limit hfits flow hflow
  apply hfits
  change flow ∈ (((w.within limit).resize size).writeAll writes).2.close.2.journal.flows.all
    at hflow
  rwa [writeAll_resize, flows_close_resize] at hflow

/-! ## The last frame end -/

theorem Ready.ends_last_frame (hdependable : Engine.Dependable start)
    (h : w.Ready start accepting)
    (hsizes : ∀ content ∈ w.journal.flows.destined w.minFrameSize [],
      content.length ≤ maxFrameSize)
    (hcount : (w.journal.flows.destined w.minFrameSize []).length ≤ maxFrames)
    (hfits : w.Fits []) :
    ∃ v, Action.Settles (Action.endFrameIf (0 < w.pendingUncompressed)) w () v ∧
      v.Ready start accepting := by
  have hlog (hpending : 0 < w.pendingUncompressed) :
      w.frames < maxFrames ∧ w.pendingUncompressed ≤ maxFrameSize :=
    h.balanced.fits_log (h.balanced.destined_of_open hpending _) hsizes hcount
  have hmoderate : Action.Moderate (Action.endFrameIf (0 < w.pendingUncompressed)
      >>= fun _ => Action.writeTable) w :=
    (hfits.moderate_complete h.balanced.usable).of_run_eq fun limit =>
      (Action.run_complete (w.within limit)).symm
  exact h.endFrameIf_settles hdependable (fun hpending => (hlog hpending).1)
    (fun hpending => (hlog hpending).2) hmoderate.left

theorem Balanced.taken_ended_last (h : w.Balanced)
    (hend : Action.endFrameIf (0 < w.pendingUncompressed) w = .ok () v) (floor : Nat) :
    v.journal.flows.ended.map Flow.taken = w.journal.flows.destined floor [] := by
  rw [Action.endFrameIf_eq_ok_iff] at hend
  by_cases hopen : 0 < w.pendingUncompressed
  · rw [if_pos hopen] at hend
    obtain ⟨-, -, -, last, -, hflows⟩ := h.endFrame hend
    rw [hflows, Flows.destined_nil_of_open (h.pending_pos_iff.mp hopen) last]
  · rw [if_neg hopen] at hend
    rw [hend, Flows.destined_nil_of_empty]
    exact h.pending_eq_zero_iff.mp (Nat.eq_zero_of_not_pos hopen)

theorem close_of_buffer_eq_error {error : ArchiveError} (husable : w.status = .usable)
    (hend : Action.endFrameIf (0 < w.pendingUncompressed) w = .ok () v)
    (hbuffer : Reservation.buffer "seek table buffer" v.footerChunkSize = .error error) :
    w.close = (.error (.failed error), v.release) := by
  have hcomplete : Action.complete w = .error (.failed error) v := by
    rw [Action.complete_of_end hend, Action.writeTable_of_buffer_eq_error hbuffer]
  simp only [close, husable, hcomplete]

section Runs

variable {config : Config} {engine configured : ε} {sink : σ} {writes : List Bytes}

/-- Whatever the size of the chunks, all goes well until the table is to be written. -/
theorem reaches_table (accepting : Sink.Accepting σ) (hconfig : config.Valid)
    (hconfigured : Engine.Configured config.settings engine configured)
    (hdependable : Engine.Dependable configured) (hopen : accepting.IsOpen sink)
    (hempty : accepting.contents sink = [])
    (hsizes : ∀ segment ∈ segments config.minFrameSize writes, segment.length ≤ maxFrameSize)
    (hcount : (segments config.minFrameSize writes).length ≤ maxFrames)
    (hframes : ∀ᶠ limit in atTop, ∀ opened,
      openWith config (.ok engine) (.ok sink) limit = .ok opened →
        ∀ flow ∈ (opened.writeAll writes).2.close.2.journal.flows.all,
          flow.given.length ≤ maxFrameSize) :
    ∀ᶠ limit in atTop, ∃ opened written ended,
      openWith config (.ok engine) (.ok sink) limit = .ok opened ∧
      opened.Accepts writes written ∧ written.status = .usable ∧
      Action.endFrameIf (0 < written.pendingUncompressed) written = .ok () ended ∧
      ended.Balanced ∧ ended.Mirrors accepting ∧
      ended.footerChunkSize = config.footerChunkSize ∧
      ended.journal.flows.ended.map Flow.taken = segments config.minFrameSize writes := by
  obtain ⟨j, hflows, hstored, hopens⟩ := openWith_of_configured sink hconfig hconfigured
  -- A writer with the smallest chunks gets just as far, and has a buffer for them.
  have hsmallest : ({ config with footerChunkSize := 1 } : Config).Valid :=
    ⟨hconfig.floor_pos, hconfig.floor_le, Nat.one_pos⟩
  have hready : ((fresh config configured sink j 0).resize 1).Ready configured accepting :=
    ready_fresh hsmallest rfl hopen hflows hstored
  have hfits : (fresh config configured sink j 0).Fits writes := by
    filter_upwards [hframes] with limit hsmall
    exact hsmall _ (hopens limit)
  have hdestined : ((fresh config configured sink j 0).resize 1).journal.flows.destined
      ((fresh config configured sink j 0).resize 1).minFrameSize writes =
        segments config.minFrameSize writes := by
    change j.flows.destined config.minFrameSize writes = _
    rw [hflows, Flows.destined_empty]
  rw [← hdestined] at hsizes hcount
  obtain ⟨w, haccepts, hw, hfits', hfloor, hlast⟩ :=
    hready.accepts_settles hdependable hsizes hcount (hfits.resize 1)
  rw [← hlast, ← hfloor] at hsizes hcount
  obtain ⟨v, hends, hv⟩ := hw.ends_last_frame hdependable hsizes hcount hfits'
  filter_upwards [haccepts, hends] with limit haccept hend
  have hopened : (((fresh config configured sink j 0).resize 1).within limit).Mirrors accepting :=
    ⟨hopen, hempty.trans hstored.symm⟩
  have hwritten := hopened.accepts (balanced_within_iff.mpr hready.balanced) haccept
  have hended := (Action.mirrors_stable.endFrameIf _).of_eq_ok hwritten hend
  have hbalanced : (w.within limit).Balanced := balanced_within_iff.mpr hw.balanced
  have htaken := hbalanced.taken_ended_last hend
    ((fresh config configured sink j 0).resize 1).minFrameSize
  refine ⟨_, (w.within limit).resize config.footerChunkSize,
    (v.within limit).resize config.footerChunkSize, hopens limit,
    haccept.resize config.footerChunkSize, hw.balanced.usable, ?_, ?_, hended, rfl,
    htaken.trans (hlast.trans hdestined)⟩
  · exact endFrameIf_resize_eq_ok hend config.footerChunkSize
  · exact (balanced_within_iff.mpr hv.balanced).resize config.footerChunkSize

/-- The size of the chunks is put to the test when nothing else is left to do.  The
configuration is valid, the engine accepts its settings and is dependable from then on, and
the sink is open, empty and accepts everything.  The segments of the writes fit the table, and
so does what the engine makes of them.  Then, under every large enough limit, all writes
succeed, and the close does exactly if a buffer of that size can be reserved.  If it cannot,
the sink is left with all the frames, in which the segments are, and with nothing else. -/
theorem table_buffer_is_reserved_last (accepting : Sink.Accepting σ)
    (hvalid : config.validate = .ok ())
    (hconfigured : Engine.Configured config.settings engine configured)
    (hdependable : Engine.Dependable configured) (hopen : accepting.IsOpen sink)
    (hempty : accepting.contents sink = [])
    (hsizes : ∀ segment ∈ segments config.minFrameSize writes, segment.length ≤ maxFrameSize)
    (hcount : (segments config.minFrameSize writes).length ≤ maxFrames)
    (hframes : ∀ᶠ limit in atTop, ∀ opened,
      openWith config (.ok engine) (.ok sink) limit = .ok opened →
        ∀ flow ∈ (opened.writeAll writes).2.close.2.journal.flows.all,
          flow.given.length ≤ maxFrameSize) :
    ∀ᶠ limit in atTop, ∃ opened written,
      openWith config (.ok engine) (.ok sink) limit = .ok opened ∧
      opened.Accepts writes written ∧
      ((∃ summary, written.close.1 = .ok summary) ↔
        Reservation.reserve config.footerChunkSize = .ok ()) ∧
      ∀ failure, Reservation.reserve config.footerChunkSize = .error failure →
        written.close.1 = .error (.failed (.allocation ("seek table buffer (" ++
          toString config.footerChunkSize ++ " bytes): " ++ failure.message))) ∧
        written.close.2.journal.flows.ended.map Flow.taken =
          segments config.minFrameSize writes ∧
        accepting.contents written.close.2.sink = written.close.2.journal.flows.given := by
  have hconfig := Config.validate_eq_ok_iff.mp hvalid
  filter_upwards [reaches_table accepting hconfig hconfigured hdependable hopen hempty hsizes
    hcount hframes] with limit hrun
  obtain ⟨opened, written, ended, hopens, haccepts, husable, hend, hbalanced, hmirrors, hsize,
    htaken⟩ := hrun
  rw [← hsize]
  refine ⟨opened, written, hopens, haccepts, ⟨fun hcloses => ?_, fun hreserve => ?_⟩,
    fun failure hreserve => ?_⟩
  · obtain ⟨summary, hcloses⟩ := hcloses
    cases hreserve : Reservation.reserve ended.footerChunkSize with
    | ok u => rfl
    | error failure =>
        rw [close_of_buffer_eq_error husable hend (Action.buffer_eq_error _ hreserve)] at hcloses
        cases hcloses
  · obtain ⟨closed, hclose, -⟩ := close_accepted husable hend ⟨hbalanced.unserialized, rfl⟩
      hmirrors.1 (hsize ▸ hconfig.chunk_pos) hreserve
    exact ⟨_, congrArg Prod.fst hclose⟩
  · rw [close_of_buffer_eq_error husable hend (Action.buffer_eq_error _ hreserve)]
    exact ⟨rfl, htaken, hmirrors.2.trans hbalanced.stored⟩

end Runs

/-- One byte more than any buffer may hold. -/
def oversizedConfig : Config where
  minFrameSize := 2
  footerChunkSize := Reservation.maxCapacity + 1

theorem oversized_table_buffer_is_reserved_last :
    ∀ᶠ limit in atTop, ∃ opened written : Writer TerseEngine MemorySink,
      openWith oversizedConfig (.ok {}) (.ok {}) limit = .ok opened ∧
      opened.Accepts [[1, 2], [3]] written ∧
      written.close.1 = .error (.failed (.allocation ("seek table buffer (" ++
        toString oversizedConfig.footerChunkSize ++ " bytes): " ++
          ReservationFailure.capacityOverflow.message))) ∧
      written.close.2.journal.flows.ended.map Flow.taken = [[1, 2], [3]] ∧
      written.close.2.sink.contents = written.close.2.journal.flows.given := by
  have hopen : MemorySink.accepting.IsOpen {} := rfl
  have hvalid : oversizedConfig.validate = .ok () := rfl
  have hsizes : ∀ segment ∈ segments oversizedConfig.minFrameSize [[1, 2], [3]],
      segment.length ≤ maxFrameSize := by decide
  have hruns := table_buffer_is_reserved_last MemorySink.accepting hvalid TerseEngine.configured
    (TerseEngine.dependable {}) hopen rfl hsizes (by decide)
    (Eventually.of_forall fun _ _ hopened => TerseEngine.frames_short hopened _)
  filter_upwards [hruns] with limit hrun
  obtain ⟨opened, written, hopens, haccepts, -, hfails⟩ := hrun
  exact ⟨opened, written, hopens, haccepts, hfails .capacityOverflow (by decide)⟩

/-- The configuration is valid and the engine does what it should.  Both writes are accepted,
and then the close fails for want of a buffer. -/
theorem oversized_chunks_fail_close :
    oversizedConfig.validate = .ok () ∧
      Engine.Configured oversizedConfig.settings ({} : TerseEngine) {} ∧
      Engine.RespectsBuffers TerseEngine ∧ Engine.Dependable ({} : TerseEngine) ∧
      ∃ opened w : Writer TerseEngine MemorySink,
        openWith oversizedConfig (.ok {}) (.ok {}) 4 = .ok opened ∧
        opened.writeAll [[1, 2], [3]] = ([.ok (), .ok ()], w) ∧
        w.close.1 = .error (.failed (.allocation
          ("seek table buffer (9223372036854775808 bytes): memory allocation failed because the " ++
            "computed capacity exceeded the collection's maximum"))) ∧
        w.close.2.sink.contents = [0xFE, 0xFE] ∧
        ∀ flow ∈ w.close.2.journal.flows.all, flow.given.length ≤ maxFrameSize := by
  have hopens : ∃ opened : Writer TerseEngine MemorySink,
      openWith oversizedConfig (.ok {}) (.ok {}) 4 = .ok opened ∧
      (opened.writeAll [[1, 2], [3]]).1 = [.ok (), .ok ()] ∧
      (opened.writeAll [[1, 2], [3]]).2.close.1 = .error (.failed (.allocation
        ("seek table buffer (9223372036854775808 bytes): memory allocation failed because the " ++
          "computed capacity exceeded the collection's maximum"))) ∧
      (opened.writeAll [[1, 2], [3]]).2.close.2.sink.contents = [0xFE, 0xFE] :=
    ⟨_, rfl, by decide +kernel, by decide +kernel, by decide +kernel⟩
  obtain ⟨opened, hopen, hanswers, hclose, hcontents⟩ := hopens
  exact ⟨rfl, TerseEngine.configured, TerseEngine.respectsBuffers, TerseEngine.dependable {},
    opened, _, hopen, Prod.ext hanswers rfl, hclose, hcontents,
    TerseEngine.frames_short hopen [[1, 2], [3]]⟩

end Writer
end SeekableArchive
