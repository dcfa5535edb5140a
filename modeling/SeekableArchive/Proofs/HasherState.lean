import SeekableArchive.Proofs.EagerEngine

/-!
# The hash of the open frame

A frame end begins a new hash whether or not one was kept.  So a writer that keeps no checksums
holds no hash until its first frame end, and hashes all that is written from then on.
-/

namespace SeekableArchive

/-- The hash that is held of the open frame after so many frame ends. -/
def heldHasher (checksums : Bool) (frames : Nat) (pending : Bytes) : Option Xxh64.Hasher :=
  if checksums = true ∨ 0 < frames then some (Xxh64.Hasher.start.update pending) else none

theorem isSome_heldHasher {checksums : Bool} {frames : Nat} {pending : Bytes} :
    (heldHasher checksums frames pending).isSome ↔ checksums = true ∨ 0 < frames := by
  rw [heldHasher]
  split <;> simp_all

theorem eq_of_heldHasher {checksums : Bool} {frames : Nat} {pending : Bytes}
    {hasher : Xxh64.Hasher} (h : heldHasher checksums frames pending = some hasher) :
    hasher = Xxh64.Hasher.start.update pending := by
  rw [heldHasher] at h
  split at h
  · exact (Option.some.inj h).symm
  · cases h

theorem heldHasher_append (checksums : Bool) (frames : Nat) (pending data : Bytes) :
    heldHasher checksums frames (pending ++ data) =
      (heldHasher checksums frames pending).map (·.update data) := by
  rw [heldHasher, heldHasher, ← Xxh64.Hasher.update_update]
  split <;> rfl

namespace Writer

variable {ε σ : Type} {checksums : Bool} {written data : Bytes} {w w' : Writer ε σ}

/-- After these bytes have been written, the last of them are pending, and the hash that is held
is theirs. -/
structure Hashes (checksums : Bool) (written : Bytes) (w : Writer ε σ) : Prop where
  balanced : w.Balanced
  pending : w.journal.flows.current.taken <:+ written
  held : w.hasher = heldHasher checksums w.frames w.journal.flows.current.taken

theorem hashes_fresh {config : Config} {e : ε} {s : σ} {j : Journal} {limit : Nat}
    (hflows : j.flows = {}) (hstored : j.stored = []) :
    (fresh config e s j limit).Hashes config.checksums [] where
  balanced := balanced_fresh hflows hstored
  pending := by simp [fresh, hflows]
  held := by
    have hpending : (fresh config e s j limit).journal.flows.current.taken = [] := by
      simp [fresh, hflows]
    have hframes : (fresh config e s j limit).frames = 0 := rfl
    rw [hpending, hframes, heldHasher, Xxh64.Hasher.start_update_nil]
    simp [fresh]

variable [Engine ε] [Sink σ]

theorem Hashes.endFrame (h : w.Hashes checksums written) (hrun : Action.endFrame w = .ok () w') :
    w'.Hashes checksums written := by
  obtain ⟨hbalanced, -, -, given, -, hflows⟩ := h.balanced.endFrame hrun
  obtain ⟨-, v, -, hrecord⟩ := Action.endFrame_eq_ok_iff.mp hrun
  obtain ⟨frameLog, hlog, rfl⟩ := Action.recordFrame_eq_ok_iff.mp hrecord
  obtain ⟨-, -, -, -, -, htable⟩ := FrameLog.record_eq_ok_iff.mp hlog
  have hframes : 0 < (v.recorded frameLog).frames := by
    show 0 < frameLog.table.entries.size
    rw [htable]
    simp [SeekTable.push]
  refine ⟨hbalanced, ?_, ?_⟩
  · rw [hflows, Flows.current_finish]
    exact List.nil_suffix
  · rw [hflows, Flows.current_finish, heldHasher, if_pos (.inr hframes)]
    rfl

theorem Hashes.takeIn (h : w.Hashes checksums written)
    (hrun : Action.takeIn data w = .ok () w') : w'.Hashes checksums (written ++ data) := by
  obtain ⟨hbalanced, -, -, given, -, hflows⟩ := h.balanced.takeIn hrun
  obtain ⟨-, v, hconsume, rfl⟩ := Action.takeIn_eq_ok_iff.mp hrun
  obtain ⟨e, s, j, count, rfl, -⟩ := Action.consume_eq_ok hconsume
  refine ⟨hbalanced, ?_, ?_⟩
  · rw [hflows, Flows.taken_fill]
    obtain ⟨front, hfront⟩ := h.pending
    exact ⟨front, by rw [← hfront, List.append_assoc]⟩
  · rw [hflows, Flows.taken_fill, heldHasher_append]
    exact congrArg (Option.map (·.update data)) h.held

/-- A full frame is ended first. -/
theorem Hashes.write (h : w.Hashes checksums written) (hrun : w.write data = (.ok (), w')) :
    w'.Hashes checksums (written ++ data) := by
  have haccept := write_eq_ok h.balanced.usable hrun
  rw [Action.run_accept, Action.bind_eq_ok_iff] at haccept
  obtain ⟨_, v, hend, htake⟩ := haccept
  rw [Action.endFrameIf_eq_ok_iff] at hend
  by_cases hfull : w.minFrameSize ≤ w.pendingUncompressed
  · rw [if_pos hfull] at hend
    exact (h.endFrame hend).takeIn htake
  · rw [if_neg hfull] at hend
    subst hend
    exact h.takeIn htake

theorem Hashes.accepts {writes : List Bytes} (h : w.Hashes checksums written)
    (hrun : w.Accepts writes w') : w'.Hashes checksums (written ++ writes.flatten) := by
  induction writes generalizing w written with
  | nil =>
      cases accepts_nil_iff.mp hrun
      simpa using h
  | cons data writes ih =>
      obtain ⟨v, hwrite, hrest⟩ := accepts_cons_iff.mp hrun
      rw [List.flatten_cons, ← List.append_assoc]
      exact ih (h.write hwrite) hrest

/-- A writer that still accepts writes holds a hash if and only if it keeps checksums or has
ended a frame, and that is the hash of what is pending. -/
theorem hasher_is_held_from_first_frame_end {config : Config} {engine : ε} {sink : σ} {limit : Nat}
    {opened w : Writer ε σ} {writes : List Bytes} {answers : List (Except Halt Unit)}
    (hopen : openWith config (.ok engine) (.ok sink) limit = .ok opened)
    (hwrites : opened.writeAll writes = (answers, w)) (husable : w.status = .usable) :
    (w.hasher.isSome ↔ config.checksums = true ∨ 0 < w.frames) ∧
    ∀ hasher, w.hasher = some hasher → hasher = Xxh64.Hasher.start.update
      (writes.flatten.drop (writes.flatten.length - w.pendingUncompressed)) := by
  obtain ⟨-, e, j, -, hflows, hstored, hfresh⟩ := openWith_eq_ok hopen
  have hopened : opened.Hashes config.checksums [] := by
    rw [hfresh]
    exact hashes_fresh hflows hstored
  have hw := hopened.accepts (accepts_of_usable hwrites husable).2
  have hpending := List.suffix_iff_eq_drop.mp hw.pending
  rw [← hw.balanced.uncompressed, List.nil_append] at hpending
  rw [hw.held]
  refine ⟨isSome_heldHasher, fun hasher hhasher => ?_⟩
  rw [← hpending]
  exact eq_of_heldHasher hhasher

end Writer

/-- One frame has been ended, and the write after that is hashed although no checksums are kept. -/
theorem EagerEngine.last_write_is_hashed :
    EagerEngine.config.checksums = false ∧ EagerEngine.run.written.frames = 1 ∧
      EagerEngine.run.written.hasher = some (Xxh64.Hasher.start.update [8]) := by
  have hframes : EagerEngine.run.written.frames = 1 := by decide +kernel
  have hpending : EagerEngine.run.written.pendingUncompressed = 1 := by decide +kernel
  obtain ⟨hheld, hhash⟩ := Writer.hasher_is_held_from_first_frame_end EagerEngine.run.opens
    EagerEngine.run.accepts (Writer.close_eq_ok EagerEngine.run.closes).1
  obtain ⟨hasher, hhasher⟩ := Option.isSome_iff_exists.mp
    (hheld.mpr (.inr (hframes ▸ Nat.one_pos)))
  refine ⟨rfl, hframes, ?_⟩
  rw [hhasher, hhash hasher hhasher, hpending]
  rfl

/-- Without checksums no hash is held when the writer is opened, but one is after a frame end. -/
theorem EagerEngine.hash_is_held_without_checksums :
    ¬ ∀ (config : Config) (opened w : Writer EagerEngine MemorySink) (limit : Nat)
      (writes : List Bytes) (answers : List (Except Halt Unit)),
      Writer.openWith config (.ok {}) (.ok {}) limit = .ok opened →
        opened.writeAll writes = (answers, w) → w.status = .usable →
          (w.hasher.isSome ↔ config.checksums = true) := by
  intro hclaim
  have hheld := hclaim EagerEngine.config EagerEngine.run.opened EagerEngine.run.written 4 _ _
    EagerEngine.run.opens EagerEngine.run.accepts (Writer.close_eq_ok EagerEngine.run.closes).1
  have hsome : EagerEngine.run.written.hasher.isSome := by decide +kernel
  exact Bool.false_ne_true (hheld.mp hsome)

end SeekableArchive
