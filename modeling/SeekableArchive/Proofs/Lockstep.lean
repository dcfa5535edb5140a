import SeekableArchive.Proofs.Following

/-!
# Writers in lockstep

Two writers are in lockstep under a relation if actions on them come to the same answer, or
stop for the same reason, and leave related writers behind: the one follows the other and
never parts from it.  What has to be shown are the engine call, the offer of its output and
the record of a frame; the loops and whole writes follow.
-/

namespace SeekableArchive
namespace Action

variable {ε ε' σ σ' α β : Type} {R : Writer ε σ → Writer ε' σ' → Prop}

/-- From related writers both actions end with the same answer, or both stop with the same
halt, and again in related writers. -/
def Lockstep (R : Writer ε σ → Writer ε' σ' → Prop) (act : Action ε σ α)
    (act' : Action ε' σ' α) : Prop :=
  ∀ ⦃w w'⦄, R w w' →
    (∃ a v v', act w = .ok a v ∧ act' w' = .ok a v' ∧ R v v') ∨
      ∃ halt v v', act w = .error halt v ∧ act' w' = .error halt v' ∧ R v v'

section Rules

variable {act : Action ε σ α} {act' : Action ε' σ' α}

theorem Lockstep.follows {S : ArchiveError → Writer ε' σ' → List Event → Prop}
    (h : Lockstep R act act') (hleads : Extends act) : Follows R S act act' where
  leads := hleads
  run hw := (h hw).imp_right Or.inl

theorem Follows.lockstep (h : Follows R (fun _ _ _ => False) act act') :
    Lockstep R act act' := by
  intro w w' hw
  rcases h.run hw with hok | herror | ⟨error, v', events, -, hparts, -⟩
  · exact .inl hok
  · exact .inr herror
  · exact hparts.elim

theorem Lockstep.bind {next : α → Action ε σ β} {next' : α → Action ε' σ' β}
    (h : Lockstep R act act') (hnext : ∀ a, Lockstep R (next a) (next' a)) :
    Lockstep R (act >>= next) (act' >>= next') := by
  intro w w' hw
  rcases h hw with ⟨a, v, v', hrun, hrun', hv⟩ | ⟨halt, v, v', hrun, hrun', hv⟩
  · rw [run_bind, run_bind, hrun, hrun']
    exact hnext a hv
  · rw [run_bind, run_bind, hrun, hrun']
    exact .inr ⟨halt, v, v', rfl, rfl, hv⟩

theorem lockstep_modify {f : Writer ε σ → Writer ε σ} {f' : Writer ε' σ' → Writer ε' σ'}
    (h : ∀ w w', R w w' → R (f w) (f' w')) :
    Lockstep R (modify f : Action ε σ PUnit) (modify f' : Action ε' σ' PUnit) :=
  fun w w' hw => .inl ⟨⟨⟩, f w, f' w', rfl, rfl, h w w' hw⟩

end Rules

variable [Engine ε] [Engine ε'] [Sink σ] [Sink σ']

/-- Related writers agree in what their loops and branches depend on, and stay in lockstep
in the steps of which these are made. -/
structure Coupled (R : Writer ε σ → Writer ε' σ' → Prop) : Prop where
  room {w : Writer ε σ} {w' : Writer ε' σ'} :
    R w w' → Engine.outputChunkSize w.engine = Engine.outputChunkSize w'.engine
  limit {w : Writer ε σ} {w' : Writer ε' σ'} : R w w' → w.callLimit = w'.callLimit
  floor {w : Writer ε σ} {w' : Writer ε' σ'} : R w w' → w.minFrameSize = w'.minFrameSize
  pending {w : Writer ε σ} {w' : Writer ε' σ'} :
    R w w' → w.pendingUncompressed = w'.pendingUncompressed
  compress (mode : FlushMode) (input : Bytes) (room : Nat) :
    Lockstep R (onEngine (Recorded.compress mode input room))
      (onEngine (Recorded.compress mode input room))
  append (chunk : Bytes) : Lockstep R (append chunk) (append chunk)
  record : Lockstep R recordFrame recordFrame
  credit {w : Writer ε σ} {w' : Writer ε' σ'} (data : Bytes) :
    R w w' → R (w.credit data) (w'.credit data)

namespace Coupled

theorem follower (h : Coupled R) : Follower R fun _ _ _ => False where
  room := h.room
  limit := h.limit
  floor := h.floor
  pending := h.pending
  compress mode input room := (h.compress mode input room).follows (extends_compress mode input room)
  append chunk := (h.append chunk).follows (extends_append chunk)
  record := h.record.follows extends_recordFrame
  credit := h.credit

theorem endFrameIf {p p' : Prop} [Decidable p] [Decidable p'] (h : Coupled R) (hp : p ↔ p') :
    Lockstep R (endFrameIf p) (endFrameIf p') :=
  (h.follower.endFrameIf hp).lockstep

end Coupled
end Action

namespace Writer

variable {ε ε' σ σ' : Type} [Engine ε] [Engine ε'] [Sink σ] [Sink σ']
  {R : Writer ε σ → Writer ε' σ' → Prop} {w : Writer ε σ} {w' : Writer ε' σ'}

/-- Writers that are coupled stay in step. -/
theorem Companion.inStep (h : Companion R fun _ _ _ => False) (hw : R w w')
    (writes : List Bytes) : Companion.InStep R w w' writes := by
  rcases h.writeAll hw writes with hstep |
    ⟨before, data, after, error, v', events, -, -, -, hparts, -⟩
  · exact hstep
  · exact hparts.elim

end Writer
end SeekableArchive
