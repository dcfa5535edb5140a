import SeekableArchive.Proofs.Session
import SeekableArchive.Proofs.StoredFrames

/-!
# Sessions of the storing engine

Between writes and frame ends the storing engine is idle or holds exactly what its open
frame has taken in.  So it never refuses a call of a writer, and each of its frames
decodes to what was taken in.
-/

namespace SeekableArchive
namespace Zstd
namespace StoredEngine

variable {e e' : StoredEngine}

/-- What a completing call begins to give out, or goes on with. -/
def frame (e : StoredEngine) : Bytes :=
  match e.stage with
  | .idle => storedFrame []
  | .filling _ inputs => storedFrame inputs.reverse.flatten
  | .draining _ left => left
  | .broken => []

theorem compress_complete (h : e.stage ≠ .broken) (room : Nat) :
    ∃ isShared, Engine.compress .complete [] room e =
      .ok ⟨0, e.frame.take room, (e.frame.drop room).length⟩ { e with
        stage := if e.frame.drop room = [] then .idle
          else .draining isShared (e.frame.drop room) } := by
  obtain ⟨workers, stage⟩ := e
  cases stage with
  | idle => exact ⟨false, rfl⟩
  | filling isShared inputs =>
      refine ⟨isShared, ?_⟩
      simp [Engine.compress, compress, giveOut, frame, afterFrame]
  | draining isShared left =>
      refine ⟨isShared, ?_⟩
      cases isShared <;> rfl
  | broken => exact absurd rfl h

theorem compress_proceed (h : e.stage = .idle ∨ ∃ isShared inputs, e.stage = .filling isShared inputs)
    (input : Bytes) (room : Nat) :
    Engine.compress .proceed input room e =
      .ok ⟨input.length, [], 0⟩ { e with stage := e.taking input } := by
  obtain hidle | ⟨isShared, inputs, hfilling⟩ := h
  · simp [Engine.compress, compress, hidle]
  · simp [Engine.compress, compress, hfilling]

theorem not_broken_of_open
    (h : e.stage = .idle ∨ ∃ isShared inputs, e.stage = .filling isShared inputs) :
    e.stage ≠ .broken := by
  obtain hidle | ⟨isShared, inputs, hfilling⟩ := h
  · simp [hidle]
  · simp [hfilling]

/-- However often the buffer fills up, the whole frame is given out. -/
theorem given_of_drains {room : Nat} {given : Bytes} (hdrains : Engine.Drains room e given e')
    (h : e.stage ≠ .broken) : given = e.frame ∧ e' = { e with stage := .idle } := by
  induction hdrains with
  | @last e e' step hcall hdone =>
      obtain ⟨isShared, hcomplete⟩ := compress_complete h room
      rw [hcomplete] at hcall
      cases hcall
      have hall : e.frame.drop room = [] := List.length_eq_zero_iff.mp hdone
      rw [if_pos hall]
      exact ⟨List.take_of_length_le (List.drop_eq_nil_iff.mp hall), rfl⟩
  | @more e e' e'' step given hcall hmore hrest ih =>
      obtain ⟨isShared, hcomplete⟩ := compress_complete h room
      rw [hcomplete] at hcall
      cases hcall
      have hleft : ¬ e.frame.drop room = [] := fun hall => hmore (by simp [hall])
      simp only [if_neg hleft] at ih
      obtain ⟨hgiven, hidle⟩ := ih (by simp)
      refine ⟨?_, hidle⟩
      rw [hgiven]
      exact List.take_append_drop room e.frame

theorem exists_drains {room : Nat} (hroom : 0 < room) (h : e.stage ≠ .broken) :
    ∃ given e', Engine.Drains room e given e' := by
  induction hlength : e.frame.length using Nat.strongRecOn generalizing e with
  | ind length ih =>
      obtain ⟨isShared, hcomplete⟩ := compress_complete h room
      by_cases hall : e.frame.drop room = []
      · exact ⟨_, _, .last hcomplete (by simp [hall])⟩
      · rw [if_neg hall] at hcomplete
        have hshorter : (e.frame.drop room).length < length := by
          rw [List.drop_eq_nil_iff] at hall
          rw [List.length_drop]
          omega
        obtain ⟨given, e', hrest⟩ := ih _ hshorter
          (e := { e with stage := .draining isShared (e.frame.drop room) }) (by simp) rfl
        have hmore : (e.frame.drop room).length ≠ 0 := fun hnone =>
          hall (List.length_eq_zero_iff.mp hnone)
        exact ⟨_, _, .more hcomplete hmore hrest⟩

/-- The engine holds what has flowed into the open frame, and nothing has flowed out of it. -/
structure Tracks (flows : Flows) (e : StoredEngine) : Prop where
  ended : ∀ flow ∈ flows.ended, flow.given = storedFrame flow.taken
  given : flows.current.given = []
  stage : e.stage = .idle ∧ flows.current.taken = [] ∨
    ∃ isShared inputs, e.stage = .filling isShared inputs ∧
      flows.current.taken = inputs.reverse.flatten

theorem Tracks.open_stage {flows : Flows} (h : Tracks flows e) :
    e.stage = .idle ∨ ∃ isShared inputs, e.stage = .filling isShared inputs := by
  obtain ⟨hidle, -⟩ | ⟨isShared, inputs, hfilling, -⟩ := h.stage
  · exact .inl hidle
  · exact .inr ⟨isShared, inputs, hfilling⟩

theorem Tracks.not_broken {flows : Flows} (h : Tracks flows e) : e.stage ≠ .broken :=
  not_broken_of_open h.open_stage

theorem Tracks.frame_eq {flows : Flows} (h : Tracks flows e) :
    e.frame = storedFrame flows.current.taken := by
  obtain ⟨hidle, htaken⟩ | ⟨isShared, inputs, hfilling, htaken⟩ := h.stage
  · simp [frame, hidle, htaken]
  · simp [frame, hfilling, htaken]

theorem tracks_of_session {start : StoredEngine} (hstart : start.stage = .idle) {flows : Flows}
    (h : Engine.Session start flows e) : Tracks flows e := by
  induction h with
  | start => exact ⟨by simp, rfl, .inl ⟨hstart, rfl⟩⟩
  | @proceed asked flows asking e e' input step hasked hsession hcall ihasked ih =>
      rw [compress_proceed ih.open_stage] at hcall
      cases hcall
      refine ⟨ih.ended, ?_, .inr ?_⟩
      · rw [Flows.given_current_fill, ih.given]
        rfl
      · rw [Flows.taken_fill, List.take_length]
        obtain ⟨hidle, htaken⟩ | ⟨isShared, inputs, hfilling, htaken⟩ := ih.stage
        · exact ⟨e.HasWorkers, [input], by simp [taking, hidle], by simp [htaken]⟩
        · exact ⟨isShared, input :: inputs, by simp [taking, hfilling], by simp [htaken]⟩
  | @finish flows e e' given hsession hdrains ih =>
      obtain ⟨hgiven, rfl⟩ := given_of_drains hdrains ih.not_broken
      refine ⟨?_, rfl, .inl ⟨rfl, rfl⟩⟩
      intro flow hflow
      rw [Flows.ended_finish, Flows.ended_fill, List.mem_append, List.mem_singleton] at hflow
      rcases hflow with hearlier | rfl
      · exact ih.ended flow hearlier
      · rw [Flows.given_current_fill, Flows.taken_fill, ih.given, hgiven, ih.frame_eq,
          List.append_nil, List.nil_append]

theorem dependable {start : StoredEngine} (hstart : start.stage = .idle) :
    Engine.Dependable start where
  reservable _ := by
    have hspace : chunkSize < Reservation.addressSpace := by decide
    exact Reservation.reserve_eq_ok_iff.mpr hspace
  proceeds input _ hsession := by
    refine ⟨_, _, compress_proceed (tracks_of_session hstart hsession).open_stage input _, ?_⟩
    rintro ⟨hnothing, -⟩
    exact List.length_eq_zero_iff.mp hnothing
  ends hsession := by
    have hroom : 0 < chunkSize := by decide
    exact exists_drains hroom (tracks_of_session hstart hsession).not_broken

/-- The decoder gives back what the engine has taken in. -/
theorem faithful {start : StoredEngine} (hstart : start.stage = .idle) :
    Engine.Faithful (fun frame => (decode frame).mapError DecodeError.message) start where
  decodes hsession flow hflow := by
    rw [(tracks_of_session hstart hsession).ended flow hflow, decode_storedFrame]
    rfl
  quiet _ hsession _ hcall := by
    rw [compress_proceed (tracks_of_session hstart hsession).open_stage] at hcall
    cases hcall
    rfl

end StoredEngine
end Zstd
end SeekableArchive
