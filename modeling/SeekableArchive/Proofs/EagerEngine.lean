import SeekableArchive.Faults
import SeekableArchive.Proofs.CleanRun

/-!
# An engine that begins its frames early

The engine gives out the beginning of a frame at the first call, whether or not that
brings any input, passes bytes on as they are, and closes a frame with one byte.
-/

namespace SeekableArchive

structure EagerEngine where
  isOpen : Bool := false

namespace EagerEngine

/-- What a frame begins with, unless it has begun. -/
def front (e : EagerEngine) : Bytes :=
  if e.isOpen then [] else [0xF0, 3, 0, 0]

instance : Engine EagerEngine where
  configure _ e := .ok () e
  outputChunkSize _ := 64
  compress mode input room e :=
    match mode with
    | .proceed =>
        if room < e.front.length then .ok .idle e
        else
          let taken := input.take (room - e.front.length)
          .ok ⟨taken.length, e.front ++ taken, 0⟩ ⟨true⟩
    | .complete =>
        let output := e.front ++ input ++ [0xFE]
        if room < output.length then .ok ⟨0, [], output.length⟩ e
        else .ok ⟨input.length, output, 0⟩ ⟨false⟩

theorem respectsBuffers : Engine.RespectsBuffers EagerEngine := by
  intro mode input room e e' step h
  cases mode with
  | proceed =>
      simp only [Engine.compress] at h
      by_cases hroom : room < e.front.length
      · rw [if_pos hroom] at h
        cases h
        simp [EngineStep.idle]
      · rw [if_neg hroom] at h
        cases h
        simp only [List.length_append, List.length_take]
        omega
  | complete =>
      simp only [Engine.compress] at h
      by_cases hroom : room < (e.front ++ input ++ [0xFE]).length
      · rw [if_pos hroom] at h
        cases h
        simp
      · rw [if_neg hroom] at h
        cases h
        simp only [List.length_append] at *
        omega

def config : Config where
  minFrameSize := 6

/-- Two frames; the empty write finds the floor reached and ends the first one. -/
def run : CleanRun config ({} : EagerEngine) ({} : MemorySink) 4 [[1, 2, 3], [4, 5, 6, 7], [], [8]] :=
  .ofAnswers ⟨2, 8, 51⟩ rfl (by decide +kernel) (by decide +kernel)

/-- No frame, although the engine has begun one. -/
def emptyWriteRun : CleanRun config ({} : EagerEngine) ({} : MemorySink) 4 [[]] :=
  .ofAnswers ⟨0, 0, 21⟩ rfl (by decide +kernel) (by decide +kernel)

/-- Of the fourth offer only half is accepted. -/
def shortSink : FaultySink MemorySink where
  sink := {}
  faults := { shortWrite := some 4 }

end EagerEngine

end SeekableArchive
