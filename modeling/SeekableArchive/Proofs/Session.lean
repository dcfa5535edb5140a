import SeekableArchive.Proofs.Flow
import SeekableArchive.Reservation

/-!
# Sessions of an engine

A session is a sequence of engine calls as a writer makes them: any input is offered,
and every now and then the open frame is completed, call after call, until the engine
holds nothing more.  The room for output is what the engine asks for when a write or a
frame end begins.  What is expected of an engine is stated of all its sessions.
-/

namespace SeekableArchive
namespace Engine

variable {ε : Type} [Engine ε]

/-- The engine accepts the settings one after the other. -/
inductive Configured : List Setting → ε → ε → Prop
  | done {e : ε} : Configured [] e e
  | set {setting : Setting} {settings : List Setting} {e e' e'' : ε}
      (haccepted : configure setting e = .ok () e') (hrest : Configured settings e' e'') :
      Configured (setting :: settings) e e''

/-- Calls until all of the data is taken in, and all their output. -/
inductive Feeds (room : Nat) : ε → Bytes → Bytes → ε → Prop
  | last {e e' : ε} {data : Bytes} {step : EngineStep}
      (hcall : compress .proceed data room e = .ok step e')
      (hdone : data.drop step.consumed = []) : Feeds room e data step.output e'
  | more {e e' e'' : ε} {data given : Bytes} {step : EngineStep}
      (hcall : compress .proceed data room e = .ok step e')
      (hmore : data.drop step.consumed ≠ [])
      (hrest : Feeds room e' (data.drop step.consumed) given e'') :
      Feeds room e data (step.output ++ given) e''

/-- Completing calls up to the one after which nothing is held, and all their output. -/
inductive Drains (room : Nat) : ε → Bytes → ε → Prop
  | last {e e' : ε} {step : EngineStep} (hcall : compress .complete [] room e = .ok step e')
      (hdone : step.remaining = 0) : Drains room e step.output e'
  | more {e e' e'' : ε} {step : EngineStep} {given : Bytes}
      (hcall : compress .complete [] room e = .ok step e') (hmore : step.remaining ≠ 0)
      (hrest : Drains room e' given e'') : Drains room e (step.output ++ given) e''

/-- The states of an engine that was in the state `start`, with what has flowed since. -/
inductive Session (start : ε) : Flows → ε → Prop
  | start : Session start {} start
  | proceed {asked flows : Flows} {asking e e' : ε} {input : Bytes} {step : EngineStep}
      (hasked : Session start asked asking) (h : Session start flows e)
      (hcall : compress .proceed input (outputChunkSize asking) e = .ok step e') :
      Session start (flows.fill (input.take step.consumed) step.output) e'
  | finish {flows : Flows} {e e' : ε} {given : Bytes} (h : Session start flows e)
      (hdrains : Drains (outputChunkSize e) e given e') :
      Session start (flows.fill [] given).finish e'

/-- In every session the buffers that the engine asks for can be reserved, calls succeed,
input that is offered makes a difference, and a frame end takes finitely many calls. -/
structure Dependable (start : ε) : Prop where
  reservable {flows : Flows} {e : ε} :
    Session start flows e → Reservation.reserve (outputChunkSize e) = .ok ()
  proceeds {asked flows : Flows} {asking e : ε} (input : Bytes) :
    Session start asked asking → Session start flows e →
      ∃ step e', compress .proceed input (outputChunkSize asking) e = .ok step e' ∧
        (step.Stalled → input = [])
  ends {flows : Flows} {e : ε} :
    Session start flows e → ∃ given e', Drains (outputChunkSize e) e given e'

/-- In every session an ended frame decodes to what was taken in, and a frame that has not
begun is not begun by a call without input. -/
structure Faithful (decode : Bytes → Except String Bytes) (start : ε) : Prop where
  decodes {flows : Flows} {e : ε} :
    Session start flows e → ∀ flow ∈ flows.ended, decode flow.given = .ok flow.taken
  quiet {asked flows : Flows} {asking e e' : ε} {step : EngineStep} :
    Session start asked asking → Session start flows e → flows.current = {} →
      compress .proceed [] (outputChunkSize asking) e = .ok step e' → step.output = []

end Engine
end SeekableArchive
