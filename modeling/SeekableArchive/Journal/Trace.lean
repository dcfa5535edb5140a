import SeekableArchive.Journal

/-!
# Traces

A trace shows every call of a journal on one line, with the sizes of what was
offered and what came back.  Log records are not part of it.
-/

namespace SeekableArchive

def Setting.trace : Setting → String
  | level value => "level " ++ toString value
  | strategy value => "strategy " ++ value.name
  | workers count => "workers " ++ toString count

def FlushMode.trace : FlushMode → String
  | proceed => "Continue"
  | complete => "End"

def EngineStep.trace (step : EngineStep) : String :=
  toString step.consumed ++ " " ++ toString step.output.length ++ " " ++
    toString step.remaining

namespace Event

def traceCall (call : String) (answer : Option String) : String :=
  call ++ " -> " ++ answer.getD "error"

def traceOutcome (operation : String) (succeeded : Bool) (failure : String) : String :=
  if succeeded then operation else operation ++ " " ++ failure

def trace? : Event → Option String
  | engineCreated => some "engine.create"
  | engineCreationFailed => some (traceOutcome "engine.create" false "failed")
  | engineConfigured setting accepted =>
      some (traceOutcome ("configure " ++ setting.trace) accepted "rejected")
  | engineCalled mode input room answer =>
      some (traceCall
        (mode.trace ++ " in=" ++ toString input.length ++ " out=" ++ toString room)
        (answer.map EngineStep.trace))
  | engineReleased => some "engine.drop"
  | sinkOpened => some "sink.open"
  | sinkOpeningFailed => some (traceOutcome "sink.open" false "failed")
  | sinkOffered data accepted =>
      some (traceCall ("sink.write " ++ toString data.length) (accepted.map toString))
  | sinkClosed succeeded => some (traceOutcome "sink.close" succeeded "failed")
  | sinkReleased => some "sink.drop"
  | logged _ => none

end Event

end SeekableArchive
