import SeekableArchive.Bytes

/-!
# Failures

Three layers of failure, each with the text that reports it: what the system
says about a file or a stream (`IoFault`), what a sink says (`SinkError`), and
what the archive writer says (`ArchiveError`).  Every archive error belongs to
one of five kinds.
-/

namespace SeekableArchive

/-- Refusals of the file system. -/
inductive SystemError
  | notFound
  | permissionDenied
  | notADirectory
  | isADirectory
  | invalidArgument
  | noSpace
  | nameTooLong
deriving DecidableEq

namespace SystemError

def code : SystemError → Nat
  | notFound => 2
  | permissionDenied => 13
  | notADirectory => 20
  | isADirectory => 21
  | invalidArgument => 22
  | noSpace => 28
  | nameTooLong => 36

def text : SystemError → String
  | notFound => "No such file or directory"
  | permissionDenied => "Permission denied"
  | notADirectory => "Not a directory"
  | isADirectory => "Is a directory"
  | invalidArgument => "Invalid argument"
  | noSpace => "No space left on device"
  | nameTooLong => "File name too long"

/-- The class of the refusal, as diagnostics name it. -/
def kindName : SystemError → String
  | notFound => "NotFound"
  | permissionDenied => "PermissionDenied"
  | notADirectory => "NotADirectory"
  | isADirectory => "IsADirectory"
  | invalidArgument => "InvalidInput"
  | noSpace => "StorageFull"
  | nameTooLong => "InvalidFilename"

end SystemError

inductive IoFault
  | system (error : SystemError)
  /-- The operation was interrupted and may be tried again. -/
  | interrupted
  | unexpectedEnd
  | accessDenied
  /-- Any other failure, known by its text. -/
  | other (text : String)
deriving DecidableEq

def IoFault.message : IoFault → String
  | .system e => e.text ++ " (os error " ++ toString e.code ++ ")"
  | .interrupted => "operation interrupted"
  | .unexpectedEnd => "unexpected end of file"
  | .accessDenied => "permission denied"
  | .other text => text

/-- What a sink may answer instead of accepting bytes. -/
inductive SinkError
  | io (fault : IoFault)
  /-- The sink accepted fewer bytes than it was given. -/
  | shortWrite (expected written : Nat)
  | closed
deriving DecidableEq

def SinkError.message : SinkError → String
  | .io fault => "I/O error: " ++ fault.message
  | .shortWrite expected written =>
      "short write: accepted " ++ toString written ++ " of " ++ toString expected ++ " bytes"
  | .closed => "sink is closed"

inductive ErrorKind
  | allocation
  | configuration
  | engine
  | sink
  | state
deriving DecidableEq

def ErrorKind.name : ErrorKind → String
  | allocation => "Allocation"
  | configuration => "Configuration"
  | engine => "Engine"
  | sink => "Sink"
  | state => "State"

/-- What an operation of the archive writer may fail with.  Engines choose the
texts of the errors they report. -/
inductive ArchiveError
  | sink (cause : SinkError)
  /-- Memory for `what` could not be reserved. -/
  | allocation (what : String)
  | invalidConfig (message : String)
  | settingRejected (parameter message : String)
  | engine (operation message : String)
  | frameLog (message : String)
  | poisoned
  | closed
deriving DecidableEq

namespace ArchiveError

def kind : ArchiveError → ErrorKind
  | sink _ => .sink
  | allocation _ => .allocation
  | invalidConfig _ => .configuration
  | settingRejected _ _ => .configuration
  | engine _ _ => .engine
  | frameLog _ => .engine
  | poisoned => .state
  | closed => .state

def message : ArchiveError → String
  | sink cause => "sink error: " ++ cause.message
  | allocation what => "allocation failed: " ++ what
  | invalidConfig text => "invalid configuration: " ++ text
  | settingRejected parameter text => "engine rejected " ++ parameter ++ ": " ++ text
  | engine operation text =>
      "compression engine error during " ++ operation ++ ": " ++ text
  | frameLog text => "frame log error: " ++ text
  | poisoned => "archive writer is poisoned by an earlier failure"
  | closed => "archive writer is closed"

def cause? : ArchiveError → Option SinkError
  | sink cause => some cause
  | _ => none

/-- The engine took no input and gave no output although input was left. -/
def stalled : ArchiveError :=
  .engine "compress" "engine made no progress"

end ArchiveError

end SeekableArchive
