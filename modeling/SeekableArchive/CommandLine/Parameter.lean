import SeekableArchive.Text.Integer
import SeekableArchive.Text.Plain

/-!
# Parameters of the commands

What the command line may set, how each parameter is written there, and which
parameters each command knows.
-/

namespace SeekableArchive
namespace CommandLine

inductive Parameter
  /-- The one parameter that is given by its place. -/
  | input
  | output
  | workers
  | minFrameSize
  | level
  | checksums
  | chunkSize
  | verbose
  | help
  | version
deriving DecidableEq

namespace Parameter

/-- The name behind two dashes, or in brackets if the parameter is given by its place. -/
def long : Parameter → String
  | input => "INPUT"
  | output => "output"
  | workers => "workers"
  | minFrameSize => "min-frame-size"
  | level => "level"
  | checksums => "checksums"
  | chunkSize => "chunk-size"
  | verbose => "verbose"
  | help => "help"
  | version => "version"

/-- The letter behind one dash. -/
def short? : Parameter → Option Char
  | output => some 'o'
  | workers => some 'w'
  | minFrameSize => some 'm'
  | level => some 'l'
  | verbose => some 'v'
  | help => some 'h'
  | version => some 'V'
  | _ => none

/-- What stands for the value, if the parameter takes one. -/
def placeholder? : Parameter → Option String
  | output => some "OUTPUT"
  | workers => some "WORKERS"
  | minFrameSize => some "MIN_FRAME_SIZE"
  | level => some "LEVEL"
  | chunkSize => some "CHUNK_SIZE"
  | _ => none

/-- How messages refer to the parameter. -/
def display (p : Parameter) : String :=
  if p = input then "[" ++ p.long ++ "]"
  else match p.placeholder? with
    | some name => "--" ++ p.long ++ " <" ++ name ++ ">"
    | none => "--" ++ p.long

end Parameter

/-- The commands that may follow the program's own options. -/
inductive Command
  | pack
  | version
  | help
deriving DecidableEq

namespace Command

def name : Command → String
  | pack => "pack"
  | version => "version"
  | help => "help"

def ofName? (text : String) : Option Command :=
  [pack, version, help].find? fun c => c.name = text

end Command

/-- What may stand on one level of the command line. -/
structure Grammar where
  /-- The parameters written with dashes. -/
  options : List Parameter
  /-- The parameter given by its place. -/
  positional : Option Parameter := none
  /-- Whether the name of a command ends the level. -/
  endsInCommand : Bool := false

namespace Grammar

def program : Grammar where
  options := [.verbose, .help, .version]
  endsInCommand := true

def pack : Grammar where
  options :=
    [.output, .workers, .minFrameSize, .level, .checksums, .chunkSize, .verbose, .help]
  positional := some .input

def version : Grammar where
  options := [.verbose, .help]

def findLong? (g : Grammar) (name : String) : Option Parameter :=
  g.options.find? fun p => p.long = name

def findShort? (g : Grammar) (letter : Char) : Option Parameter :=
  g.options.find? fun p => p.short? = some letter

end Grammar

inductive UsageError
  | unexpectedArgument (text : String)
  | unrecognizedCommand (text : String)
  | missingCommand
  | missingParameter (parameter : Parameter)
  | missingValue (parameter : Parameter)
  | unexpectedValue (parameter : Parameter) (value : String)
  | invalidValue (parameter : Parameter) (value reason : String)
  | repeated (parameter : Parameter)
deriving DecidableEq

def programName : String := "seekarc"

/-- Arguments are repeated without control sequences. -/
def UsageError.message : UsageError → String
  | unexpectedArgument text => "unexpected argument '" ++ Text.plain text ++ "' found"
  | unrecognizedCommand text => "unrecognized subcommand '" ++ Text.plain text ++ "'"
  | missingCommand =>
      "'" ++ programName ++ "' requires a subcommand but one was not provided"
  | missingParameter p =>
      "the following required arguments were not provided:\n  " ++ p.display
  | missingValue p =>
      "a value is required for '" ++ p.display ++ "' but none was supplied"
  | unexpectedValue p value =>
      "unexpected value '" ++ Text.plain value ++ "' for '" ++ p.display ++
        "' found; no more were expected"
  | invalidValue p value reason =>
      "invalid value '" ++ Text.plain value ++ "' for '" ++ p.display ++ "': " ++ reason
  | repeated p =>
      "the argument '" ++ p.display ++ "' cannot be used multiple times"

end CommandLine
end SeekableArchive
