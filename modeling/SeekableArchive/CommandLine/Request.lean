import SeekableArchive.CommandLine.Scan
import SeekableArchive.Config

/-!
# Requests

`Request.parse` turns the arguments of the program into a request, or says what
ends the program before it has begun.  Parameters are settled in the order in
which they occur, and the first one that cannot be settled decides.
-/

namespace SeekableArchive
namespace CommandLine

/-- What ends the program before any request is carried out. -/
inductive Stop
  | refused (error : UsageError)
  /-- There was nothing on the command line. -/
  | nothingAsked
  | help
  | version
deriving DecidableEq

/-- The parameters settled so far. -/
structure Given where
  seen : List Parameter := []
  input : Option String := none
  output : Option String := none
  config : Config := {}
  chunkSize : Nat := 64 * 1024
deriving DecidableEq

/-- The numbers that a parameter admits, where they are fewer than those that can be read. -/
def Parameter.range? : Parameter → Option Text.IntegerRange
  | .workers => some ⟨0, 0xFFFF_FFFF⟩
  | .level => some ⟨-0x8000_0000, 0x7FFF_FFFF⟩
  | _ => none

def readNumber (p : Parameter) (value : String) : Except UsageError Int :=
  match Text.readInteger (if p.range?.isSome then .signed64 else .unsigned64) value with
  | .error fault => .error (.invalidValue p value fault.message)
  | .ok n =>
      match p.range? with
      | none => .ok n
      | some range =>
          if range.Contains n then .ok n
          else .error (.invalidValue p value
            (toString n ++ " is not in " ++ toString range.low ++ "..=" ++
              toString range.high))

def readPath (p : Parameter) (value : String) : Except UsageError String :=
  if value = "" then .error (.missingValue p) else .ok value

namespace Given

/-- Stores the value of a parameter that takes one. -/
def assign (g : Given) (p : Parameter) (value : String) : Except UsageError Given :=
  match p with
  | .input => (readPath p value).map fun path => { g with input := some path }
  | .output => (readPath p value).map fun path => { g with output := some path }
  | .workers => (readNumber p value).map fun n =>
      { g with config := { g.config with workers := UInt32.ofNat n.toNat } }
  | .level => (readNumber p value).map fun n =>
      { g with config := { g.config with level := Int32.ofInt n } }
  | .minFrameSize => (readNumber p value).map fun n =>
      { g with config := { g.config with minFrameSize := n.toNat } }
  | .chunkSize => (readNumber p value).map fun n => { g with chunkSize := n.toNat }
  | .checksums | .verbose | .help | .version => .ok g

/-- Raises a parameter that takes no value. -/
def raise (g : Given) (p : Parameter) : Except Stop Given :=
  match p with
  | .help => .error .help
  | .version => .error .version
  | .checksums => .ok { g with config := { g.config with checksums := true } }
  | _ => .ok g

def settle (g : Given) (occurrence : Occurrence) : Except Stop Given :=
  let p := occurrence.parameter
  let repeats := p ∈ g.seen
  let g := { g with seen := p :: g.seen }
  match occurrence.value with
  | some value =>
      if repeats then .error (.refused (.repeated p))
      else (g.assign p value).mapError .refused
  | none =>
      if p.placeholder?.isSome then .error (.refused (.missingValue p))
      else if repeats then .error (.refused (.repeated p))
      else g.raise p

def settleAll (g : Given) : List Occurrence → Except Stop Given
  | [] => .ok g
  | occurrence :: rest =>
      match g.settle occurrence with
      | .error stop => .error stop
      | .ok g => g.settleAll rest

end Given

structure PackRequest where
  /-- The standard input if absent. -/
  input : Option String
  output : String
  config : Config
  chunkSize : Nat
deriving DecidableEq

inductive Task
  | pack (request : PackRequest)
  | showVersion
deriving DecidableEq

structure Request where
  task : Task
  verbose : Bool
deriving DecidableEq

namespace Request

/-- Settles the arguments of one level, up to a command if one ends the level. -/
def readLevel (g : Grammar) (arguments : List String) :
    Except Stop (Given × Option (Command × List String)) :=
  let result := scan g arguments
  match Given.settleAll {} result.occurrences with
  | .error stop => .error stop
  | .ok given =>
      match result.ending with
      | .broken error => .error (.refused error)
      | .complete => .ok (given, none)
      | .command command rest => .ok (given, some (command, rest))

/-- Help on the command with these names, each behind the one that it belongs to. -/
def readHelp : List String → Stop
  | [] => .help
  | name :: rest =>
      match Command.ofName? name, rest with
      | none, _ => .refused (.unrecognizedCommand name)
      | some _, [] => .help
      | some _, next :: _ => .refused (.unrecognizedCommand next)

/-- What a pack command asks for; a dash means the standard input. -/
def ofGiven (given : Given) : Except Stop PackRequest :=
  match given.output with
  | none => .error (.refused (.missingParameter .output))
  | some output =>
      .ok {
        input := given.input.filter (· ≠ "-")
        output
        config := given.config
        chunkSize := given.chunkSize }

def readCommand (verbose : Bool) (command : Command) (arguments : List String) :
    Except Stop Request :=
  match command with
  | .help => .error (readHelp arguments)
  | .version =>
      (readLevel .version arguments).map fun (given, _) =>
        ⟨.showVersion, verbose || .verbose ∈ given.seen⟩
  | .pack =>
      match readLevel .pack arguments with
      | .error stop => .error stop
      | .ok (given, _) =>
          (ofGiven given).map fun request =>
            ⟨.pack request, verbose || .verbose ∈ given.seen⟩

def parse (arguments : List String) : Except Stop Request :=
  match readLevel .program arguments with
  | .error stop => .error stop
  | .ok (given, some (command, rest)) =>
      readCommand (.verbose ∈ given.seen) command rest
  | .ok (given, none) =>
      if given.seen = [] then .error .nothingAsked else .error (.refused .missingCommand)

end Request

end CommandLine
end SeekableArchive
