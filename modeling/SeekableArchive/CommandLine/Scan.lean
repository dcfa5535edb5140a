import SeekableArchive.CommandLine.Parameter

/-!
# Scanning a command line

A scan reads the arguments of one level from left to right and lists which
parameters occur, with their values as text.  The last occurrence is pending as
long as nothing has come after it that could stand there; a scan that breaks off
forgets a pending occurrence, so that no fault of its value is ever reported.
-/

namespace SeekableArchive
namespace CommandLine

structure Occurrence where
  parameter : Parameter
  value : Option String
  /-- Whether the value stands by itself, and not behind the option's name. -/
  pending : Bool
deriving DecidableEq

structure ScanState where
  /-- The occurrences so far, the newest first. -/
  occurrences : List Occurrence := []
  /-- Whether the parameter given by its place has come. -/
  placed : Bool := false
  /-- Whether two dashes have ended the options. -/
  trailing : Bool := false
deriving DecidableEq

inductive Ending
  | complete
  | broken (error : UsageError)
  /-- The name of a command, and the arguments after it. -/
  | command (command : Command) (rest : List String)
deriving DecidableEq

structure Scan where
  /-- The occurrences in order. -/
  occurrences : List Occurrence
  ending : Ending
deriving DecidableEq

namespace ScanState

def push (s : ScanState) (occurrence : Occurrence) : ScanState :=
  { s with occurrences := occurrence :: s.occurrences }

/-- An option without a value behind its name. -/
def pushBare (s : ScanState) (p : Parameter) : ScanState :=
  s.push ⟨p, none, p.placeholder?.isSome⟩

/-- Whether the next argument is the value of the last option. -/
def awaitsValue (s : ScanState) : Bool :=
  match s.occurrences with
  | occurrence :: _ => occurrence.pending ∧ occurrence.value = none
  | [] => false

/-- Gives the last option its value. -/
def giveValue (s : ScanState) (value : String) : ScanState :=
  match s.occurrences with
  | occurrence :: earlier =>
      { s with occurrences := { occurrence with value := some value } :: earlier }
  | [] => s

/-- The text before the first equals sign, and the text after it. -/
def splitEquals (text : List Char) : List Char × Option (List Char) :=
  match text.dropWhile (· ≠ '=') with
  | [] => (text, none)
  | _ :: value => (text.takeWhile (· ≠ '='), some value)

/-- An option by its long name, perhaps with a value behind an equals sign. -/
def takeLong (g : Grammar) (s : ScanState) (text : List Char) :
    ScanState × Option UsageError :=
  let (name, value?) := splitEquals text
  match g.findLong? (String.ofList name) with
  | none => (s, some (.unexpectedArgument ("--" ++ String.ofList name)))
  | some p =>
      match value? with
      | none => (s.pushBare p, none)
      | some value =>
          if p.placeholder?.isSome then (s.push ⟨p, some (String.ofList value), false⟩, none)
          else (s, some (.unexpectedValue p (String.ofList value)))

/-- Options by their letters, the last of them perhaps with its value behind it. -/
def takeShort (g : Grammar) (s : ScanState) : List Char → ScanState × Option UsageError
  | [] => (s, none)
  | letter :: rest =>
      match g.findShort? letter with
      | none => (s, some (.unexpectedArgument (String.ofList ['-', letter])))
      | some p =>
          if p.placeholder? = none then takeShort g (s.pushBare p) rest
          else match rest with
            | [] => (s.pushBare p, none)
            | '=' :: value => (s.push ⟨p, some (String.ofList value), false⟩, none)
            | value => (s.push ⟨p, some (String.ofList value), false⟩, none)

/-- An argument that stands for itself. -/
def takeWord (g : Grammar) (s : ScanState) (word : String) :
    ScanState × Option UsageError :=
  match g.positional with
  | some p =>
      if s.placed then (s, some (.unexpectedArgument word))
      else ({ s.push ⟨p, some word, true⟩ with placed := true }, none)
  | none =>
      if g.endsInCommand ∧ Command.ofName? word = none then
        (s, some (.unrecognizedCommand word))
      else (s, some (.unexpectedArgument word))

def step (g : Grammar) (s : ScanState) (argument : String) :
    ScanState × Option UsageError :=
  if s.trailing then s.takeWord g argument
  else match argument.toList with
    | ['-', '-'] => ({ s with trailing := true }, none)
    | '-' :: '-' :: text => s.takeLong g text
    | '-' :: letter :: rest => s.takeShort g (letter :: rest)
    | _ => if s.awaitsValue then (s.giveValue argument, none) else s.takeWord g argument

/-- The occurrences that are not pending. -/
def settled (s : ScanState) : List Occurrence :=
  match s.occurrences with
  | occurrence :: earlier => if occurrence.pending then earlier else occurrence :: earlier
  | [] => []

/-- The command that an argument names, where a command may stand. -/
def command? (g : Grammar) (s : ScanState) (argument : String) : Option Command :=
  if g.endsInCommand ∧ s.trailing = false then Command.ofName? argument else none

def scanFrom (g : Grammar) (s : ScanState) : List String → Scan
  | [] => ⟨s.occurrences.reverse, .complete⟩
  | argument :: rest =>
      match command? g s argument with
      | some command => ⟨s.occurrences.reverse, .command command rest⟩
      | none =>
          match s.step g argument with
          | (s, none) => s.scanFrom g rest
          | (s, some error) => ⟨s.settled.reverse, .broken error⟩

end ScanState

/-- The occurrences of parameters in the arguments of one level. -/
def scan (g : Grammar) (arguments : List String) : Scan :=
  ScanState.scanFrom g {} arguments

end CommandLine
end SeekableArchive
