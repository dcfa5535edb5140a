import SeekableArchive.Error
import SeekableArchive.Text.Quoted

/-!
# Errors in full

The form in which a command that fails shows its error: every part of the
error by name, texts quoted.
-/

namespace SeekableArchive

namespace Text

/-- A name with named parts in braces. -/
def inspectFields (name : String) (fields : List (String × String)) : String :=
  name ++ " \x7b " ++
    String.intercalate ", " (fields.map fun (field, value) => field ++ ": " ++ value) ++ " \x7d"

/-- A name with one part in parentheses. -/
def inspectPart (name part : String) : String :=
  name ++ "(" ++ part ++ ")"

end Text

open Text

def IoFault.inspect : IoFault → String
  | .system e =>
      inspectFields "Os"
        [("code", toString e.code), ("kind", e.kindName), ("message", quote e.text)]
  | .interrupted => inspectPart "Kind" "Interrupted"
  | .unexpectedEnd => inspectPart "Kind" "UnexpectedEof"
  | .accessDenied => inspectPart "Kind" "PermissionDenied"
  | .other text => inspectFields "Custom" [("kind", "Other"), ("error", quote text)]

def SinkError.inspect : SinkError → String
  | .io fault => inspectPart "Io" fault.inspect
  | .shortWrite expected written =>
      inspectFields "ShortWrite"
        [("expected", toString expected), ("written", toString written)]
  | .closed => "Closed"

def ArchiveError.inspect : ArchiveError → String
  | .sink cause => inspectPart "Storage" cause.inspect
  | .allocation what => inspectFields "Allocation" [("what", quote what)]
  | .invalidConfig text => inspectFields "InvalidConfig" [("message", quote text)]
  | .settingRejected parameter text =>
      inspectFields "ConfigurationRejected"
        [("parameter", quote parameter), ("message", quote text)]
  | .engine operation text =>
      inspectFields "Engine" [("operation", quote operation), ("message", quote text)]
  | .frameLog text => inspectFields "FrameLog" [("message", quote text)]
  | .poisoned => "Poisoned"
  | .closed => "Closed"

end SeekableArchive
