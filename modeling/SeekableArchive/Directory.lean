import SeekableArchive.Sink

/-!
# Files in a working directory

A directory holds the files that are known: those in it, by name, and those that
lie elsewhere, by their path.  `resolve` reads a path one component after the
other, as the system does, and says which place it means or why it means none.
A `FileSink` writes one file anew.
-/

namespace SeekableArchive

/-- The files, as they are called from the working directory. -/
structure Directory where
  files : List (String × Bytes) := []
deriving DecidableEq

/-- A directory that a path may come through. -/
inductive Place
  /-- So many levels above the working directory, which is the one at level zero. -/
  | above (levels : Nat)
  | root
  /-- A directory under the root that is always there. -/
  | standard (name : String)
deriving DecidableEq

namespace Place

def parent : Place → Place
  | above levels => above (levels + 1)
  | root => root
  | standard _ => root

/-- How something in the place is called from the working directory. -/
def pathOf (name : String) : Place → String
  | above levels => String.join (List.replicate levels "../") ++ name
  | root => "/" ++ name
  | standard directory => "/" ++ directory ++ "/" ++ name

/-- The names of the directories that are always there. -/
def standardNames : List String :=
  ["dev", "etc", "home", "proc", "tmp", "usr", "var"]

end Place

/-- What is neither a file nor a directory. -/
inductive Device
  /-- It is empty, and what is written to it is gone. -/
  | null
  /-- It has no space for anything. -/
  | full
  | standardInput
deriving DecidableEq

def Device.ofName? : String → Option Device
  | "null" => some null
  | "full" => some full
  | "stdin" => some standardInput
  | _ => none

/-- What a name may stand for. -/
inductive Entry
  | directory (place : Place)
  | file (path : String)
  | device (device : Device)
deriving DecidableEq

namespace Directory

def read? (d : Directory) (path : String) : Option Bytes :=
  (d.files.find? fun file => file.1 = path).map (·.2)

/-- Replaces the file's contents, or creates it. -/
def write (d : Directory) (path : String) (contents : Bytes) : Directory :=
  ⟨(path, contents) :: d.files.filter fun file => file.1 ≠ path⟩

/-- What is called `name` in a place. -/
def entry? (d : Directory) (place : Place) (name : String) : Option Entry :=
  let file := (d.read? (place.pathOf name)).map fun _ => Entry.file (place.pathOf name)
  match place with
  | .root => if name ∈ Place.standardNames then some (.directory (.standard name)) else file
  | .standard "dev" => ((Device.ofName? name).map .device).or file
  | _ => file

inductive Target
  | directory
  /-- The last name in it, and whether a slash follows. -/
  | named (place : Place) (name : String) (slashed : Bool)
deriving DecidableEq

def maxNameSize : Nat := 255

def maxPathSize : Nat := 4095

/-- Follows the components of a path from a place. -/
def walk (d : Directory) (place : Place) : List String → Except SystemError Target
  | [] => .ok .directory
  | component :: rest =>
      if component = "" ∨ component = "." then walk d place rest
      else if component = ".." then walk d place.parent rest
      else if rest.all (· = "") then .ok (.named place component (rest ≠ []))
      else if maxNameSize < component.utf8ByteSize then .error .nameTooLong
      else match d.entry? place component with
        | some (.directory inner) => walk d inner rest
        | some _ => .error .notADirectory
        | none => .error .notFound

/-- Where a path leads; the empty path is the directory itself. -/
def resolve (d : Directory) (path : String) : Except SystemError Target :=
  if maxPathSize < path.utf8ByteSize then .error .nameTooLong
  else d.walk (if path.startsWith "/" then .root else .above 0) (path.splitOn "/")

/-- What a name stands for once it has been looked up. -/
def lookUp (d : Directory) (place : Place) (name : String) :
    Except SystemError (Option Entry) :=
  if maxNameSize < name.utf8ByteSize then .error .nameTooLong else .ok (d.entry? place name)

/-- A path with a zero byte never reaches the system. -/
def zeroByteFault : IoFault :=
  .other "file name contained an unexpected NUL byte"

inductive Destination
  | file (path : String)
  | nullDevice
  | fullDevice
deriving DecidableEq

/-- The place for a new file at a path; a slash at the end asks for a directory. -/
def destination (d : Directory) (path : String) : Except SystemError Destination := do
  match ← d.resolve path with
  | .directory => throw .isADirectory
  | .named _ _ true => throw .isADirectory
  | .named place name false =>
      match ← d.lookUp place name with
      | some (.directory _) => throw .isADirectory
      | some (.device .null) => return .nullDevice
      | some (.device .full) => return .fullDevice
      | _ => return .file (place.pathOf name)

def locateForWriting (d : Directory) (path : String) : Except IoFault Destination :=
  if path.contains (Char.ofNat 0) then .error zeroByteFault
  else (d.destination path).mapError .system

/-- A path opened for reading. -/
inductive Source
  | file (path : String)
  /-- A directory opens, and then refuses every read. -/
  | directory
  | device (device : Device)
deriving DecidableEq

def source (d : Directory) (path : String) : Except SystemError Source := do
  match ← d.resolve path with
  | .directory => return .directory
  | .named place name slashed =>
      match ← d.lookUp place name with
      | none => throw .notFound
      | some (.directory _) => return .directory
      | some (.file path) => if slashed then throw .notADirectory else return .file path
      | some (.device device) => if slashed then throw .notADirectory else return .device device

def openForReading (d : Directory) (path : String) : Except IoFault Source :=
  if path.contains (Char.ofNat 0) then .error zeroByteFault
  else (d.source path).mapError .system

def pathExists (d : Directory) (path : String) : Bool :=
  match d.openForReading path with
  | .ok _ => true
  | .error _ => false

def readPath? (d : Directory) (path : String) : Option Bytes :=
  match d.openForReading path with
  | .ok (.file path) => d.read? path
  | .ok (.device .null) => some []
  | _ => none

end Directory

/-- A file being written from its beginning. -/
structure FileSink extends MemorySink where
  destination : Directory.Destination
deriving DecidableEq

namespace FileSink

/-- Creates the file at a path, or empties it if it is there. -/
def create (d : Directory) (path : String) : Except SinkError FileSink :=
  match d.locateForWriting path with
  | .ok destination => .ok ⟨{}, destination⟩
  | .error fault => .error (.io fault)

/-- The directory with what the sink has written. -/
def save (s : FileSink) (d : Directory) : Directory :=
  match s.destination with
  | .file path => d.write path s.contents
  | _ => d

/-- The bytes that are gathered before a file is written to. -/
def bufferSize : Nat := 8 * 1024

/-- Whether the sink has space for `size` more bytes; a full device only gathers them. -/
def hasSpace (s : FileSink) (size : Nat) : Bool :=
  match s.destination with
  | .fullDevice => s.contents.length + size ≤ bufferSize && size < bufferSize
  | _ => true

/-- Why the last bytes cannot be brought to safety: a device has no place for them. -/
def syncError? (s : FileSink) : Option SystemError :=
  match s.destination with
  | .file _ => none
  | .nullDevice => some .invalidArgument
  | .fullDevice => some (if s.contents = [] then .invalidArgument else .noSpace)

def write (data : Bytes) : EStateM SinkError FileSink Nat := fun s =>
  if !s.isClosed && !s.hasSpace data.length then .error (.io (.system .noSpace)) s
  else match Sink.write data s.toMemorySink with
    | .ok accepted kept => .ok accepted { s with toMemorySink := kept }
    | .error e kept => .error e { s with toMemorySink := kept }

def close : EStateM SinkError FileSink Unit := fun s =>
  match Sink.close s.toMemorySink with
  | .ok () kept =>
      let closed := { s with toMemorySink := kept }
      match s.syncError? with
      | none => .ok () closed
      | some e => .error (.io (.system e)) closed
  | .error e kept => .error e { s with toMemorySink := kept }

instance : Sink FileSink where
  write := write
  close := close

end FileSink

end SeekableArchive
