import Stencil.Location
/-
  Files and directories, as seen from one of the directories.
-/

namespace Stencil

/-- Why a file could not be read or written. -/
inductive FileFault where
  | notFound
  | notDirectory
  | isDirectory
  | nameTooLong
  | nulInPath
  | notUtf8
  /-- Anything else, in the words of the system. -/
  | other (reason : String)
deriving DecidableEq, Repr

def FileFault.message : FileFault → String
  | .notFound => "No such file or directory (os error 2)"
  | .notDirectory => "Not a directory (os error 20)"
  | .isDirectory => "Is a directory (os error 21)"
  | .nameTooLong => "File name too long (os error 36)"
  | .nulInPath => "file name contained an unexpected NUL byte"
  | .notUtf8 => "stream did not contain valid UTF-8"
  | .other reason => reason

inductive FileEntry where
  | file (content : ByteArray)
  | directory

structure Files where
  /-- The directory that relative paths start from. -/
  here : List String
  /-- What stands where. A directory need not be listed if something stands below it. -/
  entries : List (List String × FileEntry)

namespace Files

/-! ## Places -/

/-- What stands at a place, given by the names on the way from the root. -/
def find? (files : Files) (place : List String) : Option FileEntry :=
  (files.entries.lookup place).or <|
    if place.isPrefixOf files.here || files.entries.any (place.isPrefixOf ·.1) then some .directory
    else none

/-- Follows one name of a path from a place, which has to be a directory. -/
def step (files : Files) (place : List String) (name : List Char) :
    Except FileFault (List String) :=
  match files.find? place with
  | none => .error .notFound
  | some (.file _) => .error .notDirectory
  | some .directory =>
    if Location.isVoid name then .ok place
    else if name = ['.', '.'] then .ok place.dropLast
    else if 255 < Text.byteSize name then .error .nameTooLong
    else .ok (place ++ [String.ofList name])

/-- Where a path leads to; there may be nothing yet. -/
def locate (files : Files) (path : String) : Except FileFault (List String) :=
  if path.toList.contains '\x00' then .error .nulInPath
  else if path = "" then .error .notFound
  else if 4096 ≤ path.utf8ByteSize then .error .nameTooLong
  else
    (Location.names path.toList).foldlM files.step
      (if Location.isAbsolute path then [] else files.here)

/-! ## Reading and writing -/

def read (files : Files) (path : String) : Except FileFault ByteArray := do
  match files.find? (← files.locate path) with
  | none => .error .notFound
  | some .directory => .error .isDirectory
  | some (.file content) => .ok content

/-- The text that some bytes encode. -/
def decode (content : ByteArray) : Except FileFault String :=
  match String.fromUTF8? content with
  | none => .error .notUtf8
  | some text => .ok text

def readText (files : Files) (path : String) : Except FileFault String := do
  decode (← files.read path)

def isFile (files : Files) (path : String) : Bool := (files.read path).isOk

/-- Puts a file in place of the one that is there, or makes it. -/
def put (files : Files) (place : List String) (content : ByteArray) : Files :=
  { files with entries := (place, .file content) :: files.entries.filter (·.1 ≠ place) }

def write (files : Files) (path text : String) : Except FileFault Files := do
  let place ← files.locate path
  match files.find? place with
  | some .directory => .error .isDirectory
  | _ => .ok (files.put place text.toUTF8)

end Files

end Stencil
