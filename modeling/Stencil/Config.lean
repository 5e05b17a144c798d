import Stencil.Work
/-
  Configuration files, and the models that they and the command line speak of.
-/

namespace Stencil

/-! ## Data files -/

namespace DataFormat

/-- The format that a file's extension names. -/
def ofPath (path : String) : Except Failure DataFormat := ofName (Location.fileExtension path)

/-- How the log speaks of the format. -/
def logName : DataFormat → String
  | json => "Json"
  | toml => "Toml"
  | yaml => "Yaml"
  | text => "Text"

/-- The model in a file. A format that is not given has to follow from the path, which is found
    out before the file is read. -/
def load (given : Option DataFormat) (path : String) : Work Value := do
  let format ← match given with
    | some format => pure format
    | none => Work.ofExcept (ofPath path)
  let text ← Work.readText path
  Work.logAll [{
    level := .debug, source := .config,
    message := "reading data file", fields := [("path", path), ("format", format.logName)] }]
  Work.ofExcept (format.parse text path)

end DataFormat

/-! ## Configuration -/

/-- Where a configuration says that the model is. -/
structure DataSource where
  path : String
  /-- The name of the format, if it does not follow from the path. -/
  formatName : Option String
deriving DecidableEq, Repr

structure Config where
  contentSafety : Bool := true
  /-- The label of templates in error messages. -/
  sourceName : Option String := none
  data : Option DataSource := none
deriving DecidableEq, Repr

/-- The source in a document: a path, a table with path and format, or both in a list. -/
def DataSource.ofToml? : Toml → Option DataSource
  | .str path => some ⟨path, none⟩
  | .array [.str path, .str format] => some ⟨path, some format⟩
  | .table entries =>
    match entries.lookup "path", entries.lookup "format" with
    | some (.str path), some (.str format) =>
      if Toml.entriesHaveWords entries then some ⟨path, some format⟩ else none
    | _, _ => none
  | _ => none

namespace Config

/-- The value under a key, if it is there; it has to be of the right kind. -/
def field? {α : Type} (document : Toml) (key : String) (read? : Toml → Option α) :
    Option (Option α) :=
  match document.get? key with
  | none => some none
  | some t => (read? t).map some

/-- The configuration in a document. Other keys do not matter. -/
def ofToml? (document : Toml) : Option Config := do
  let unsafeContent ← field? document "disable_content_safety" fun
    | .bool b => some b
    | _ => none
  let sourceName ← field? document "source_name" fun
    | .str s => some s
    | _ => none
  let data ← field? document "data" DataSource.ofToml?
  return { contentSafety := !unsafeContent.getD false, sourceName, data }

def read (path : String) : Work Config := do
  let text ← Work.readText path
  match (Toml.parse? text).bind ofToml? with
  | none => .fail (.configParse path)
  | some config =>
    Work.logAll [{
      level := .debug, source := .config,
      message := "loaded config", fields := [("path", path)] }]
    return config

/-- The places of a configuration below a directory; an earlier one hides the others. -/
def candidates (root : String) : List String :=
  ["stache.toml", ".stache.toml", ".config/stache.toml"].map (Location.join root)

/-- The first path that leads to a file. -/
def firstFile : List String → Work (Option String)
  | [] => return none
  | path :: rest => .probe path fun there => if there then .done (some path) else firstFile rest

def locate (root : String) : Work (Option String) := firstFile (candidates root)

def discover (root : String) : Work (Option Config) := do
  match ← locate root with
  | none => return none
  | some path => return some (← read path)

/-- The model that a configuration speaks of; `root` is where its path starts from. -/
def readData (config : Config) (root : String) : Work (Option Value) := do
  match config.data with
  | none => return none
  | some source =>
    let format ← match source.formatName with
      | some name => some <$> Work.ofExcept (DataFormat.ofName name)
      | none => pure none
    return some (← DataFormat.load format (Location.join root source.path))

end Config

end Stencil
