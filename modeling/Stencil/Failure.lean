import Stencil.Data.Format
import Stencil.Error
import Stencil.Files
/-
  What can go wrong around templates: files, data and configuration.
-/

namespace Stencil

inductive Failure where
  /-- A file could not be written. -/
  | unwritable (fault : FileFault)
  | unreadable (path : String) (fault : FileFault)
  | dataFile (path : String)
  | unsupportedFormat (name : String)
  | configParse (path : String)
  | template (error : Error)
deriving DecidableEq, Repr

namespace Failure

/-- The message, up to where the reason that a data format gives would begin. -/
def message : Failure → String
  | .unwritable fault => fault.message
  | .unreadable path fault => "failed to read `" ++ path ++ "`: " ++ fault.message
  | .dataFile path => "failed to load data file `" ++ path ++ "`: "
  | .unsupportedFormat name => "unsupported data format: `" ++ name ++ "`"
  | .configParse path => "failed to parse config `" ++ path ++ "`: "
  | .template e => e.message

def code : Failure → String
  | .unwritable _ => "stache::io_error"
  | .unreadable _ _ => "stache::read_file"
  | .dataFile _ => "stache::data_file"
  | .unsupportedFormat _ => "stache::unsupported_format"
  | .configParse _ => "stache::config_parse"
  | .template e => e.code

def help? : Failure → Option String
  | .unreadable _ _ => some "check that the file exists and is readable"
  | .unsupportedFormat _ => some "supported formats: json, toml, yaml, yml, text"
  | .configParse _ =>
    some ("check that the config is valid TOML with `data`, `source_name` and " ++
      "`disable_content_safety` keys")
  | .unwritable _ | .dataFile _ => none
  | .template e => e.help?

end Failure

namespace DataFormat

/-- The format of a name; ASCII case does not matter. -/
def ofName (name : String) : Except Failure DataFormat :=
  let name := name.map Char.toLower
  match ofLowerName? name with
  | some format => .ok format
  | none => .error (.unsupportedFormat name)

/-- The model in a data file's text; `path` names the file in the error. -/
def parse (format : DataFormat) (text path : String) : Except Failure Value :=
  match format.read? text with
  | some v => .ok v
  | none => .error (.dataFile path)

end DataFormat

end Stencil
