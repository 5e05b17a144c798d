import Stencil.Command.Basic
/-
  The parameters of the command line and where they may stand.
-/

namespace Stencil.Command

inductive Parameter where
  | config
  | verbose
  | noColor
  | help
  | version
  | data
  | dataFormat
  | output
  | sourceName
  | unsafeContent
  | shapeFormat
  | template
  | templates
deriving DecidableEq, Repr

/-- The name of a data format. Unlike those of files, it has to be in lower case. -/
def dataFormat? (name : String) : Option DataFormat :=
  if name = "json" then some .json
  else if name = "toml" then some .toml
  else if name = "yaml" ∨ name = "yml" then some .yaml
  else if name = "text" ∨ name = "txt" then some .text
  else none

def shapeFormat? (name : String) : Option ShapeFormat :=
  if name = "text" then some .outline else if name = "json" then some .json else none

namespace Parameter

/-- The name after two dashes. What is told by its position has none. -/
def long? : Parameter → Option String
  | config => some "config"
  | verbose => some "verbose"
  | noColor => some "no-color"
  | help => some "help"
  | version => some "version"
  | data => some "data"
  | dataFormat => some "format"
  | output => some "output"
  | sourceName => some "source-name"
  | unsafeContent => some "disable-content-safety"
  | shapeFormat => some "format"
  | template => none
  | templates => none

/-- The letter after one dash. -/
def short? : Parameter → Option Char
  | config => some 'c'
  | verbose => some 'v'
  | help => some 'h'
  | version => some 'V'
  | data => some 'd'
  | dataFormat => some 'f'
  | output => some 'o'
  | _ => none

def takesValue : Parameter → Bool
  | config | data | dataFormat | output | sourceName | shapeFormat | template | templates => true
  | verbose | noColor | help | version | unsafeContent => false

/-- Whether it may be given again, each time with more values. -/
def repeats : Parameter → Bool
  | templates => true
  | _ => false

/-- Whether a value is one that can be meant: paths are not empty and formats exist. -/
def accepts (p : Parameter) (value : String) : Bool :=
  match p with
  | config | data | output | template | templates => value != ""
  | dataFormat => (dataFormat? value).isSome
  | shapeFormat => (shapeFormat? value).isSome
  | _ => true

end Parameter

/-- The place of an argument: before any command, or after one. -/
inductive Level where
  | top
  | render
  | check
  | infer
  | tokens
deriving DecidableEq, Repr

namespace Level

/-- The command with a name. -/
def ofName? (name : String) : Option Level :=
  if name = "render" then some .render
  else if name = "check" then some .check
  else if name = "infer" then some .infer
  else if name = "tokens" then some .tokens
  else none

/-- What is told by name. -/
def parameters : Level → List Parameter
  | top => [.config, .verbose, .noColor, .help, .version]
  | render =>
    [.data, .dataFormat, .output, .sourceName, .unsafeContent, .config, .verbose, .noColor, .help]
  | infer => [.shapeFormat, .config, .verbose, .noColor, .help]
  | check | tokens => [.config, .verbose, .noColor, .help]

/-- What is told by its position. -/
def positional? : Level → Option Parameter
  | top => none
  | check => some .templates
  | render | infer | tokens => some .template

end Level

end Stencil.Command
