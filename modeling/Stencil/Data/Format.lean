import Stencil.Data.Json
import Stencil.Data.Toml.Document
import Stencil.Data.Yaml
/-
  The formats of data files.
-/

namespace Stencil

inductive DataFormat where
  | json
  | toml
  | yaml
  /-- The whole text is one string. -/
  | text
deriving DecidableEq, Repr

namespace DataFormat

/-- The format of a name in lower case. -/
def ofLowerName? (name : String) : Option DataFormat :=
  if name = "json" then some .json
  else if name = "toml" then some .toml
  else if name = "yaml" ∨ name = "yml" then some .yaml
  else if name = "text" ∨ name = "txt" ∨ name = "string" ∨ name = "raw" then some .text
  else none

/-- The model that a text in this format holds; none if the text is not in this format. -/
def read? (format : DataFormat) (text : String) : Option Value :=
  match format with
  | .json => Json.parse? text
  | .toml => (Toml.parse? text).bind Toml.toValue?
  | .yaml => Yaml.parse? text
  | .text => some (.str text)

end DataFormat

end Stencil
