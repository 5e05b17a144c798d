import Stencil.ParseError
/-
  Everything that can go wrong between a template, a model and its output.
-/

namespace Stencil

inductive Error where
  | parse (error : ParseError)
  /-- An `each` block was given a scalar to run over; `kind` is the scalar's, if known. -/
  | scalarUsedAsCollection (path : String) (kind : Option String := none)
  /-- Host data could not be made into a model. -/
  | model (reason : String)
deriving DecidableEq, Repr

namespace Error

/-- The error that a rendering ends in: its own, or whichever a custom tag ends it with. -/
@[match_pattern] def render (error : Error) : Error := error

def message : Error → String
  | .parse e => e.message
  | .scalarUsedAsCollection path _ =>
    "'" ++ path ++ "' is used like an array by the template, but is a scalar value or object in " ++
      "your model."
  | .model reason => "failed to convert the model into template values: " ++ reason

def code : Error → String
  | .parse e => e.fault.code
  | .scalarUsedAsCollection _ _ => "stache::render::scalar_collection"
  | .model _ => "stache::model"

def help? : Error → Option String
  | .parse e => e.fault.help?
  | .scalarUsedAsCollection path _ =>
    some ("`\x7b\x7b#each " ++ path ++ "\x7d\x7d` needs a sequence or a map, use `\x7b\x7b#" ++
      path ++ "\x7d\x7d` for a single value")
  | .model _ => none

end Error

end Stencil
