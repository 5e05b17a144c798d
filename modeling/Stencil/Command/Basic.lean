import Stencil.Data.Format
/-
  What the command line can ask for.
-/

namespace Stencil

/-- How the shape of a model is printed. -/
inductive ShapeFormat where
  | outline
  | json
deriving DecidableEq, Repr

/-- What `render` is told; the configuration may stand in for what is left out. -/
structure RenderRequest where
  template : String
  data : Option String := none
  format : Option DataFormat := none
  /-- Where the output goes; printed if left out. -/
  output : Option String := none
  sourceName : Option String := none
  /-- Whether value tags write their values as they are. -/
  unsafeContent : Bool := false
deriving DecidableEq, Repr

inductive Command where
  | render (request : RenderRequest)
  | check (templates : List String)
  | infer (template : String) (format : ShapeFormat)
  | tokens (template : String)
deriving DecidableEq, Repr

/-- A command with what can be said beside any command. -/
structure Invocation where
  command : Option Command
  config : Option String := none
  verbose : Bool := false
  noColor : Bool := false
deriving DecidableEq, Repr

end Stencil
