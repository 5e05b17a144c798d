import Stencil.Render
import Stencil.Shape
import Stencil.Tokenizer
/-
  Templates: read from text, rendered against models.
-/

namespace Stencil

structure Template where
  nodes : List Node
  options : Options

/-- What a rendering leaves behind. -/
structure Rendering where
  /-- All that was written, also before an error. -/
  output : String
  error : Option Error
  /-- How many contexts were made. -/
  contexts : Nat

namespace Template

/-- The tokens of a text without faults, or else its first error. -/
def tokens (text : String) (options : Options) : Except ParseError (List Token) :=
  let r := tokenize text options
  match r.errors with
  | [] => .ok r.tokens
  | e :: _ => .error e

def parse (text : String) (options : Options) : Except ParseError Template := do
  let ts ← tokens text options
  return ⟨Node.ofTokens ts, options⟩

/-- A template together with the shape of model that it expects. -/
def parseWithShape (text : String) (options : Options) : Except ParseError (Template × Shape) := do
  let ts ← tokens text options
  return (⟨Node.ofTokens ts, options⟩, Shape.ofTokens ts)

/-- Renders a template, appending to `output`. -/
def renderOnto (t : Template) (model : Value) (output : String) : Rendering :=
  let (p, error) := Action.nodes t.options.toSettings t.nodes 0 ⟨.ofModel model, output⟩
  ⟨p.output, error, p.arena.size⟩

def render (t : Template) (model : Value) : Except Error String :=
  let r := t.renderOnto model ""
  match r.error with
  | none => .ok r.output
  | some e => .error e

end Template

end Stencil
