import Stencil.Log.Event
import Stencil.Template
/-
  What is told about reading and rendering a template.
-/

namespace Stencil.Log

/-- A tag, as it is come upon. -/
def ofTag (offset : Nat) (tag : Tag) : Event :=
  { level := .trace, source := .tokenizer,
    message := "tag", fields := [("tag", Quoted.shown tag.text), ("offset", toString offset)] }

/-- The end of an `each` block, by the block that a tag closes. -/
def ofClosed (scopes : List Scope) (effect : Effect) : List Event :=
  match scopes, effect.tokens with
  | scope :: _, [.eachClose path] =>
    [{ level := .trace, source := .tokenizer,
       message := "closed each block"
       fields := [("path", Quoted.shown path), ("opened_at", toString scope.offset)] }]
  | _, _ => []

/-- What is told on the way through the tags of a text; `offset` is where the pieces begin. -/
def ofPieces (options : Options) : (offset : Nat) → List Scope → List Piece → List Event
  | _, _, [] => []
  | offset, scopes, .text cs :: rest => ofPieces options (offset + Text.byteSize cs) scopes rest
  | offset, scopes, .tag tag :: rest =>
    let effect := Tokenizer.step options scopes offset tag
    ofTag offset tag :: ofClosed scopes effect ++
      ofPieces options (offset + Text.byteSize tag.chars) effect.scopes rest

/-- What is told while a text is made into tokens; `purpose` names the work this is part of. -/
def ofTokenizing (template : String) (options : Options) (purpose : Option String) : List Event :=
  let r := tokenize template options
  let events := ofPieces options 0 [] (Piece.split template.toList) ++
    [{ level := .debug, source := .tokenizer,
       message := "tokenized template"
       fields :=
         [("source_name", options.sourceName), ("tokens", toString r.tokens.length),
           ("errors", toString r.errors.length)] }]
  events.map ({ · with span := purpose.map (⟨·, options.sourceName⟩) })

/-- What is told about a rendering. -/
def ofRendering (r : Rendering) : List Event :=
  let fault := match r.error with
    | some (.scalarUsedAsCollection path (some kind)) =>
      [{ level := .debug, source := .renderer,
         message := "collection path holds a scalar"
         fields := [("path", Quoted.shown path), ("kind", Quoted.shown kind)] }]
    | _ => []
  fault ++
    [{ level := .debug, source := .renderer,
       message := "rendered template"
       fields :=
         [("contexts", toString r.contexts), ("bytes", toString r.output.utf8ByteSize),
           ("ok", toString r.error.isNone)] }]

end Stencil.Log
