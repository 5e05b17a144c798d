import Stencil.Context
import Stencil.Node
import Stencil.Text.Html
/-
  Rendering a tree against the contexts of a model. What is written before an error stays.
-/

namespace Stencil

/-- How far a rendering has come. -/
structure Progress where
  arena : Arena
  output : String

/-- A part of a rendering: it goes on from some progress, and may end in an error. -/
def Action := Progress → Progress × Option Error

namespace Action

def skip : Action := fun p => (p, none)

def fail (e : Error) : Action := fun p => (p, some e)

def write (text : String) : Action := fun p => ({ p with output := p.output ++ text }, none)

/-- The second part follows if the first one ends without error. -/
def andThen (a b : Action) : Action := fun p =>
  match a p with
  | (p, none) => b p
  | (p, some e) => (p, some e)

/-- Goes on in the context that a path leads to. -/
def resolve (id : Nat) (path : String) (next : Nat → Action) : Action := fun p =>
  let (arena, id) := p.arena.resolve id path
  next id { p with arena }

/-- Goes on with the value of a context. -/
def withValue (id : Nat) (next : Option Value → Action) : Action := fun p =>
  next (p.arena.value? id) p

/-- Goes on in every element's context, one after the other. -/
def forElements (id : Nat) (each : Nat → Action) : (index : Nat) → List Value → Action
  | _, [] => skip
  | index, item :: items =>
    andThen
      (fun p =>
        let (arena, id) := p.arena.element id index item
        each id { p with arena })
      (forElements id each (index + 1) items)

/-- The context with a number; a number not given yet means the first. -/
def slot (slots : List Nat) (n : Nat) : Nat := slots[n]?.getD (slots.headD 0)

/-- Carries out what a custom tag does; `slots` are the contexts it has obtained. -/
def inspect (slots : List Nat) : Inspection → Action
  | .finish => skip
  | .fail e => fail e
  | .write text next => (write text).andThen (inspect slots next)
  | .output next => fun p => inspect slots (next p.output) p
  | .replace text next => fun p => inspect slots next { p with output := text }
  | .resolve n path next => resolve (slot slots n) path fun id => inspect (slots ++ [id]) next
  | .parent n next => fun p =>
    let id := slot slots n
    match p.arena.parent? id with
    | some parent => inspect (slots ++ [parent]) (next true) p
    | none => inspect (slots ++ [id]) (next false) p
  | .look n next => fun p =>
    let id := slot slots n
    inspect slots (next (p.arena.key id) (p.arena.value? id)) p

/-- What a value tag writes for a value. -/
def valueText (settings : Settings) (escaped : Bool) (v : Value) : String :=
  if escaped && settings.contentSafety then Html.escape v.text else v.text

mutual

/-- Renders a node in a context. -/
def node (settings : Settings) : Node → Nat → Action
  | .content text, _ => write text
  | .value path escaped, id =>
    resolve id path fun id => withValue id fun
      | none => skip
      | some v => write (valueText settings escaped v)
  | .conditional path body, id =>
    resolve id path fun id => withValue id fun v? =>
      if v?.any (·.truthy) then nodes settings body id else skip
  | .inverted path body, id =>
    resolve id path fun id => withValue id fun v? =>
      if v?.any (·.truthy) then skip else nodes settings body id
  | .each path body, id =>
    resolve id path fun id => withValue id fun
      | none => skip
      | some v =>
        if v.truthy then
          match v.elements? with
          | some items => forElements id (nodes settings body) 0 items
          | none => fail (.scalarUsedAsCollection path (some v.kind))
        else skip
  | .custom path expander, id => inspect [id] (expander.render path settings)

/-- Renders nodes one after the other in a context. -/
def nodes (settings : Settings) : List Node → Nat → Action
  | [], _ => skip
  | n :: ns, id => (node settings n id).andThen (nodes settings ns id)

end

end Action

end Stencil
