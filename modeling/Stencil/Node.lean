import Stencil.Token
/-
  The tree of a template: its blocks, nested as their tags are.
-/

namespace Stencil

inductive Node where
  | content (text : String)
  | value (path : String) (escaped : Bool)
  /-- A body for a value that is there and truthy. -/
  | conditional (path : String) (body : List Node)
  /-- A body for a value that is not. -/
  | inverted (path : String) (body : List Node)
  /-- A body for every element. -/
  | each (path : String) (body : List Node)
  | custom (path : String) (expander : Expander)

namespace Node

/-- The nodes inside a block; nothing else has any. -/
def body : Node → List Node
  | .conditional _ body | .inverted _ body | .each _ body => body
  | _ => []

/-! ## From tokens to the tree -/

/-- What a token means to the tree. -/
inductive Role where
  | leaf (node : Node)
  | opens (block : List Node → Node)
  | closes

def role : Token → Role
  | .content text => .leaf (.content text)
  | .escaped path => .leaf (.value path true)
  | .unescaped path => .leaf (.value path false)
  | .custom path expander => .leaf (.custom path expander)
  | .sectionOpen path => .opens (.conditional path)
  | .invertedOpen path => .opens (.inverted path)
  | .eachOpen path => .opens (.each path)
  | .sectionClose _ | .eachClose _ => .closes

/-- Nodes built from the front of some tokens, and the tokens left. -/
structure Built (tokens : List Token) where
  nodes : List Node
  rest : List Token
  rest_le : rest.length ≤ tokens.length

/-- Builds nodes up to the token that closes the block, whichever block that token names. Outside
    all blocks a closing token is skipped, and the end of the tokens closes every block. -/
def build (nested : Bool) : (tokens : List Token) → Built tokens
  | [] => ⟨[], [], Nat.le_refl _⟩
  | t :: ts =>
    match role t with
    | .leaf node =>
      let r := build nested ts
      ⟨node :: r.nodes, r.rest, Nat.le_succ_of_le r.rest_le⟩
    | .opens block =>
      let inner := build true ts
      let r := build nested inner.rest
      ⟨block inner.nodes :: r.nodes, r.rest,
        Nat.le_succ_of_le (Nat.le_trans r.rest_le inner.rest_le)⟩
    | .closes =>
      if nested then ⟨[], ts, Nat.le_succ _⟩
      else
        let r := build nested ts
        ⟨r.nodes, r.rest, Nat.le_succ_of_le r.rest_le⟩
termination_by tokens => tokens.length
decreasing_by
  · exact Nat.lt_succ_self _
  · exact Nat.lt_succ_self _
  · exact Nat.lt_succ_of_le (Built.rest_le _)
  · exact Nat.lt_succ_self _

def ofTokens (tokens : List Token) : List Node := (build false tokens).nodes

end Node

end Stencil
