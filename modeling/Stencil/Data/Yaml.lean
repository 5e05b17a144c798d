import Stencil.Data.Yaml.Node
import Stencil.Data.Yaml.Scalar
/-
  Values from YAML text.
-/

namespace Stencil.Yaml

/-- How deep collections may be nested. -/
def maxDepth : Nat := 128

/-! ## Size -/

mutual

/-- How many events a tree makes: two for a collection, one for anything else. -/
def Node.events : Node → Nat
  | .scalar _ _ _ | .alias _ => 1
  | .seq _ items => itemEvents items + 2
  | .map _ entries => entryEvents entries + 2

def itemEvents : List Node → Nat
  | [] => 0
  | n :: ns => n.events + itemEvents ns

def entryEvents : List (Node × Node) → Nat
  | [] => 0
  | (k, n) :: rest => k.events + n.events + entryEvents rest

end

/-! ## Values -/

/-- A run that counts the aliases that were followed. -/
abbrev Counting := StateT Nat Option

/-- Follows an alias. A document may not do so a hundred times as often as it has events. -/
def follow (d : Document) (limit : Nat) : Node → Counting Node
  | .alias anchor => do
    let count := (← get) + 1
    if limit < count then failure
    set count
    match d.target? anchor with
    | some n => return n
    | none => failure
  | n => return n

/-- A key is the text of a scalar, whatever it means. -/
def keyText (d : Document) (limit : Nat) (n : Node) : Counting String := do
  match ← follow d limit n with
  | .scalar _ text _ => return text
  | _ => failure

/-- A tag of a document's own has no value. -/
def isOwn (tag : Option String) : Bool := tag.any (·.startsWith "!")

/-- The value of a node in which collections are nested at most `depth` deep. -/
def valueOf (d : Document) (limit : Nat) : (depth : Nat) → Node → Counting Value
  | 0, n => do
    match ← follow d limit n with
    | .scalar tag text plain => (scalarValue? tag text plain : Option Value)
    | _ => failure
  | depth + 1, n => do
    match ← follow d limit n with
    | .scalar tag text plain => (scalarValue? tag text plain : Option Value)
    | .seq tag items =>
      if isOwn tag then failure
      return .seq (← items.mapM (valueOf d limit depth))
    | .map tag entries =>
      if isOwn tag then failure
      return Value.ofPairs (← entries.mapM fun (k, v) => do
        return (← keyText d limit k, ← valueOf d limit depth v))
    | .alias _ => failure

def Document.value? (d : Document) : Option Value :=
  match d.root? with
  | none => some .null
  | some root => ((valueOf d (100 * root.events) maxDepth root).run 0).map (·.1)

/-- The value of a text that holds one document, or none at all. -/
def parse? (text : String) : Option Value := (Document.ofText? text).bind Document.value?

end Stencil.Yaml
