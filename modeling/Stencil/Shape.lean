import Stencil.Entries
import Stencil.Path
import Stencil.Text.Quoted
import Stencil.Token
/-
  The shape of model that a template expects: the keys of its paths as a tree, each with the
  first use that was made of it.
-/

namespace Stencil

/-- How a template uses what a path leads to. -/
inductive Usage where
  | scalar
  | collection
  | conditional
deriving DecidableEq, Repr

namespace Usage

def text : Usage → String
  | .scalar => "scalar"
  | .collection => "collection"
  | .conditional => "conditional"

/-- The name of the usage in JSON. -/
def jsonName : Usage → String
  | .scalar => "scalar"
  | .collection => "collection"
  | .conditional => "conditional_value"

end Usage

inductive Shape where
  | node (usage : Option Usage) (children : List (String × Shape))
deriving Repr

namespace Shape

def usage : Shape → Option Usage
  | node usage _ => usage

def children : Shape → List (String × Shape)
  | node _ children => children

def empty : Shape := node none []

instance : Inhabited Shape := ⟨empty⟩

def isEmpty (s : Shape) : Bool := s.children.isEmpty

/-! ## Recording -/

/-- Records a use at the end of some keys; a use that is there already stays. -/
def recordKeys (use : Usage) : List String → Shape → Shape
  | [], node usage children => node (usage.or (some use)) children
  | k :: ks, node usage children =>
    node usage (Entries.modify k empty (recordKeys use ks) children)

/-- Records a use of a path. Parent steps are not part of what is recorded, and a path without
    keys means the current context and records nothing. -/
def register (s : Shape) (path : String) (use : Usage) : Shape :=
  match Path.keys path with
  | [] => s
  | keys => recordKeys use keys s

/-- The use that a token makes of its path. -/
def useOf? : Token → Option (String × Usage)
  | .escaped path | .unescaped path => some (path, .scalar)
  | .sectionOpen path | .invertedOpen path => some (path, .conditional)
  | .eachOpen path => some (path, .collection)
  | _ => none

/-- The uses of all tokens, from the left. -/
def ofTokens (tokens : List Token) : Shape :=
  (tokens.filterMap useOf?).foldl (fun s (path, use) => s.register path use) empty

/-! ## Lookup -/

def child? (s : Shape) (name : String) : Option Shape := s.children.lookup name

/-- The part under a dotted path. -/
def get? (s : Shape) (path : String) : Option Shape := (Path.keys path).foldlM child? s

/-! ## As text -/

mutual

/-- One line for every key, below and to the right of the key that holds it. -/
def outlineAt (depth : Nat) : Shape → String
  | node _ children => outlineChildren depth children

def outlineChildren (depth : Nat) : List (String × Shape) → String
  | [] => ""
  | (name, child) :: rest =>
    "".pushn ' ' (2 * depth) ++ name ++
      (match child.usage with
        | some use => ": " ++ use.text
        | none => "") ++
      "\n" ++ outlineAt (depth + 1) child ++ outlineChildren depth rest

end

def outline (s : Shape) : String := outlineAt 0 s

/-- The usage as a field of a JSON object. -/
def usageField (colon : String) : Option Usage → List String
  | some use => ["\"used_as\"" ++ colon ++ "\"" ++ use.jsonName ++ "\""]
  | none => []

mutual

/-- JSON without blanks. An unknown usage and an empty list of children are left out. -/
def json : Shape → String
  | node usage children =>
    let fields := match children with
      | [] => []
      | _ => ["\"children\":\x7b" ++ ",".intercalate (jsonChildren children) ++ "\x7d"]
    "\x7b" ++ ",".intercalate (usageField ":" usage ++ fields) ++ "\x7d"

def jsonChildren : List (String × Shape) → List String
  | [] => []
  | (name, child) :: rest => (Quoted.json name ++ ":" ++ json child) :: jsonChildren rest

end

def newline (depth : Nat) : String := "\n" ++ "".pushn ' ' (2 * depth)

/-- An object with a field on each line. -/
def block (depth : Nat) : List String → String
  | [] => "\x7b\x7d"
  | fields =>
    "\x7b" ++ newline (depth + 1) ++ ("," ++ newline (depth + 1)).intercalate fields ++
      newline depth ++ "\x7d"

mutual

/-- JSON over several lines; `depth` counts the objects around this one. -/
def prettyAt (depth : Nat) : Shape → String
  | node usage children =>
    let fields := match children with
      | [] => []
      | _ => ["\"children\": " ++ block (depth + 1) (prettyChildren (depth + 2) children)]
    block depth (usageField ": " usage ++ fields)

def prettyChildren (depth : Nat) : List (String × Shape) → List String
  | [] => []
  | (name, child) :: rest =>
    (Quoted.json name ++ ": " ++ prettyAt depth child) :: prettyChildren depth rest

end

def prettyJson (s : Shape) : String := prettyAt 0 s

end Shape

end Stencil
