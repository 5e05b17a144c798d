import Stencil.Data.Yaml.Token
/-
  YAML tokens as a tree. An alias is kept as the number of its anchor and followed only when the
  tree is read.
-/

namespace Stencil.Yaml

inductive Node where
  | scalar (tag : Option String) (text : String) (plain : Bool)
  | seq (tag : Option String) (items : List Node)
  | map (tag : Option String) (entries : List (Node × Node))
  | alias (anchor : Nat)

/-- A document: its root, if it has one, and what its anchors mark. -/
structure Document where
  root? : Option Node
  /-- For every anchored node its place in the order of anchors, and the node. -/
  anchored : List (Nat × Node)
  /-- For every number of an anchor the places of its nodes, the last one first. -/
  places : List (Nat × Nat)

namespace Document

/-- The node that an anchor number means: the last one with it. -/
def target? (d : Document) (anchor : Nat) : Option Node :=
  (d.places.lookup anchor).bind fun place => d.anchored.lookup place

end Document

/-! ## Reading tokens -/

/-- What is left of the tokens, and the anchors so far. -/
structure Reading where
  tokens : List Token
  /-- What each tag handle stands for. -/
  handles : List (String × String) := []
  /-- The number of each anchor name. -/
  names : List (String × Nat) := []
  places : List (Nat × Nat) := []
  anchored : List (Nat × Node) := []

abbrev Reader := StateT Reading Option

namespace Reader

def peek : Reader (Option Token) := return (← get).tokens.head?

def skip : Reader Unit := modify fun r => { r with tokens := r.tokens.tail }

/-- The number of a new anchor is how many names there are, so a name used again shares its number
    with the name that comes after it. -/
def declare (name : String) : Reader Nat := do
  let r ← get
  let number := (r.names.map (·.1)).eraseDups.length
  let place := r.places.length
  set { r with names := (name, number) :: r.names, places := (number, place) :: r.places }
  return place

/-- Keeps a node that has an anchor. -/
def keep (place : Option Nat) (n : Node) : Reader Node := do
  if let some place := place then
    modify fun r => { r with anchored := (place, n) :: r.anchored }
  return n

/-- The tag that a handle and a suffix make. -/
def tagOf (handle suffix : String) : Reader String := do
  if handle.isEmpty then return suffix
  match (← get).handles.lookup handle with
  | some start => return start ++ suffix
  | none => failure

def anchor? : Reader (Option Nat) := do
  match ← peek with
  | some (.anchor name) => skip; return some (← declare name)
  | _ => return none

def tag? : Reader (Option String) := do
  match ← peek with
  | some (.tag handle suffix) =>
    skip
    return some (← tagOf handle suffix)
  | _ => return none

/-- The anchor and the tag of a node, in either order. The anchor is declared when its node
    begins, which is after the tag is known. -/
def properties : Reader (Option Nat × Option String) := do
  match ← peek with
  | some (.anchor name) =>
    skip
    let tag ← tag?
    return (some (← declare name), tag)
  | _ =>
    let tag ← tag?
    return (← anchor?, tag)

/-- A node that is not written. -/
def absent : Node := .scalar none "" true

/-- Whether the next token is none of some; at the end of the tokens it is. -/
def nextIsNot (ends : List Token) : Reader Bool := do
  match ← peek with
  | some t => return !ends.contains t
  | none => return true

/-- A node of which there is no more than its anchor or tag. -/
def bare (place : Option Nat) (tag : Option String) : Reader Node :=
  if place.isSome || tag.isSome then keep place (.scalar tag "" true) else failure

mutual

/-- Reads a node. In a block, block collections may stand, and below a key also a sequence that is
    not indented. Every call is made for a token that is then taken, or for one of a few reasons
    to look at it again, so a multiple of the number of tokens is fuel enough. -/
def node (inBlock unindented : Bool) : (fuel : Nat) → Reader Node
  | 0 => failure
  | fuel + 1 => do
    if let some (.alias name) ← peek then
      skip
      match (← get).names.lookup name with
      | some number => return .alias number
      | none => failure
    else
      let (place, tag) ← properties
      let next ← peek
      if unindented && next == some .blockEntry then
        keep place (.seq tag (← unindentedItems fuel []))
      else match next with
        | some (.scalar text plain) =>
          skip
          keep place (.scalar tag text plain)
        | some .flowSeqStart => skip; keep place (.seq tag (← flowItems true fuel []))
        | some .flowMapStart => skip; keep place (.map tag (← flowEntries true fuel []))
        | some .blockSeqStart =>
          if inBlock then skip; keep place (.seq tag (← blockItems fuel []))
          else bare place tag
        | some .blockMapStart =>
          if inBlock then skip; keep place (.map tag (← blockEntries fuel []))
          else bare place tag
        | _ => bare place tag

/-- A node, unless a token comes that says there is none. -/
def nodeUnless (ends : List Token) (inBlock unindented : Bool) : (fuel : Nat) → Reader Node
  | 0 => failure
  | fuel + 1 => do
    if ← nextIsNot ends then node inBlock unindented fuel else return absent

def blockItems : (fuel : Nat) → List Node → Reader (List Node)
  | 0, _ => failure
  | fuel + 1, done => do
    match ← peek with
    | some .blockEntry =>
      skip
      let item ← nodeUnless [.blockEntry, .blockEnd] true false fuel
      blockItems fuel (item :: done)
    | some .blockEnd => skip; return done.reverse
    | _ => failure

def unindentedItems : (fuel : Nat) → List Node → Reader (List Node)
  | 0, _ => failure
  | fuel + 1, done => do
    match ← peek with
    | some .blockEntry =>
      skip
      let item ← nodeUnless [.blockEntry, .key, .value, .blockEnd] true false fuel
      unindentedItems fuel (item :: done)
    | _ => return done.reverse

def blockEntries : (fuel : Nat) → List (Node × Node) → Reader (List (Node × Node))
  | 0, _ => failure
  | fuel + 1, done => do
    match ← peek with
    | some .key =>
      skip
      let key ← nodeUnless [.key, .value, .blockEnd] true true fuel
      let value ←
        if (← peek) == some .value then do
          skip
          nodeUnless [.key, .value, .blockEnd] true true fuel
        else pure absent
      blockEntries fuel ((key, value) :: done)
    | some .blockEnd => skip; return done.reverse
    | _ => failure

/-- The items of a flow sequence; after the first one each has a comma before it. -/
def flowItems (first : Bool) : (fuel : Nat) → List Node → Reader (List Node)
  | 0, _ => failure
  | fuel + 1, done => do
    if (← peek) == some .flowSeqEnd then skip; return done.reverse
    else
      if !first then
        if (← peek) == some .flowEntry then skip else failure
      match ← peek with
      | some .flowSeqEnd => skip; return done.reverse
      | some .key =>
        skip
        let pair ← flowPair fuel
        flowItems false fuel (.map none [pair] :: done)
      | _ =>
        let item ← node false false fuel
        flowItems false fuel (item :: done)

/-- The one entry of a map that stands in a flow sequence without braces. Where its key is missing
    the token after it is passed over. -/
def flowPair : (fuel : Nat) → Reader (Node × Node)
  | 0 => failure
  | fuel + 1 => do
    let key ←
      if ← nextIsNot [.value, .flowEntry, .flowSeqEnd] then node false false fuel
      else do
        skip
        pure absent
    let value ←
      if (← peek) == some .value then do
        skip
        nodeUnless [.flowEntry, .flowSeqEnd] false false fuel
      else pure absent
    return (key, value)

/-- The entries of a flow map; after the first one each has a comma before it. -/
def flowEntries (first : Bool) : (fuel : Nat) → List (Node × Node) → Reader (List (Node × Node))
  | 0, _ => failure
  | fuel + 1, done => do
    if (← peek) == some .flowMapEnd then skip; return done.reverse
    else
      if !first then
        if (← peek) == some .flowEntry then skip else failure
      match ← peek with
      | some .flowMapEnd => skip; return done.reverse
      | some .key =>
        skip
        let key ← nodeUnless [.value, .flowEntry, .flowMapEnd] false false fuel
        let value ←
          if (← peek) == some .value then do
            skip
            nodeUnless [.flowEntry, .flowMapEnd] false false fuel
          else pure absent
        flowEntries false fuel ((key, value) :: done)
      | _ =>
        let key ← node false false fuel
        flowEntries false fuel ((key, absent) :: done)

end

/-! ## Documents -/

/-- The directives before a document; each may be given once. -/
def directives : (fuel : Nat) → (versioned : Bool) → Reader Unit
  | 0, _ => failure
  | fuel + 1, versioned => do
    match ← peek with
    | some (.version major minor) =>
      if versioned || major ≠ 1 || (minor ≠ 1 && minor ≠ 2) then failure
      skip
      directives fuel true
    | some (.tagHandle handle start) =>
      let r ← get
      if (r.handles.lookup handle).isSome then failure
      set { r with tokens := r.tokens.tail, handles := (handle, start) :: r.handles }
      directives fuel versioned
    | _ => return ()

/-- The handles that need no directive come after those that have one. -/
def standardHandles : Reader Unit :=
  modify fun r => { r with
    handles := r.handles ++ [("!", "!"), ("!!", "tag:yaml.org,2002:")] }

def isDirective : Token → Bool
  | .version _ _ | .tagHandle _ _ => true
  | _ => false

/-- After a document nothing may come but the marks of its end. -/
def nothingMore (ts : List Token) : Bool := ts.all (· == .documentEnd)

/-- The only document of the tokens. -/
def document (fuel : Nat) : Reader Document := do
  match ← peek with
  | none => return ⟨none, [], []⟩
  | some t =>
    let root ←
      if isDirective t || t == .documentStart then do
        directives fuel false
        standardHandles
        if (← peek) ≠ some .documentStart then failure
        skip
        match ← peek with
        | none | some .documentStart | some .documentEnd => pure absent
        | some t => if isDirective t then pure absent else node true false fuel
      else do
        standardHandles
        node true false fuel
    let r ← get
    if nothingMore r.tokens then return ⟨some root, r.anchored, r.places⟩ else failure

end Reader

/-- The document of a text. -/
def Document.ofText? (text : String) : Option Document := do
  let tokens ← Token.ofText? text
  let (d, _) ← (Reader.document (4 * tokens.length + 4)).run { tokens }
  return d

end Stencil.Yaml
