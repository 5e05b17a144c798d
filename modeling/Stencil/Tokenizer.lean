import Stencil.ParseError
import Stencil.Path
import Stencil.Tag
import Stencil.Token
/-
  From a template's text to its tokens. Every fault is reported and none stops the scan: first
  the faults of single tags, from the left, then the blocks that are never closed, innermost
  first.
-/

namespace Stencil

open Text

/-! ## What a tag says -/

/-- The meaning of a tag, with the blanks around its path removed. -/
inductive Tag.Kind where
  | eachOpen (path : List Char)
  | eachClose
  | sectionOpen (path : List Char)
  | invertedOpen (path : List Char)
  | sectionClose (path : List Char)
  | unescaped (path : List Char)
  | comment
  /-- No sigil: an escaped value, unless an expander claims the tag. -/
  | plain (path : List Char)
deriving DecidableEq, Repr

namespace Tag

/-- What follows `#each`, if it is blank there or the tag ends: `{{#eachs}}` is a section. -/
def eachPath? (interior : List Char) : Option (List Char) :=
  match dropStart? ['#', 'e', 'a', 'c', 'h'] interior with
  | some [] => some []
  | some (c :: rest) => if isBlank c then some (trim (c :: rest)) else none
  | none => none

/-- An ampersand before a path is not part of it. -/
def dropAmpersand (cs : List Char) : List Char :=
  match cs with
  | '&' :: rest => trim rest
  | cs => cs

def kind (t : Tag) : Kind :=
  if t.triple then .unescaped (dropAmpersand (trim t.interior))
  else
    match eachPath? t.interior with
    | some path => .eachOpen path
    | none =>
      match t.interior with
      | '/' :: rest =>
        if trim rest = ['e', 'a', 'c', 'h'] then .eachClose else .sectionClose (trim rest)
      | '#' :: rest => .sectionOpen (trim rest)
      | '^' :: rest => .invertedOpen (trim rest)
      | '&' :: rest => .unescaped (trim rest)
      | '!' :: _ => .comment
      | cs => .plain (trim cs)

end Tag

/-! ## Open blocks -/

/-- A block that waits for its closing tag. -/
structure Scope where
  /-- Opened by `{{#each path}}`, not by `{{#path}}` or `{{^path}}`. -/
  isEach : Bool
  path : String
  /-- Byte offset of the opening tag. -/
  offset : Nat
deriving DecidableEq, Repr

/-- What one tag does: the scopes after it, innermost first, its tokens and its fault. -/
structure Effect where
  scopes : List Scope
  tokens : List Token := []
  fault : Option Fault := none

namespace Tokenizer

/-- The fault of a path that may not stand in a tag. -/
def pathFault (path : String) : Option Fault :=
  if Path.isValid path then none else some (.invalidPath path)

/-- Whether the innermost open block is a section of this path. -/
def inSection (scopes : List Scope) (path : String) : Bool :=
  match scopes with
  | scope :: _ => !scope.isEach && scope.path == path
  | [] => false

/-- An `each` block without a path is open all the same, but has no token. -/
def openEach (scopes : List Scope) (offset : Nat) (path : String) : Effect :=
  let scopes := ⟨true, path, offset⟩ :: scopes
  if path == "" then ⟨scopes, [], some .eachWithoutPath⟩
  else ⟨scopes, [.eachOpen path], pathFault path⟩

def closeEach (scopes : List Scope) : Effect :=
  match scopes with
  | ⟨true, path, _⟩ :: outer => ⟨outer, [.eachClose path], none⟩
  | _ => ⟨scopes, [], some .eachCloseWithoutOpen⟩

/-- Opening the innermost section once more ends its body and starts another, so
    `{{#a}}x{{^a}}y{{/a}}` reads as one or the other. The scope stays as it is. -/
def openSection (scopes : List Scope) (offset : Nat) (path : String) (token : Token) : Effect :=
  if inSection scopes path then ⟨scopes, [.sectionClose path, token], pathFault path⟩
  else ⟨⟨false, path, offset⟩ :: scopes, [token], pathFault path⟩

def closeSection (scopes : List Scope) (path : String) : Effect :=
  if inSection scopes path then ⟨scopes.tail, [.sectionClose path], pathFault path⟩
  else ⟨scopes, [], some (.mismatchedClose path (scopes.head?.map (·.path)))⟩

/-- What a tag does when no expander has claimed it. -/
def builtIn (scopes : List Scope) (offset : Nat) : Tag.Kind → Effect
  | .eachOpen path => openEach scopes offset (String.ofList path)
  | .eachClose => closeEach scopes
  | .sectionOpen path =>
    let path := String.ofList path
    openSection scopes offset path (.sectionOpen path)
  | .invertedOpen path =>
    let path := String.ofList path
    openSection scopes offset path (.invertedOpen path)
  | .sectionClose path => closeSection scopes (String.ofList path)
  | .unescaped path =>
    let path := String.ofList path
    ⟨scopes, [.unescaped path], pathFault path⟩
  | .comment => ⟨scopes, [], none⟩
  | .plain path =>
    let path := String.ofList path
    ⟨scopes, [.escaped path], pathFault path⟩

/-- The expander that takes a tag: a high one takes any tag, the others only one without a
    sigil. -/
def claim? (options : Options) (tag : Tag) : Option (String × Expander) :=
  (options.claim? .high tag.text).or <|
    match tag.kind with
    | .plain _ => (options.claim? .medium tag.text).or (options.claim? .low tag.text)
    | _ => none

def step (options : Options) (scopes : List Scope) (offset : Nat) (tag : Tag) : Effect :=
  match claim? options tag with
  | some (path, expander) => ⟨scopes, [.custom path expander], none⟩
  | none => builtIn scopes offset tag.kind

/-! ## The whole text -/

/-- What a run over some pieces gives; faults stand with the offset of their tag. -/
structure Run where
  tokens : List Token
  faults : List (Nat × Fault)
  /-- The blocks still open, innermost first. -/
  scopes : List Scope

/-- Runs over pieces of which the first starts at byte `offset`. -/
def run (options : Options) (offset : Nat) (scopes : List Scope) : List Piece → Run
  | [] => ⟨[], [], scopes⟩
  | .text cs :: rest =>
    let r := run options (offset + byteSize cs) scopes rest
    { r with tokens := .content (String.ofList cs) :: r.tokens }
  | .tag t :: rest =>
    let effect := step options scopes offset t
    let r := run options (offset + byteSize t.chars) effect.scopes rest
    ⟨effect.tokens ++ r.tokens, effect.fault.toList.map (offset, ·) ++ r.faults, r.scopes⟩

end Tokenizer

/-- The tokens of a template and everything that is wrong with it. -/
structure Tokenized where
  tokens : List Token
  errors : List ParseError

namespace Tokenized

def isOk (r : Tokenized) : Bool := r.errors.isEmpty

end Tokenized

def tokenize (template : String) (options : Options) : Tokenized :=
  let r := Tokenizer.run options 0 [] (Piece.split template.toList)
  let unclosed := r.scopes.map fun scope => (scope.offset, Fault.unclosedBlock scope.path)
  let table := LineTable.ofText template
  ⟨r.tokens, (r.faults ++ unclosed).map fun (offset, fault) =>
    ⟨options.sourceName, table.place offset, fault⟩⟩

end Stencil
