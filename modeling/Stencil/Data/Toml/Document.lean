import Stencil.Data.Toml.Scalar
import Stencil.Data.Toml.Table
/-
  TOML documents: lines that give keys their values, under headers that name tables.
-/

namespace Stencil.Toml

/-- How deep arrays and inline tables may be nested, and how many parts a key may have. -/
def maxDepth : Nat := 80

/-- What follows a newline. -/
def newline? : List Char → Option (List Char)
  | '\n' :: rest => some rest
  | '\r' :: '\n' :: rest => some rest
  | _ => none

/-- Skips a comment up to the end of its line. -/
def skipComment : List Char → List Char
  | '#' :: rest => rest.dropWhile isPlain
  | cs => cs

/-- Skips spaces, newlines and comments. -/
def skipGaps : List Char → List Char
  | [] => []
  | '\r' :: '\n' :: rest => skipGaps rest
  | '#' :: rest => skipGaps (rest.dropWhile isPlain)
  | c :: rest => if isSpace c || c == '\n' then skipGaps rest else c :: rest
termination_by cs => cs.length
decreasing_by
  · exact Nat.lt_succ_of_lt (Nat.lt_succ_self _)
  · exact Nat.lt_succ_of_le (List.dropWhile_sublist _).length_le
  · exact Nat.lt_succ_self _

/-! ## Keys -/

def isBare (c : Char) : Bool := c.isAlphanum || c == '_' || c == '-'

def simpleKey? (cs : List Char) : Option (String × List Char) :=
  match cs with
  | '"' :: rest => basic? [] rest
  | '\'' :: rest => literal? rest
  | cs =>
    let name := cs.takeWhile isBare
    if name.isEmpty then none else some (String.ofList name, cs.dropWhile isBare)

/-- A key of some parts at most, with dots between them: the names before the last one, and the
    last. -/
def keyParts? : (parts : Nat) → List Char → Option (List String × String × List Char)
  | 0, _ => none
  | parts + 1, cs => do
    let (name, rest) ← simpleKey? cs
    match skipSpace rest with
    | '.' :: rest => do
      let (names, last, rest) ← keyParts? parts (skipSpace rest)
      return (name :: names, last, rest)
    | rest => return ([], name, rest)

def key? (cs : List Char) : Option (List String × String × List Char) := keyParts? maxDepth cs

/-- A key up to the text after its equals sign; `skip` takes what may stand around the sign. -/
def keyEquals? (skip : List Char → List Char) (cs : List Char) :
    Option (List String × String × List Char) := do
  let (names, last, rest) ← key? cs
  match skip rest with
  | '=' :: rest => return (names, last, skip rest)
  | _ => none

/-! ## Values -/

mutual

/-- Reads a value. At most two calls are made for a character, so twice the length of the text is
    fuel enough. -/
def value? : (fuel depth : Nat) → List Char → Option (Toml × List Char)
  | 0, _, _ => none
  | fuel + 1, depth, cs =>
    match cs, depth with
    | '"' :: _, _ | '\'' :: _, _ => (string? cs).map fun (s, rest) => (.str s, rest)
    | '[' :: rest, depth + 1 => items? fuel depth [] (skipGaps rest)
    | '\x7b' :: rest, depth + 1 => fields? fuel depth [] (skipGaps rest)
    | '[' :: _, 0 | '\x7b' :: _, 0 => none
    | _, _ => scalar? cs

/-- The rest of an array; `done` holds its items, last first. A comma may end it. -/
def items? : (fuel depth : Nat) → List Toml → List Char → Option (Toml × List Char)
  | 0, _, _, _ => none
  | fuel + 1, depth, done, cs =>
    match cs with
    | ']' :: rest => some (.array done.reverse, rest)
    | cs =>
      match value? fuel depth cs with
      | none => none
      | some (t, rest) =>
        match skipGaps rest with
        | ',' :: rest => items? fuel depth (t :: done) (skipGaps rest)
        | ']' :: rest => some (.array (t :: done).reverse, rest)
        | _ => none

/-- The rest of an inline table, which is complete in itself. A comma may end it. -/
def fields? : (fuel depth : Nat) → Draft.Entries → List Char → Option (Toml × List Char)
  | 0, _, _, _ => none
  | fuel + 1, depth, entries, cs =>
    match cs with
    | '\x7d' :: rest => some ((Draft.table .header entries).finish, rest)
    | cs =>
      match keyEquals? skipGaps cs with
      | none => none
      | some (names, last, rest) =>
        match value? fuel depth rest with
        | none => none
        | some (t, rest) =>
          match Draft.assign names last t .header entries with
          | none => none
          | some (_, entries) =>
            match skipGaps rest with
            | ',' :: rest => fields? fuel depth entries (skipGaps rest)
            | '\x7d' :: rest => some ((Draft.table .header entries).finish, rest)
            | _ => none

end

/-! ## Lines -/

/-- What has been read of a document: its tables, and the keys of the one under whose header the
    next lines stand. -/
structure Reading where
  root : Draft.Entries
  current : List String

def Reading.assign (r : Reading) (names : List String) (last : String) (t : Toml) :
    Option Reading :=
  (Draft.within false (Draft.assign names last t) r.current .header r.root).map
    fun (_, root) => { r with root }

/-- The end of a line, with a comment before it. -/
def lineEnd? (cs : List Char) : Option (List Char) :=
  match skipComment (skipSpace cs) with
  | [] => some []
  | cs => newline? cs

/-- One line that is not empty. -/
def line? (r : Reading) (cs : List Char) : Option (Reading × List Char) :=
  match cs with
  | '[' :: '[' :: rest => do
    let (names, last, rest) ← key? (skipSpace rest)
    let ']' :: ']' :: rest := rest | none
    let root ← Draft.openElement names last r.root
    return (⟨root, names ++ [last]⟩, rest)
  | '[' :: rest => do
    let (names, last, rest) ← key? (skipSpace rest)
    let ']' :: rest := rest | none
    let root ← Draft.openTable names last r.root
    return (⟨root, names ++ [last]⟩, rest)
  | cs => do
    let (names, last, rest) ← keyEquals? skipSpace cs
    let (t, rest) ← value? (2 * rest.length + 2) maxDepth rest
    return (← r.assign names last t, rest)

/-- All lines. Every round takes a character, so the length of the text is fuel enough. -/
def lines? : (fuel : Nat) → Reading → List Char → Option Draft.Entries
  | 0, _, _ => none
  | fuel + 1, r, cs =>
    match skipGaps cs with
    | [] => some r.root
    | cs => do
      let (r, rest) ← line? r cs
      lines? fuel r (← lineEnd? rest)

/-- The table that a document holds. -/
def parse? (text : String) : Option Toml :=
  let cs := match text.toList with
    | '\uFEFF' :: rest => rest
    | cs => cs
  (lines? (cs.length + 1) ⟨[], []⟩ cs).map fun root => (Draft.table .header root).finish

end Stencil.Toml
