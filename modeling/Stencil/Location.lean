import Stencil.Text.Blank
/-
  Where files are, as text: names joined by slashes. Empty names and, but for one at the very
  start, names that are a single dot stand for nothing.
-/

namespace Stencil.Location

/-- The names between the slashes, empty ones too. -/
def names : List Char → List (List Char)
  | [] => [[]]
  | c :: cs =>
    if c = '/' then [] :: names cs
    else
      match names cs with
      | [] => [[c]]
      | name :: rest => (c :: name) :: rest

def isAbsolute (path : String) : Bool := path.toList.head? == some '/'

/-- A path as seen from a directory. An absolute one is its own answer. -/
def join (root path : String) : String :=
  if isAbsolute path || root == "" then path
  else if root.toList.getLast? == some '/' then root ++ path
  else root ++ "/" ++ path

/-- Whether a name stands for nothing. -/
def isVoid (name : List Char) : Bool := name == [] || name == ['.']

/-- Names without those at the end that stand for nothing. -/
def dropVoids (ns : List (List Char)) : List (List Char) := (ns.reverse.dropWhile isVoid).reverse

/-- The start of a path that is no name of the others: the root, or the dot of this directory. -/
def anchor (path : List Char) : List Char :=
  match path with
  | '/' :: _ => ['/']
  | ['.'] | '.' :: '/' :: _ => ['.']
  | _ => []

/-- The directory that holds what a path leads to, spelled as in the path; empty if the path
    does not name one. -/
def parent (path : String) : String :=
  let start := anchor path.toList
  match dropVoids (names (path.toList.drop start.length)) with
  | [] => ""
  | ns => String.ofList (start ++ ['/'].intercalate (dropVoids ns.dropLast))

/-- The last name, if the path does not end by going up. -/
def fileName? (path : String) : Option (List Char) :=
  (dropVoids (names path.toList)).getLast?.filter (· ≠ ['.', '.'])

/-- What follows the last dot of the last name; empty if nothing precedes that dot. -/
def fileExtension (path : String) : String :=
  match fileName? path with
  | none => ""
  | some name =>
    let after := (name.reverse.takeWhile (· ≠ '.')).reverse
    if after.length + 1 < name.length then String.ofList after else ""

end Stencil.Location
