import Stencil.Place
/-
  What can be wrong with a template, and how it is told.
-/

namespace Stencil

/-- What is wrong with a tag or a block. -/
inductive Fault where
  | invalidPath (path : String)
  | eachWithoutPath
  | eachCloseWithoutOpen
  /-- A closing tag that does not fit the innermost open block, whose path is `expected`. -/
  | mismatchedClose (found : String) (expected : Option String)
  | unclosedBlock (path : String)
deriving DecidableEq, Repr

namespace Fault

def message : Fault → String
  | .invalidPath path =>
    "The path '" ++ path ++ "' is not valid. Please see documentation for examples of valid paths."
  | .eachWithoutPath =>
    "The 'each' block being opened requires a model path to be specified in the form " ++
      "'\x7b\x7b#each <name>\x7d\x7d'."
  | .eachCloseWithoutOpen =>
    "An 'each' block is being closed, but no corresponding opening element " ++
      "('\x7b\x7b#each <name>\x7d\x7d') was detected."
  | .mismatchedClose _ _ => "It appears that open and closing elements are mismatched."
  | .unclosedBlock path =>
    "A scope block to the following path was opened but not closed: '" ++ path ++
      "', please close it using the appropriate syntax."

/-- The code under which a fault is listed. -/
def code : Fault → String
  | .invalidPath _ => "stache::parse::invalid_path"
  | .eachWithoutPath => "stache::parse::each_without_path"
  | .eachCloseWithoutOpen => "stache::parse::each_close_without_open"
  | .mismatchedClose _ _ => "stache::parse::mismatched_close"
  | .unclosedBlock _ => "stache::parse::unclosed_block"

def help? : Fault → Option String
  | .invalidPath _ =>
    some "paths are made of `[A-Za-z0-9_]` names joined by `.`, optionally prefixed by `../`"
  | .mismatchedClose _ _ => some "blocks must be closed in the reverse order they were opened"
  | .unclosedBlock path =>
    some ("add `\x7b\x7b/" ++ path ++ "\x7d\x7d` (or `\x7b\x7b/each\x7d\x7d` for an each block) " ++
      "to close it")
  | .eachWithoutPath | .eachCloseWithoutOpen => none

end Fault

/-- A fault at the tag that caused it. -/
structure ParseError where
  sourceName : String
  place : Place
  fault : Fault
deriving DecidableEq, Repr

def ParseError.message (e : ParseError) : String :=
  e.sourceName ++ " Line: " ++ toString e.place.line ++ " Column: " ++ toString e.place.column ++
    " " ++ e.fault.message

end Stencil
