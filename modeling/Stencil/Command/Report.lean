import Stencil.Text.Quoted
import Stencil.Text.Style
import Stencil.Tokenizer
/-
  What commands print about templates.
-/

namespace Stencil.Command

open Text

/-! ## Checking -/

/-- A template that was looked at, and all that is wrong with it. -/
structure Verdict where
  path : String
  errors : List ParseError
deriving DecidableEq, Repr

namespace Verdict

def ofText (path text : String) : Verdict :=
  ⟨path, (tokenize text { sourceName := path }).errors⟩

/-- One line for every error, or one that says there is none. -/
def lines (colours : Bool) (v : Verdict) : List String :=
  match v.errors with
  | [] => [paint colours .green "ok:" ++ " " ++ v.path]
  | errors => errors.map fun e => paint colours .red "error:" ++ " " ++ e.message

def errorCount (vs : List Verdict) : Nat := (vs.flatMap (·.errors)).length

def failedCount (vs : List Verdict) : Nat := vs.countP (!·.errors.isEmpty)

/-- The last line, about all templates. -/
def summary (colours : Bool) (vs : List Verdict) : String :=
  let total := toString vs.length
  if errorCount vs = 0 then "Check passed: " ++ total ++ " template(s) are valid."
  else
    paint colours .bold
      ("Check failed: " ++ toString (errorCount vs) ++ " error(s) in " ++
        toString (failedCount vs) ++ " of " ++ total ++ " template(s).")

end Verdict

/-! ## Tokens -/

/-- The name of a token's kind. -/
def tokenName : Token → String
  | .content _ => "Content"
  | .escaped _ => "EscapedValue"
  | .unescaped _ => "UnescapedValue"
  | .sectionOpen _ => "ElementOpen"
  | .sectionClose _ => "ElementClose"
  | .invertedOpen _ => "InvertedOpen"
  | .eachOpen _ => "CollectionOpen"
  | .eachClose _ => "CollectionClose"
  | .custom _ _ => "Custom"

/-- A token with its number, which is right-aligned in four columns. -/
def tokenLine (index : Nat) (t : Token) : String :=
  let number := toString index
  "".pushn ' ' (4 - number.length) ++ number ++ "  " ++ tokenName t ++ "(" ++
    Quoted.shown t.value ++ ")"

def tokenLines (tokens : List Token) : List String :=
  tokens.zipIdx.map fun (t, index) => tokenLine index t

end Stencil.Command
