/-
  Text in colour, for terminals.
-/

namespace Stencil.Text

inductive Style where
  | red
  | green
  | bold
deriving DecidableEq, Repr

/-- Turns a style on. -/
def Style.start : Style → String
  | red => "\x1b[31m"
  | green => "\x1b[32m"
  | bold => "\x1b[1m"

/-- Turns a style off. -/
def Style.stop : Style → String
  | red | green => "\x1b[39m"
  | bold => "\x1b[0m"

def paint (colours : Bool) (style : Style) (text : String) : String :=
  if colours then style.start ++ text ++ style.stop else text

end Stencil.Text
