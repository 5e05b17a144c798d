/-
  Escaping for HTML: the five characters that mean something there are written as entities.
-/

namespace Stencil.Html

/-- What is written for a character. -/
def entity : Char → List Char
  | '&' => ['&', 'a', 'm', 'p', ';']
  | '<' => ['&', 'l', 't', ';']
  | '>' => ['&', 'g', 't', ';']
  | '"' => ['&', 'q', 'u', 'o', 't', ';']
  | '\'' => ['&', '#', '3', '9', ';']
  | c => [c]

def escapeChars (cs : List Char) : List Char := cs.flatMap entity

def escape (text : String) : String := String.ofList (escapeChars text.toList)

theorem escapeChars_append (cs ds : List Char) :
    escapeChars (cs ++ ds) = escapeChars cs ++ escapeChars ds := List.flatMap_append

end Stencil.Html
