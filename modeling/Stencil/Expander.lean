import Stencil.Error
import Stencil.Value.Basic
/-
  Custom tags. An expander says which tags are its own and what such a tag does when it is
  rendered; the doing is a value (`Inspection`), so that any renderer can carry it out.
-/

namespace Stencil

/-- The options that a template carries to its rendering. -/
structure Settings where
  /-- A label for the template in error messages. -/
  sourceName : String := ""
  /-- Whether value tags escape the characters that mean something in HTML. -/
  contentSafety : Bool := true
deriving DecidableEq, Repr

/-- When an expander is asked about a tag: before the built-in tags, after those with a sigil, or
    after all others that stand before plain values. -/
inductive Precedence where
  | high
  | medium
  | low
deriving DecidableEq, Repr

/-- What a custom tag does with the context it stands in. Contexts are numbered in the order in
    which they are obtained, and 0 is the tag's own; a number that is not yet given means 0. -/
inductive Inspection where
  | finish
  | fail (error : Error)
  /-- Appends to the output. -/
  | write (text : String) (next : Inspection)
  /-- Looks at all that has been written so far, before this tag too. -/
  | output (next : String → Inspection)
  /-- Puts another text in place of all that has been written so far. -/
  | replace (text : String) (next : Inspection)
  /-- Obtains the context that a path leads to. -/
  | resolve (slot : Nat) (path : String) (next : Inspection)
  /-- Obtains the parent, and says whether there is one; the root's parent is the root. -/
  | parent (slot : Nat) (next : Bool → Inspection)
  /-- Looks at the key and at the value, if there is one. -/
  | look (slot : Nat) (next : String → Option Value → Inspection)

instance : Inhabited Inspection := ⟨.finish⟩

structure Expander where
  /-- Two expanders are the same one if their numbers are equal. -/
  id : Nat
  name : String
  precedence : Precedence := .medium
  /-- The path of a tag, given with its braces; none if the tag is not one of its own. -/
  expand : String → Option String
  /-- What a tag with this path does. -/
  render : String → Settings → Inspection

/-- The options that a template is read with. -/
structure Options extends Settings where
  /-- Asked in this order within each precedence. -/
  expanders : List Expander := []

namespace Options

/-- The first expander of a precedence that claims the tag, with the path it reads. -/
def claim? (options : Options) (precedence : Precedence) (tag : String) :
    Option (String × Expander) :=
  (options.expanders.filter (·.precedence = precedence)).findSome?
    fun e => (e.expand tag).map (·, e)

end Options

end Stencil
