import Stencil.Expander
/-
  The tokens of a template: its text, and what its tags say.
-/

namespace Stencil

inductive Token where
  | content (text : String)
  /-- A value, escaped: `{{path}}`. -/
  | escaped (path : String)
  /-- A value as it is: `{{{path}}}` or `{{&path}}`. -/
  | unescaped (path : String)
  /-- `{{#path}}` -/
  | sectionOpen (path : String)
  /-- `{{^path}}` -/
  | invertedOpen (path : String)
  /-- `{{/path}}`; also stands before a section that is opened again inside itself. -/
  | sectionClose (path : String)
  /-- `{{#each path}}` -/
  | eachOpen (path : String)
  /-- `{{/each}}`, with the path of the block that it closes. -/
  | eachClose (path : String)
  /-- A tag that an expander has claimed. -/
  | custom (path : String) (expander : Expander)

namespace Token

/-- The path of a tag, or the text. -/
def value : Token → String
  | .content text => text
  | .escaped path | .unescaped path | .sectionOpen path | .invertedOpen path
  | .sectionClose path | .eachOpen path | .eachClose path | .custom path _ => path

/-- Whether the token ends a block. -/
def isClose : Token → Bool
  | .sectionClose _ | .eachClose _ => true
  | _ => false

/-- The token as a tag. -/
def display : Token → String
  | .content text => text
  | .escaped path => "\x7b\x7b" ++ path ++ "\x7d\x7d"
  | .unescaped path => "\x7b\x7b\x7b" ++ path ++ "\x7d\x7d\x7d"
  | .sectionOpen path => "\x7b\x7b#" ++ path ++ "\x7d\x7d"
  | .invertedOpen path => "\x7b\x7b^" ++ path ++ "\x7d\x7d"
  | .sectionClose path => "\x7b\x7b/" ++ path ++ "\x7d\x7d"
  | .eachOpen path => "\x7b\x7b#each " ++ path ++ "\x7d\x7d"
  | .eachClose _ => "\x7b\x7b/each\x7d\x7d"
  | .custom path expander => "\x7b\x7b" ++ path ++ "\x7d\x7d (" ++ expander.name ++ ")"

/-- Equality of tokens; custom ones need the same expander. -/
def same : Token → Token → Bool
  | .content a, .content b | .escaped a, .escaped b | .unescaped a, .unescaped b
  | .sectionOpen a, .sectionOpen b | .invertedOpen a, .invertedOpen b
  | .sectionClose a, .sectionClose b | .eachOpen a, .eachOpen b
  | .eachClose a, .eachClose b => a == b
  | .custom a e, .custom b f => a == b && e.id == f.id
  | _, _ => false

end Token

end Stencil
