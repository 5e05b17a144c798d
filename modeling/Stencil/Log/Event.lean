import Stencil.Text.Quoted
/-
  What the program tells about its work while it goes on.
-/

namespace Stencil.Log

inductive Level where
  | error
  | warn
  | info
  | debug
  | trace
deriving DecidableEq, Repr

namespace Level

/-- How much has to be asked for before this level is told; 0 asks for nothing. -/
def rank : Level → Nat
  | error => 1
  | warn => 2
  | info => 3
  | debug => 4
  | trace => 5

def name : Level → String
  | error => "error"
  | warn => "warn"
  | info => "info"
  | debug => "debug"
  | trace => "trace"

def all : List Level := [error, warn, info, debug, trace]

end Level

/-- The part of the program that tells something. -/
inductive Source where
  | tokenizer
  | parser
  | renderer
  | config
  | command
deriving DecidableEq, Repr

/-- The name by which a filter speaks of a part. -/
def Source.target : Source → String
  | tokenizer => "stache_core::lexer"
  | parser => "stache_core::parser"
  | renderer => "stache_core::render"
  | config => "stache_cli::config"
  | command => "stache"

/-- A longer piece of work that events can be part of; the parser's, about one template. -/
structure Span where
  name : String
  sourceName : String
deriving DecidableEq, Repr

namespace Span

def source : Source := .parser

def level : Level := .debug

/-- What is known about it, each piece under its name. -/
def fields (s : Span) : List (String × String) := [("source_name", s.sourceName)]

def text (s : Span) : String :=
  s.name ++ "\x7b" ++
    " ".intercalate (s.fields.map fun (name, value) => name ++ "=" ++ value) ++ "\x7d"

end Span

structure Event where
  level : Level
  source : Source
  span : Option Span := none
  message : String
  /-- What is told besides, each piece under its name. -/
  fields : List (String × String) := []
deriving DecidableEq, Repr

namespace Event

/-- The message is a field like the others. -/
def hasField (e : Event) (name : String) : Bool :=
  name == "message" || e.fields.any (·.1 == name)

def text (e : Event) : String :=
  " ".intercalate (e.message :: e.fields.map fun (name, value) => name ++ "=" ++ value)

end Event

end Stencil.Log
