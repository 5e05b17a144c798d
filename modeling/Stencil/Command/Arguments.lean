import Stencil.Command.Parameter
/-
  From the arguments of a command line to what they ask for. Arguments are read from the left. A
  value that stands apart from its parameter is looked at only when the next parameter begins, so
  a later argument that nobody knows is the first fault to be found.
-/

namespace Stencil.Command

/-- Why a command line is not carried out. -/
inductive Stop where
  | missingArgument
  | unknownArgument
  | invalidValue
  | unknownCommand
  | repeatedArgument
  | unexpectedValue
  | helpWanted
  | versionWanted
deriving DecidableEq, Repr

/-- Asking for help or for the version is no mistake. -/
def Stop.exitCode : Stop → Nat
  | helpWanted | versionWanted => 0
  | _ => 2

/-- What has been read at one level. -/
structure Reading where
  given : List (Parameter × List String) := []
  /-- A parameter that may still get values; without any, it waits for one. -/
  pending : Option (Parameter × List String) := none
deriving DecidableEq, Repr

namespace Reading

/-! ## One parameter -/

/-- Notes a parameter with its values. -/
def add (r : Reading) (p : Parameter) (values : List String) : Except Stop Reading :=
  if p.takesValue && values.isEmpty then .error .invalidValue
  else if p = .help then .error .helpWanted
  else if p = .version then .error .versionWanted
  else if !p.repeats && r.given.any (·.1 = p) then .error .repeatedArgument
  else if values.all p.accepts then .ok { r with given := r.given ++ [(p, values)] }
  else .error .invalidValue

/-- Looks at what is pending. -/
def settle (r : Reading) : Except Stop Reading :=
  match r.pending with
  | none => .ok r
  | some (p, values) => Reading.add { r with pending := none } p values

/-- Notes a parameter after what is pending. -/
def settleAdd (r : Reading) (p : Parameter) (values : List String) : Except Stop Reading := do
  (← r.settle).add p values

/-- Makes a parameter the one that is pending. -/
def settleAwait (r : Reading) (p : Parameter) (values : List String) : Except Stop Reading := do
  return { ← r.settle with pending := some (p, values) }

/-- Whether the next argument is the value of the last one. -/
def awaits? (r : Reading) : Option Parameter :=
  match r.pending with
  | some (p, []) => some p
  | _ => none

/-! ## One argument -/

/-- An argument after two dashes, with the value after its equals sign. -/
def long (level : Level) (r : Reading) (name : String) (value : Option String) :
    Except Stop Reading :=
  match level.parameters.find? (·.long? = some name) with
  | none => .error .unknownArgument
  | some p =>
    match p.takesValue, value with
    | true, some v => r.settleAdd p [v]
    | true, none => r.settleAwait p []
    | false, some _ => .error .unexpectedValue
    | false, none => r.settleAdd p []

/-- The letters after one dash. One that takes a value takes what is left as its value, with or
    without an equals sign. -/
def short (level : Level) (r : Reading) : List Char → Except Stop Reading
  | [] => .ok r
  | c :: rest =>
    match level.parameters.find? (·.short? = some c) with
    | none => .error .unknownArgument
    | some p =>
      if p.takesValue then
        match rest with
        | [] => r.settleAwait p []
        | '=' :: value => r.settleAdd p [String.ofList value]
        | value => r.settleAdd p [String.ofList value]
      else do short level (← r.settleAdd p []) rest

/-- An argument that is told by its position. -/
def positional (level : Level) (r : Reading) (value : String) : Except Stop Reading :=
  match level.positional? with
  | none => .error .unknownCommand
  | some p =>
    match r.pending with
    | some (q, values) =>
      if q = p then
        if p.repeats then .ok { r with pending := some (p, values ++ [value]) }
        else .error .unknownArgument
      else if !p.repeats && r.given.any (·.1 = p) then .error .unknownArgument
      else r.settleAwait p [value]
    | none =>
      if !p.repeats && r.given.any (·.1 = p) then .error .unknownArgument
      else r.settleAwait p [value]

/-- An argument that is no more than what it says. -/
def plain (level : Level) (r : Reading) (value : String) : Except Stop Reading :=
  match r.awaits? with
  | some p => .ok { r with pending := some (p, [value]) }
  | none => r.positional level value

/-- An argument before any pair of dashes that stands alone. -/
def argument (level : Level) (r : Reading) (arg : String) : Except Stop Reading :=
  match arg.toList with
  | '-' :: '-' :: cs =>
    let name := String.ofList (cs.takeWhile (· ≠ '='))
    match cs.dropWhile (· ≠ '=') with
    | [] => r.long level name none
    | _ :: value => r.long level name (some (String.ofList value))
  | '-' :: c :: cs => r.short level (c :: cs)
  | _ => r.plain level arg

/-- Arguments after a pair of dashes that stands alone. Above the commands there is nothing that
    could stand there, and a command's name is told apart from other words. -/
def rest (level : Level) : Reading → List String → Except Stop Reading
  | r, [] => .ok r
  | r, arg :: args =>
    if level = .top && (arg = "help" || (Level.ofName? arg).isSome) then .error .unknownArgument
    else do rest level (← r.positional level arg) args

/-- All arguments of a command. -/
def arguments (level : Level) : Reading → List String → Except Stop Reading
  | r, [] => .ok r
  | r, "--" :: args => r.rest level args
  | r, arg :: args => do arguments level (← r.argument level arg) args

/-! ## What was given -/

def has (r : Reading) (p : Parameter) : Bool := r.given.any (·.1 = p)

def values (r : Reading) (p : Parameter) : List String :=
  (r.given.filter (·.1 = p)).flatMap (·.2)

def value? (r : Reading) (p : Parameter) : Option String := (r.values p).head?

end Reading

/-! ## The whole line -/

/-- Asking for help on a command, which has to exist. -/
def helpOn : List String → Stop
  | [] => .helpWanted
  | [name] => if name = "help" || (Level.ofName? name).isSome then .helpWanted else .unknownCommand
  | _ => .unknownCommand

/-- What is read up to the first name of a command, which command it is, and its arguments. -/
def top : Reading → List String → Except Stop (Reading × Option (Level × List String))
  | r, [] => .ok (r, none)
  | r, "--" :: args => do return (← r.rest .top args, none)
  | r, arg :: args =>
    match r.awaits?, Level.ofName? arg with
    | none, some level => .ok (r, some (level, args))
    | none, none =>
      if arg = "help" then .error (helpOn args) else do top (← r.argument .top arg) args
    | some _, _ => do top (← r.argument .top arg) args

/-- The command that a level's arguments make. -/
def ofReading (level : Level) (r : Reading) : Except Stop (Option Command) :=
  let withTemplate (f : String → Command) : Except Stop (Option Command) :=
    match r.value? .template with
    | none => .error .missingArgument
    | some template => .ok (some (f template))
  match level with
  | .top => .ok none
  | .render => withTemplate fun template =>
    .render {
      template
      data := r.value? .data
      format := (r.value? .dataFormat).bind dataFormat?
      output := r.value? .output
      sourceName := r.value? .sourceName
      unsafeContent := r.has .unsafeContent }
  | .check =>
    match r.values .templates with
    | [] => .error .missingArgument
    | templates => .ok (some (.check templates))
  | .infer => withTemplate fun template =>
    .infer template (((r.value? .shapeFormat).bind shapeFormat?).getD .outline)
  | .tokens => withTemplate .tokens

/-- What the arguments ask for. What may stand on either side of the command's name counts from
    both; the configuration is the one given last. -/
def parse (args : List String) : Except Stop Invocation := do
  let (above, next) ← top {} args
  let (command, below) ← match next with
    | none => pure (none, ({} : Reading))
    | some (level, args) => do
      let below ← (← Reading.arguments level {} args).settle
      pure (← ofReading level below, below)
  let above ← above.settle
  return {
    command
    config := (below.value? .config).or (above.value? .config)
    verbose := above.has .verbose || below.has .verbose
    noColor := above.has .noColor || below.has .noColor }

end Stencil.Command
