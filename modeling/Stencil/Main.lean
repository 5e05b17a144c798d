import Stencil.Command.Run
/-
  The program on a machine: work is carried out on the files of the system, and what is printed,
  complained of and logged goes to the standard streams.
-/

namespace Stencil

def FileFault.ofSystem : IO.Error → FileFault
  | .noFileOrDirectory .. => .notFound
  | .inappropriateType _ 21 _ => .isDirectory
  | .inappropriateType .. => .notDirectory
  | e => .other (toString e)

/-- The result of something that the system may refuse. -/
def attempt {α : Type} (act : IO α) : IO (Except FileFault α) := do
  match ← act.toBaseIO with
  | .ok a => return .ok a
  | .error e => return .error (.ofSystem e)

namespace Work

/-- Carries work out; the filter says which events are told. -/
def perform {α : Type} (filter : Log.Filter) : Work α → IO (Except Failure α)
  | done a => return .ok a
  | fail e => return .error e
  | log event next => do
    if let some line := filter.line? event then IO.eprintln line
    next.perform filter
  | print text next => do
    IO.print text
    next.perform filter
  | complain line next => do
    IO.eprintln line
    next.perform filter
  | read path next => do
    let content ← attempt (IO.FS.readBinFile path)
    (next (content.bind Files.decode)).perform filter
  | probe path next => do
    let content ← attempt (IO.FS.readBinFile path)
    (next content.isOk).perform filter
  | write path text next => do
    match ← attempt (IO.FS.writeFile path text) with
    | .ok _ => (next none).perform filter
    | .error fault => (next (some fault)).perform filter

end Work

namespace Command

/-- What is said about a command line that is not carried out. -/
def Stop.text : Stop → String
  | missingArgument => "error: a required argument is missing"
  | unknownArgument => "error: an argument is not known here"
  | invalidValue => "error: an argument has no value or one that cannot be meant"
  | unknownCommand => "error: there is no such command"
  | repeatedArgument => "error: an argument is given twice"
  | unexpectedValue => "error: an argument takes no value"
  | helpWanted =>
    "Usage: stache [--config FILE] [--verbose] [--no-color] COMMAND\n\n" ++
      "  render TEMPLATE [--data FILE] [--format FORMAT] [--output FILE]\n" ++
      "         [--source-name NAME] [--disable-content-safety]\n" ++
      "  check TEMPLATES\n" ++
      "  infer TEMPLATE [--format text|json]\n" ++
      "  tokens TEMPLATE"
  | versionWanted => "stache 0.3.0"

/-- A failure with its code and the help there is. -/
def report (failure : Failure) : String :=
  let help := match failure.help? with
    | some help => "\n  help: " ++ help
    | none => ""
  failure.code ++ "\n\n  " ++ failure.message ++ help

end Command

end Stencil

open Stencil in
def main (args : List String) : IO UInt32 := do
  match Command.parse args with
  | .error stop =>
    if stop.exitCode = 0 then IO.println stop.text else IO.eprintln stop.text
    return UInt32.ofNat stop.exitCode
  | .ok invocation =>
    let surroundings : Command.Surroundings :=
      { directory := toString (← IO.currentDir)
        noColor := (← IO.getEnv "NO_COLOR").isSome
        filter := ← IO.getEnv "RUST_LOG" }
    match Log.Filter.choose? invocation.verbose surroundings.filter with
    | none =>
      IO.eprintln "error: the filter in RUST_LOG splits a character"
      return UInt32.ofNat Command.brokenExit
    | some filter =>
      match ← (Command.run invocation surroundings).perform filter with
      | .ok code => return UInt32.ofNat code
      | .error failure =>
        IO.eprintln (Command.report failure)
        return 2
