import Stencil.Command.Arguments
import Stencil.Command.Report
import Stencil.Config
import Stencil.Log.Filter
import Stencil.Log.Template
/-
  Carrying out commands. A failure ends a command with exit code 2, and templates with errors
  that were only looked at end it with 1.
-/

namespace Stencil.Command

/-- What a command finds around it. -/
structure Surroundings where
  /-- The directory where a configuration is looked for. -/
  directory : String
  /-- Whether colours are unwanted here. -/
  noColor : Bool := false
  /-- Which events are told unless the invocation says. -/
  filter : Option String := none
deriving DecidableEq, Repr

/-- The configuration, and the directory that its paths start from. -/
def loadConfig (invocation : Invocation) (s : Surroundings) : Work (Option (Config × String)) :=
  match invocation.config with
  | some path => do return some (← Config.read path, Location.parent path)
  | none => do return (← Config.discover s.directory).map (·, s.directory)

/-! ## Rendering -/

/-- The options of a rendering: what is requested counts more than the configuration. -/
def renderOptions (request : RenderRequest) (config : Option Config) : Options :=
  { sourceName :=
      (request.sourceName.or (config.bind (·.sourceName))).getD request.template
    contentSafety := !request.unsafeContent && config.all (·.contentSafety) }

/-- The model of a rendering. The requested format is for the requested file alone. -/
def loadModel (request : RenderRequest) (loaded : Option (Config × String)) : Work Value :=
  match request.data, loaded with
  | some path, _ => DataFormat.load request.format path
  | none, some (config, root) => do return (← config.readData root).getD .null
  | none, none => return .null

def parseTemplate (text : String) (options : Options) : Work Template := do
  Work.logAll (Log.ofTokenizing text options (some "parse"))
  Work.ofExcept ((Template.parse text options).mapError fun e => .template (.parse e))

/-- The output as a whole; nothing is left of one that breaks off. -/
def renderTemplate (template : Template) (model : Value) : Work String := do
  let r := template.renderOnto model ""
  Work.logAll (Log.ofRendering r)
  match r.error with
  | some e => .fail (.template (.render e))
  | none => return r.output

def deliver (target : Option String) (output : String) : Work Unit := do
  match target with
  | none => .print output (.done ())
  | some path =>
    Work.writeText path output
    Work.logAll [{
      level := .info, source := .command,
      message := "wrote output"
      fields := [("path", path), ("bytes", toString output.utf8ByteSize)] }]

def runRender (request : RenderRequest) (loaded : Option (Config × String)) : Work Nat := do
  let model ← loadModel request loaded
  let text ← Work.readText request.template
  let template ← parseTemplate text (renderOptions request (loaded.map (·.1)))
  let output ← renderTemplate template model
  deliver request.output output
  return 0

/-! ## Looking at templates -/

/-- Reads and checks one template, and prints what is wrong with it. -/
def checkOne (colours : Bool) (path : String) : Work Verdict := do
  let text ← Work.readText path
  Work.logAll (Log.ofTokenizing text { sourceName := path } none)
  let verdict := Verdict.ofText path text
  (verdict.lines colours).forM Work.printLine
  return verdict

def runCheck (colours : Bool) (templates : List String) : Work Nat := do
  let verdicts ← templates.mapM (checkOne colours)
  Work.printLine ""
  Work.printLine (Verdict.summary colours verdicts)
  return if Verdict.errorCount verdicts = 0 then 0 else 1

/-- What is printed for the shape of a model. -/
def shapeText (format : ShapeFormat) (shape : Shape) : String :=
  match format with
  | .json => shape.prettyJson ++ "\n"
  | .outline =>
    if shape.isEmpty then "The template does not use any model values.\n" else shape.outline

def runInfer (template : String) (format : ShapeFormat) (config : Option Config) : Work Nat := do
  let options : Options := { sourceName := (config.bind (·.sourceName)).getD template }
  let text ← Work.readText template
  Work.logAll (Log.ofTokenizing text options (some "parse_with_model_inference"))
  let (_, shape) ← Work.ofExcept
    ((Template.parseWithShape text options).mapError fun e => .template (.parse e))
  .print (shapeText format shape) (.done 0)

def runTokens (colours : Bool) (template : String) : Work Nat := do
  let text ← Work.readText template
  let options : Options := { sourceName := template }
  Work.logAll (Log.ofTokenizing text options none)
  let r := tokenize text options
  (tokenLines r.tokens).forM Work.printLine
  r.errors.forM fun e => .complain (Text.paint colours .red "error:" ++ " " ++ e.message) (.done ())
  return if r.isOk then 0 else 1

/-! ## The whole program -/

/-- The exit code of an invocation, and the work that leads there. -/
def run (invocation : Invocation) (s : Surroundings) : Work Nat := do
  let colours := !invocation.noColor && !s.noColor
  match invocation.command with
  | none =>
    .complain "No subcommand specified. Run `stache --help` for usage." (.done 2)
  | some (.render request) => runRender request (← loadConfig invocation s)
  | some (.check templates) => runCheck colours templates
  | some (.infer template format) =>
    runInfer template format ((← loadConfig invocation s).map (·.1))
  | some (.tokens template) => runTokens colours template

/-- The exit code of a run that breaks off before it begins, for want of a filter. -/
def brokenExit : Nat := 101

/-- What a run of the program leaves behind. -/
structure Outcome where
  exitCode : Nat
  printed : String := ""
  /-- Lines where errors go; the log and the failure are not among them. -/
  complaints : List String := []
  log : List String := []
  failure : Option Failure := none
  files : Files

/-- Runs the program with some arguments on files in memory. -/
def outcome (args : List String) (s : Surroundings) (files : Files) : Outcome :=
  match parse args with
  | .error stop => { exitCode := stop.exitCode, files }
  | .ok invocation =>
    match Log.Filter.choose? invocation.verbose s.filter with
    | none => { exitCode := brokenExit, files }
    | some filter =>
      let (desk, result) := (run invocation s).run { files }
      let left : Outcome :=
        { exitCode := 2, printed := desk.printed, complaints := desk.complaints
          log := desk.events.filterMap filter.line?, files := desk.files }
      match result with
      | .ok code => { left with exitCode := code }
      | .error failure => { left with failure := some failure }

end Stencil.Command
