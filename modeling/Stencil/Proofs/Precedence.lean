import Mathlib.Control.Monad.Basic
import Stencil.Proofs.Reading
/-
  Where the model of a rendering comes from. A requested file hides the configured one. By the rule
  that requests count more than the configuration (`preferred?`), a requested format would count for
  either file; it is heard for a requested file alone (`chosen?`). The two agree exactly when no
  format is requested for a configured file that would be read in another one.
-/

namespace Stencil

/-- A file that holds a model, and its format or why that cannot be told. -/
structure ModelSource where
  path : String
  format : Except Failure DataFormat

namespace ModelSource

/-- A file in the format that its extension names. -/
def ofPath (path : String) : ModelSource := ⟨path, DataFormat.ofPath path⟩

/-- The same file in a format that is given, if one is. -/
def inFormat (source : ModelSource) (given : Option DataFormat) : ModelSource :=
  match given with
  | some format => { source with format := .ok format }
  | none => source

/-- The file that a configuration names; its path starts from `root`. -/
def ofConfig (source : DataSource) (root : String) : ModelSource :=
  let path := Location.join root source.path
  match source.formatName with
  | some name => ⟨path, DataFormat.ofName name⟩
  | none => ofPath path

/-- The model in the file. The format is settled before the file is read. -/
def read (source : ModelSource) (files : Files) : Except Failure Value := do
  let format ← source.format
  let text ← files.text source.path
  format.parse text source.path

/-- A given format changes nothing exactly if the file has it already. -/
theorem inFormat_eq_self_iff (source : ModelSource) (given : Option DataFormat) :
    source.inFormat given = source ↔ ∀ format, given = some format → source.format = .ok format := by
  obtain ⟨path, format⟩ := source
  cases given with
  | none => simp [inFormat]
  | some given => simp [inFormat, eq_comm]

end ModelSource

/-- The file that a configuration names, if there is a configuration and it names one. -/
def Config.modelSource? (loaded : Option (Config × String)) : Option ModelSource :=
  loaded.bind fun (config, root) => config.data.map (ModelSource.ofConfig · root)

namespace Command

/-- Where the model is if requests count more than the configuration: each of path and format is
    as requested, or else as configured, and the extension has the last word. -/
def preferred? (request : RenderRequest) (loaded : Option (Config × String)) :
    Option ModelSource :=
  let source? := (request.data.map ModelSource.ofPath).or (Config.modelSource? loaded)
  source?.map (·.inFormat request.format)

/-- Where the model is read from. -/
def chosen? (request : RenderRequest) (loaded : Option (Config × String)) : Option ModelSource :=
  match request.data with
  | some path => some ((ModelSource.ofPath path).inFormat request.format)
  | none => Config.modelSource? loaded

/-- The model of a source; without a source it is null. -/
def modelIn (source? : Option ModelSource) (files : Files) : Except Failure Value :=
  match source? with
  | some source => source.read files
  | none => .ok .null

/-! ## What is read -/

theorem yields_load (given : Option DataFormat) (path : String) :
    (DataFormat.load given path).Yields ((ModelSource.ofPath path).inFormat given).read := by
  have hread : ∀ format : DataFormat, (do
      let text ← Work.readText path
      Work.logAll [{
        level := .debug, source := .config,
        message := "reading data file", fields := [("path", path), ("format", format.logName)] }]
      Work.ofExcept (format.parse text path) : Work Value).Yields fun files =>
        files.text path >>= fun text => format.parse text path :=
    fun format => (yields_readText path).bind fun text =>
      (Work.yields_logAll _).bind fun _ => Work.yields_ofExcept (format.parse text path)
  cases given with
  | some format => exact (Work.yields_pure format).bind hread
  | none => exact (Work.yields_ofExcept (DataFormat.ofPath path)).bind hread

theorem yields_readData (config : Config) (root : String) :
    (config.readData root).Yields fun files =>
      match config.data with
      | none => .ok none
      | some source => some <$> (ModelSource.ofConfig source root).read files := by
  unfold Config.readData
  cases config.data with
  | none => exact Work.yields_pure none
  | some source =>
    obtain ⟨path, formatName⟩ := source
    cases formatName with
    | none =>
      exact (Work.yields_pure (none : Option DataFormat)).bind fun given? =>
        (yields_load given? _).map some
    | some name =>
      refine (((Work.yields_ofExcept (DataFormat.ofName name)).map some).bind fun given? =>
        (yields_load given? _).map some).congr fun files => ?_
      simp only [ModelSource.ofConfig, ModelSource.read]
      cases DataFormat.ofName name <;> rfl

theorem yields_loadModel (request : RenderRequest) (loaded : Option (Config × String)) :
    (loadModel request loaded).Yields (modelIn (chosen? request loaded)) := by
  unfold loadModel chosen?
  cases request.data with
  | some path => exact yields_load request.format path
  | none =>
    cases loaded with
    | none => exact Work.yields_pure Value.null
    | some loaded =>
      obtain ⟨config, root⟩ := loaded
      refine ((yields_readData config root).map (·.getD .null)).congr fun files => ?_
      simp only [Config.modelSource?, Option.bind_some]
      cases config.data with
      | none => rfl
      | some source =>
        simp only [Option.map_some, modelIn]
        cases (ModelSource.ofConfig source root).read files <;> rfl

/-! ## The two rules -/

theorem chosen?_eq_preferred?_iff (request : RenderRequest) (loaded : Option (Config × String)) :
    chosen? request loaded = preferred? request loaded ↔
      (request.data = none → ∀ source, Config.modelSource? loaded = some source →
        ∀ format, request.format = some format → source.format = .ok format) := by
  unfold chosen? preferred?
  cases hdata : request.data with
  | some path => simp
  | none =>
    cases hsource : Config.modelSource? loaded with
    | none => simp
    | some source =>
      have hself := source.inFormat_eq_self_iff request.format
      simp only [Option.map_none, Option.none_or, Option.map_some, Option.some.injEq, forall_const,
        forall_eq']
      rw [eq_comm, hself]

/-- Before a template is read, the model is loaded from the chosen file, whatever the files, the
    configuration and the request are. The choice follows the rule that requests count more than
    the configuration except where a format is requested for a configured file that is in another
    one, or in none that is known. -/
theorem loadModel_chosen (invocation : Invocation) (s : Surroundings) (request : RenderRequest) :
    (do loadModel request (← loadConfig invocation s)).Yields (fun files => do
      modelIn (chosen? request (← configIn invocation s files)) files) ∧
    ∀ loaded, chosen? request loaded = preferred? request loaded ↔
      (request.data = none → ∀ source, Config.modelSource? loaded = some source →
        ∀ format, request.format = some format → source.format = .ok format) :=
  ⟨(yields_loadConfig invocation s).bind (yields_loadModel request),
    chosen?_eq_preferred?_iff request⟩

/-- A configuration that names a file without an extension. -/
def bareSource : Files where
  here := ["w"]
  entries := [(["w", "p"], .file "\x7b\x7b.\x7d\x7d".toUTF8),
    (["w", "stache.toml"], .file "data = \"model\"\n".toUTF8),
    (["w", "model"], .file "\"x\"".toUTF8)]

/-- A request for the configured file, with a format for it. -/
def jsonRequest : RenderRequest := { template := "p", format := some .json }

/-- By the rule the requested format makes the configured file a model. The run does not hear the
    request and has no format for the file. -/
theorem format_unheard :
    parse ["render", "p", "--format", "json"] = .ok { command := some (.render jsonRequest) } ∧
    (do
      let loaded ← configIn { command := some (.render jsonRequest) } { directory := "/w" }
        bareSource
      let model ← modelIn (preferred? jsonRequest loaded) bareSource
      return model.text).toOption = some "x" ∧
    (outcome ["render", "p", "--format", "json"] { directory := "/w" } bareSource).failure =
      some (.unsupportedFormat "") := by
  refine ⟨?_, ?_, ?_⟩
  · decide +kernel
  · decide +kernel
  · decide +kernel

end Command

end Stencil
