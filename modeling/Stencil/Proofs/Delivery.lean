import Mathlib.Control.Monad.Basic
import Stencil.Proofs.Precedence
import Stencil.Proofs.Traces
import Stencil.Proofs.Writing
/-
  A rendering is delivered as a whole or not at all. All work before the delivery only reads
  (`yields_renderText`), and comes to the text or to the failure of its first step that fails
  (`renderedText`). So a run that fails there leaves nothing behind, and one that does not leaves
  exactly the text, printed or as all that its file holds.
-/

namespace Stencil

/-- Work goes on from what reading has come to; only events were added. -/
theorem Work.Yields.run_bind {α β : Type} {w : Work α} {r : Files → Except Failure α}
    (hw : w.Yields r) (f : α → Work β) (desk : Desk) : ∃ events,
    (w >>= f).run desk =
      match r desk.files with
      | .ok a => (f a).run { desk with events := desk.events ++ events }
      | .error e => ({ desk with events := desk.events ++ events }, .error e) := by
  obtain ⟨events, hrun⟩ := hw desk
  refine ⟨events, ?_⟩
  rw [Work.run_bind, hrun]
  cases r desk.files <;> rfl

namespace Command

/-- The text of a rendering, or the failure of the first step that fails: configuration, model,
    text of the template, its reading, its rendering. -/
def renderedText (invocation : Invocation) (s : Surroundings) (request : RenderRequest)
    (files : Files) : Except Failure String := do
  let loaded ← configIn invocation s files
  let model ← modelIn (chosen? request loaded) files
  let text ← files.text request.template
  let template ← (Template.parse text (renderOptions request (loaded.map (·.1)))).mapError
    fun e => .template (.parse e)
  (template.render model).mapError fun e => .template (.render e)

/-- The work of a rendering up to its delivery. -/
def renderText (invocation : Invocation) (s : Surroundings) (request : RenderRequest) :
    Work String := do
  let loaded ← loadConfig invocation s
  let model ← loadModel request loaded
  let text ← Work.readText request.template
  let template ← parseTemplate text (renderOptions request (loaded.map (·.1)))
  renderTemplate template model

theorem yields_parseTemplate (text : String) (options : Options) :
    (parseTemplate text options).Yields fun _ =>
      (Template.parse text options).mapError fun e => .template (.parse e) :=
  (Work.yields_logAll _).bind fun _ => Work.yields_ofExcept _

theorem yields_renderTemplate (template : Template) (model : Value) :
    (renderTemplate template model).Yields fun _ =>
      (template.render model).mapError fun e => .template (.render e) := by
  simp only [renderTemplate, Template.render]
  cases (template.renderOnto model "").error with
  | none => exact (Work.yields_logAll _).bind fun _ => Work.yields_pure _
  | some e => exact (Work.yields_logAll _).bind fun _ => Work.yields_fail _

theorem yields_renderText (invocation : Invocation) (s : Surroundings) (request : RenderRequest) :
    (renderText invocation s request).Yields (renderedText invocation s request) :=
  (yields_loadConfig invocation s).bind fun loaded =>
    (yields_loadModel request loaded).bind fun model =>
      (yields_readText request.template).bind fun text =>
        (yields_parseTemplate text _).bind fun template => yields_renderTemplate template model

theorem run_render {invocation : Invocation} {request : RenderRequest}
    (h : invocation.command = some (.render request)) (s : Surroundings) :
    run invocation s = (do
      let output ← renderText invocation s request
      deliver request.output output
      return 0) := by
  simp only [run, h, runRender, renderText, Work.bind_assoc]

section Deliver

variable {path text : String} (desk : Desk) {after : Files} {fault : FileFault}

theorem run_deliver_none :
    (deliver none text).run desk = ({ desk with printed := desk.printed ++ text }, .ok ()) := rfl

theorem run_deliver_error (h : desk.files.write path text = .error fault) :
    (deliver (some path) text).run desk = (desk, .error (.unwritable fault)) := by
  simp only [deliver, Work.run_bind, Work.writeText, Work.run, h]

/-- What was written is told. -/
theorem run_deliver_ok (h : desk.files.write path text = .ok after) : ∃ events,
    (deliver (some path) text).run desk =
      ({ desk with files := after, events := desk.events ++ events }, .ok ()) := by
  simp only [deliver, Work.run_bind, Work.writeText, Work.run, h]
  exact ⟨_, rfl⟩

end Deliver

/-! ## Runs -/

/-- A rendering is all or nothing. If a step before the delivery fails, the first that does is the
    failure of the run, nothing is printed and all files stay as they are. Otherwise exactly the
    text is printed, or it is all that the file of the request holds from then on and no other
    file changes; a file that cannot be written is the one failure that is left. Without a filter
    for its log, a run does not begin. -/
theorem outcome_render {args : List String} {invocation : Invocation} {request : RenderRequest}
    (hparse : parse args = .ok invocation) (hcommand : invocation.command = some (.render request))
    (s : Surroundings) (files : Files) :
    let o := outcome args s files
    match Log.Filter.choose? invocation.verbose s.filter with
    | none => o = { exitCode := brokenExit, files }
    | some _ =>
      match renderedText invocation s request files with
      | .error failure => o = { exitCode := 2, failure := some failure, log := o.log, files }
      | .ok text =>
        match request.output with
        | none => o = { exitCode := 0, printed := text, log := o.log, files }
        | some path =>
          match files.write path text with
          | .error fault =>
            o = { exitCode := 2, failure := some (.unwritable fault), log := o.log, files }
          | .ok after =>
            o = { exitCode := 0, log := o.log, files := after } ∧
              files.Replaced path text after := by
  dsimp only
  cases hfilter : Log.Filter.choose? invocation.verbose s.filter with
  | none => simp only [outcome, hparse, hfilter]
  | some filter =>
    obtain ⟨events, hrun⟩ := (yields_renderText invocation s request).run_bind
      (fun output => do deliver request.output output; return 0) { files }
    rw [← run_render hcommand s] at hrun
    cases htext : renderedText invocation s request files with
    | error failure =>
      simp only [htext] at hrun
      rw [outcome_of_run_error hparse hfilter hrun]
    | ok text =>
      simp only [htext] at hrun
      cases htarget : request.output with
      | none =>
        rw [Work.run_bind, htarget, run_deliver_none, String.empty_append] at hrun
        rw [outcome_of_run_ok hparse hfilter hrun]
      | some path =>
        dsimp only
        cases hwrite : files.write path text with
        | error fault =>
          rw [Work.run_bind, htarget, run_deliver_error ⟨files, _, _, _⟩ hwrite] at hrun
          rw [outcome_of_run_error hparse hfilter hrun]
        | ok after =>
          obtain ⟨told, hdeliver⟩ :=
            run_deliver_ok ⟨files, "", [], [] ++ events⟩ hwrite
          rw [Work.run_bind, htarget, hdeliver] at hrun
          refine ⟨?_, Files.replaced_of_write hwrite⟩
          rw [outcome_of_run_ok hparse hfilter hrun]

/-- Files of a template that writes something and then breaks off on its model. -/
def breakingOff : Files where
  here := ["w"]
  entries := [(["w", "p"], .file "x\x7b\x7b#each a\x7d\x7d\x7b\x7b/each\x7d\x7d".toUTF8),
    (["w", "m.json"], .file "\x7b\"a\":1\x7d".toUTF8),
    (["w", "o"], .file "old".toUTF8)]

/-- What was written before the failure reaches no file. -/
theorem outcome_render_breakingOff :
    let o := outcome ["render", "p", "--data", "m.json", "--output", "o"] { directory := "/w" }
      breakingOff
    o = {
      exitCode := 2, failure := some (.template (.render (.scalarUsedAsCollection "a" "integer")))
      log := o.log, files := breakingOff } := by
  have hparse : parse ["render", "p", "--data", "m.json", "--output", "o"] =
      .ok { command := some (.render { template := "p", data := "m.json", output := "o" }) } := by
    decide +kernel
  have hfilter : (Log.Filter.choose? false none).isSome := by decide +kernel
  have htext : renderedText
      { command := some (.render { template := "p", data := "m.json", output := "o" }) }
      { directory := "/w" } { template := "p", data := "m.json", output := "o" } breakingOff =
      .error (.template (.render (.scalarUsedAsCollection "a" "integer"))) := by
    decide +kernel
  obtain ⟨filter, hfilter⟩ := Option.isSome_iff_exists.1 hfilter
  have h := outcome_render hparse rfl { directory := "/w" } breakingOff
  simp only [hfilter, htext] at h
  exact h

end Command

end Stencil
