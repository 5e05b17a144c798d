import Stencil.Proofs.Dispatch
import Stencil.Proofs.Traces
/-
  Checking templates agrees with reading them. One template is checked by its own text alone
  (`comes_checkOne`), and a list of them one after the other up to the first that cannot be read
  (`comes_mapM_checkOne`). What is counted about all of them are the error lines and the templates
  that would not be accepted, so the exit code says whether all would be.
-/

namespace Stencil

/-! ## One template after the other -/

/-- A template file and the text in it. -/
structure TextFile where
  path : String
  text : String

namespace TextFile

/-- The file can be read, and this is its text. -/
def In (q : TextFile) (files : Files) : Prop := files.readText q.path = .ok q.text

/-- The texts of files are told by their paths. -/
theorem eq_of_paths {files : Files} {qs rs : List TextFile} (hqs : ∀ q ∈ qs, q.In files)
    (hrs : ∀ r ∈ rs, r.In files) (h : qs.map (·.path) = rs.map (·.path)) : qs = rs := by
  induction qs generalizing rs with
  | nil => exact (List.map_eq_nil_iff.1 h.symm).symm
  | cons q qs ih =>
    obtain ⟨r, rs, rfl, hpath, hpaths⟩ := List.map_eq_cons_iff.1 h.symm
    have hq : files.readText q.path = .ok q.text := hqs q List.mem_cons_self
    have hr : files.readText r.path = .ok r.text := hrs r List.mem_cons_self
    have hsame : q = r := by
      cases q
      cases r
      obtain rfl := hpath
      obtain rfl := Except.ok.inj (hr.symm.trans hq)
      rfl
    rw [hsame, ih (fun s hs => hqs s (List.mem_cons_of_mem q hs))
      (fun s hs => hrs s (List.mem_cons_of_mem r hs)) hpaths.symm]

/-- What is told while the template is looked at. -/
def events (q : TextFile) : List Log.Event :=
  Log.ofTokenizing q.text { sourceName := q.path } none

def verdict (q : TextFile) : Command.Verdict := .ofText q.path q.text

end TextFile

namespace Command

variable (colours : Bool) {desk : Desk}

theorem comes_checkOne {q : TextFile} (h : q.In desk.files) :
    (checkOne colours q.path).Comes desk [q.path]
      (desk.add (q.verdict.lines colours) q.events) (.ok q.verdict) := by
  have hdesk : (desk.add [] q.events).add (q.verdict.lines colours) [] =
      desk.add (q.verdict.lines colours) q.events := by
    rw [Desk.add_add, List.nil_append, List.append_nil]
  rw [← hdesk]
  exact (Work.comes_readText h).bind ((Work.comes_logAll q.events desk).bind
    ((Work.comes_printLines (q.verdict.lines colours) _).bind (Work.comes_pure q.verdict _)))

theorem comes_checkOne_error {path : String} {fault : FileFault}
    (h : desk.files.readText path = .error fault) :
    (checkOne colours path).Comes desk [path] desk (.error (.unreadable path fault)) :=
  (Work.comes_readText_error h).bind_error

/-- Templates that can be read are checked one after the other, and then the others. -/
theorem comes_mapM_checkOne {qs : List TextFile} (h : ∀ q ∈ qs, q.In desk.files)
    (rest : List String) {paths : List String} {after : Desk} {result : Except Failure (List Verdict)}
    (hrest : (rest.mapM (checkOne colours)).Comes
      (desk.add (qs.flatMap (·.verdict.lines colours)) (qs.flatMap (·.events))) paths after
      result) :
    ((qs.map (·.path) ++ rest).mapM (checkOne colours)).Comes desk (qs.map (·.path) ++ paths) after
      (result.map (qs.map (·.verdict) ++ ·)) := by
  induction qs generalizing desk with
  | nil =>
    rw [List.flatMap_nil, List.flatMap_nil, Desk.add_nil] at hrest
    cases result with
    | error e => exact hrest
    | ok verdicts => exact hrest
  | cons q qs ih =>
    have hone : q.In desk.files := h q List.mem_cons_self
    have hothers : ∀ r ∈ qs, r.In (desk.add (q.verdict.lines colours) q.events).files :=
      fun r hr => h r (List.mem_cons_of_mem q hr)
    rw [List.flatMap_cons, List.flatMap_cons, ← Desk.add_add] at hrest
    have hloop := ih hothers hrest
    rw [List.map_cons, List.cons_append, List.mapM_cons]
    cases result with
    | error e => exact (comes_checkOne colours hone).bind hloop.bind_error
    | ok verdicts => exact (comes_checkOne colours hone).bind (hloop.map (q.verdict :: ·))

/-- A template that cannot be read is where the checking ends. -/
theorem comes_mapM_checkOne_error {bad : String} {fault : FileFault}
    (h : desk.files.readText bad = .error fault) (later : List String) :
    ((bad :: later).mapM (checkOne colours)).Comes desk [bad] desk
      (.error (.unreadable bad fault)) := by
  rw [List.mapM_cons]
  exact (comes_checkOne_error colours h).bind_error

/-! ## What checking says -/

/-- A line about a template: that it is accepted, or one of its errors. -/
inductive Line where
  | ok (path : String)
  | error (e : ParseError)

namespace Line

def text (colours : Bool) : Line → String
  | ok path => Text.paint colours .green "ok:" ++ " " ++ path
  | error e => Text.paint colours .red "error:" ++ " " ++ e.message

def isError : Line → Bool
  | ok _ => false
  | error _ => true

end Line

end Command

namespace TextFile

/-- Whether the template is accepted, read under some name. -/
def accepted (name : String) (q : TextFile) : Bool :=
  (Template.parse q.text { sourceName := name }).isOk

/-- The errors of the template, read under its path. -/
def errors (q : TextFile) : List ParseError := (tokenize q.text { sourceName := q.path }).errors

/-- One line if the template is accepted, and otherwise one for each of its errors. -/
def lines (name : String) (q : TextFile) : List Command.Line :=
  if q.accepted name then [.ok q.path] else q.errors.map .error

/-- What a template is accepted by does not hang on the name that it is read under. -/
theorem accepted_iff (name : String) (q : TextFile) : q.accepted name = true ↔ q.errors = [] := by
  have hclaim : ∀ t, Tokenizer.claim? { sourceName := name } t =
      Tokenizer.claim? { sourceName := q.path } t := fun _ => rfl
  have hrun : tokenizerRun q.text { sourceName := name } =
      tokenizerRun q.text { sourceName := q.path } := Tokenizer.run_congr hclaim 0 [] _
  have hsame : (tokenize q.text { sourceName := name }).errors = [] ↔ q.errors = [] := by
    rw [errors, errors_eq_nil_iff, errors_eq_nil_iff, hrun]
  rw [← hsame]
  constructor
  · intro h
    unfold accepted at h
    cases hparse : Template.parse q.text { sourceName := name } with
    | error e =>
      rw [hparse] at h
      exact absurd h Bool.false_ne_true
    | ok t => exact (Template.parse_eq_ok_iff.1 hparse).1
  · intro h
    rw [accepted, Template.parse_eq_ok_iff.2 ⟨h, rfl⟩]
    rfl

theorem lines_of_errors_nil {name : String} {q : TextFile} (h : q.errors = []) :
    q.lines name = [.ok q.path] := if_pos ((accepted_iff name q).2 h)

theorem lines_of_errors_ne_nil {name : String} {q : TextFile} (h : q.errors ≠ []) :
    q.lines name = q.errors.map .error := if_neg fun hok => h ((accepted_iff name q).1 hok)

theorem lines_verdict (colours : Bool) (name : String) (q : TextFile) :
    q.verdict.lines colours = (q.lines name).map (Command.Line.text colours) := by
  show Command.Verdict.lines colours ⟨q.path, q.errors⟩ = _
  cases herrors : q.errors with
  | nil =>
    rw [lines_of_errors_nil herrors]
    rfl
  | cons e es =>
    rw [lines_of_errors_ne_nil (by rw [herrors]; exact List.cons_ne_nil e es), herrors,
      List.map_map]
    rfl

theorem countP_lines (name : String) (q : TextFile) :
    (q.lines name).countP Command.Line.isError = q.errors.length := by
  by_cases herrors : q.errors = []
  · rw [lines_of_errors_nil herrors, herrors]
    rfl
  · have hall : ∀ e ∈ q.errors, (Command.Line.isError ∘ Command.Line.error) e = true :=
      fun _ _ => rfl
    rw [lines_of_errors_ne_nil herrors, List.countP_map, List.countP_eq_length.2 hall]

end TextFile

namespace Command

/-- The lines about some templates, each read under its name. -/
def reportLines (names : TextFile → String) (qs : List TextFile) : List Line :=
  qs.flatMap fun q => q.lines (names q)

/-- The line about all templates together. -/
def summaryLine (colours : Bool) (names : TextFile → String) (qs : List TextFile) : String :=
  if qs.all fun q => q.accepted (names q) then
    "Check passed: " ++ toString qs.length ++ " template(s) are valid."
  else
    Text.paint colours .bold ("Check failed: " ++
      toString ((reportLines names qs).countP Line.isError) ++ " error(s) in " ++
      toString (qs.countP fun q => !q.accepted (names q)) ++ " of " ++ toString qs.length ++
      " template(s).")

section Counts

variable (names : TextFile → String) (qs : List TextFile)

theorem errorCount_verdicts :
    Verdict.errorCount (qs.map (·.verdict)) = (reportLines names qs).countP Line.isError := by
  induction qs with
  | nil => rfl
  | cons q qs ih =>
    have hcons : Verdict.errorCount ((q :: qs).map (·.verdict)) =
        q.errors.length + Verdict.errorCount (qs.map (·.verdict)) := List.length_append
    have hlines : reportLines names (q :: qs) = q.lines (names q) ++ reportLines names qs :=
      List.flatMap_cons
    rw [hcons, ih, hlines, List.countP_append, TextFile.countP_lines]

theorem failedCount_verdicts :
    Verdict.failedCount (qs.map (·.verdict)) = qs.countP fun q => !q.accepted (names q) := by
  rw [Verdict.failedCount, List.countP_map]
  refine List.countP_congr fun q _ => ?_
  show (!q.errors.isEmpty) = true ↔ (!q.accepted (names q)) = true
  rw [Bool.not_eq_true', Bool.not_eq_true', ← Bool.not_eq_true, ← Bool.not_eq_true,
    List.isEmpty_iff, TextFile.accepted_iff]

/-- There are no errors exactly if all templates are accepted. -/
theorem errorCount_eq_zero_iff :
    Verdict.errorCount (qs.map (·.verdict)) = 0 ↔
      (qs.all fun q => q.accepted (names q)) = true := by
  have hnil : Verdict.errorCount (qs.map (·.verdict)) = 0 ↔ ∀ q ∈ qs, q.errors = [] := by
    rw [Verdict.errorCount, List.length_eq_zero_iff, List.flatMap_eq_nil_iff, List.forall_mem_map]
    rfl
  rw [hnil, List.all_eq_true]
  exact forall₂_congr fun q _ => (TextFile.accepted_iff (names q) q).symm

theorem summary_verdicts (colours : Bool) :
    Verdict.summary colours (qs.map (·.verdict)) = summaryLine colours names qs := by
  unfold Verdict.summary summaryLine
  simp only [errorCount_eq_zero_iff names, failedCount_verdicts names, List.length_map]
  rw [errorCount_verdicts names]

end Counts

/-! ## Runs -/

section Runs

variable (colours : Bool) (names : TextFile → String) {qs : List TextFile} {desk : Desk}

theorem lines_verdicts (qs : List TextFile) :
    (qs.flatMap fun q => q.verdict.lines colours) =
      (reportLines names qs).map (Line.text colours) := by
  rw [reportLines, List.map_flatMap]
  exact List.flatMap_congr fun q _ => q.lines_verdict colours (names q)

/-- The last lines, about all templates, and the exit code. -/
def conclude (verdicts : List Verdict) : Work Nat := do
  Work.printLine ""
  Work.printLine (Verdict.summary colours verdicts)
  return if Verdict.errorCount verdicts = 0 then 0 else 1

theorem runCheck_eq (templates : List String) :
    runCheck colours templates = templates.mapM (checkOne colours) >>= conclude colours := rfl

theorem comes_conclude (qs : List TextFile) (desk : Desk) :
    (conclude colours (qs.map (·.verdict))).Comes desk []
      (desk.add ["", summaryLine colours names qs] [])
      (.ok (if qs.all fun q => q.accepted (names q) then 0 else 1)) := by
  have hlines : desk.add ["", summaryLine colours names qs] [] =
      (desk.add [""] []).add [summaryLine colours names qs] [] :=
    (desk.add_add [""] [summaryLine colours names qs] [] []).symm
  unfold conclude
  rw [hlines, summary_verdicts names]
  simp only [errorCount_eq_zero_iff names]
  exact (Work.comes_printLine "" desk).bind ((Work.comes_printLine _ _).bind (Work.comes_pure _ _))

/-- Templates that can all be read are all checked, and the exit code is 0 if all are accepted. -/
theorem comes_runCheck (h : ∀ q ∈ qs, q.In desk.files) :
    (runCheck colours (qs.map (·.path))).Comes desk (qs.map (·.path))
      (desk.add ((reportLines names qs).map (Line.text colours) ++
        ["", summaryLine colours names qs]) (qs.flatMap (·.events)))
      (.ok (if qs.all fun q => q.accepted (names q) then 0 else 1)) := by
  have hloop := comes_mapM_checkOne colours h [] (Work.comes_pure [] _)
  rw [lines_verdicts colours names] at hloop
  simp only [List.append_nil, Except.map] at hloop
  have hall := hloop.bind (comes_conclude colours names qs _)
  rw [Desk.add_add, List.append_nil, List.append_nil] at hall
  rw [runCheck_eq]
  exact hall

/-- At a template that cannot be read, checking breaks off: the lines about those before it have
    been printed, and none behind it is read. -/
theorem comes_runCheck_error (h : ∀ q ∈ qs, q.In desk.files) {bad : String} {fault : FileFault}
    (hbad : desk.files.readText bad = .error fault) (later : List String) :
    (runCheck colours (qs.map (·.path) ++ bad :: later)).Comes desk (qs.map (·.path) ++ [bad])
      (desk.add ((reportLines names qs).map (Line.text colours)) (qs.flatMap (·.events)))
      (.error (.unreadable bad fault)) := by
  have hthere : (desk.add (qs.flatMap fun q => q.verdict.lines colours)
      (qs.flatMap (·.events))).files.readText bad = .error fault := hbad
  have hloop := comes_mapM_checkOne colours h (bad :: later)
    (comes_mapM_checkOne_error colours hthere later)
  rw [lines_verdicts colours names] at hloop
  rw [runCheck_eq]
  exact hloop.bind_error

end Runs

/-- Templates can all be read, or there is a first one that cannot. -/
theorem readable_or_blocked (files : Files) (templates : List String) :
    (∃ qs : List TextFile, qs.map (·.path) = templates ∧ ∀ q ∈ qs, q.In files) ∨
      ∃ (qs : List TextFile) (bad : String) (later : List String) (fault : FileFault),
        templates = qs.map (·.path) ++ bad :: later ∧ (∀ q ∈ qs, q.In files) ∧
          files.readText bad = .error fault := by
  induction templates with
  | nil => exact .inl ⟨[], rfl, fun q hq => absurd hq List.not_mem_nil⟩
  | cons path templates ih =>
    cases hread : files.readText path with
    | error fault =>
      exact .inr ⟨[], path, templates, fault, rfl, fun q hq => absurd hq List.not_mem_nil, hread⟩
    | ok text =>
      rcases ih with ⟨qs, hpaths, hin⟩ | ⟨qs, bad, later, fault, hpaths, hin, hbad⟩
      · refine .inl ⟨⟨path, text⟩ :: qs, ?_, List.forall_mem_cons.2 ⟨hread, hin⟩⟩
        rw [List.map_cons, hpaths]
      · refine .inr ⟨⟨path, text⟩ :: qs, bad, later, fault, ?_,
          List.forall_mem_cons.2 ⟨hread, hin⟩, hbad⟩
        rw [List.map_cons, hpaths, List.cons_append]

section Outcome

variable {args : List String} {invocation : Invocation} {s : Surroundings} {filter : Log.Filter}
  {files : Files} {paths lines : List String} {events : List Log.Event}

theorem outcome_of_comes_ok {code : Nat} (hparse : parse args = .ok invocation)
    (hfilter : Log.Filter.choose? invocation.verbose s.filter = some filter)
    (hrun : (run invocation s).Comes { files } paths (Desk.add { files } lines events)
      (.ok code)) :
    outcome args s files = {
      exitCode := code, printed := printedLines lines, log := events.filterMap filter.line?
      files } := by
  rw [outcome_of_run_ok hparse hfilter hrun.run_eq]
  simp only [Desk.add, String.empty_append, List.nil_append]

theorem outcome_of_comes_error {failure : Failure} (hparse : parse args = .ok invocation)
    (hfilter : Log.Filter.choose? invocation.verbose s.filter = some filter)
    (hrun : (run invocation s).Comes { files } paths (Desk.add { files } lines events)
      (.error failure)) :
    outcome args s files = {
      exitCode := 2, printed := printedLines lines, log := events.filterMap filter.line?
      failure := some failure, files } := by
  rw [outcome_of_run_error hparse hfilter hrun.run_eq]
  simp only [Desk.add, String.empty_append, List.nil_append]

end Outcome

/-- Checking agrees with reading templates, under whatever names. If all can be read, each prints
    one line that says it is accepted or one line for each of its errors, in the order of the
    arguments; the line about all counts the error lines and the templates that are not accepted;
    and the exit code is 0 if there are none of these and else 1. If some cannot be read, the exit
    code is 2, the lines about those before the first such are printed and none behind it is read. -/
theorem outcome_check {args templates : List String} {invocation : Invocation}
    (hparse : parse args = .ok invocation)
    (hcommand : invocation.command = some (.check templates)) (s : Surroundings) (files : Files)
    (names : TextFile → String) :
    let o := outcome args s files
    let colours := !invocation.noColor && !s.noColor
    match Log.Filter.choose? invocation.verbose s.filter with
    | none => o = { exitCode := brokenExit, files }
    | some filter =>
      ((∀ path ∈ templates, ∃ text, files.readText path = .ok text) →
        ∃ qs : List TextFile, qs.map (·.path) = templates ∧ (∀ q ∈ qs, q.In files) ∧
          (run invocation s).reads files = templates ∧
          o = {
            exitCode := if qs.all fun q => q.accepted (names q) then 0 else 1
            printed := printedLines ((reportLines names qs).map (Line.text colours) ++
              ["", summaryLine colours names qs])
            log := (qs.flatMap (·.events)).filterMap filter.line?
            files }) ∧
      ((∃ path ∈ templates, ∃ fault, files.readText path = .error fault) →
        ∃ (qs : List TextFile) (bad : String) (later : List String) (fault : FileFault),
          templates = qs.map (·.path) ++ bad :: later ∧ (∀ q ∈ qs, q.In files) ∧
          files.readText bad = .error fault ∧
          (run invocation s).reads files = qs.map (·.path) ++ [bad] ∧
          o = {
            exitCode := 2
            printed := printedLines ((reportLines names qs).map (Line.text colours))
            log := (qs.flatMap (·.events)).filterMap filter.line?
            failure := some (.unreadable bad fault)
            files }) := by
  dsimp only
  cases hfilter : Log.Filter.choose? invocation.verbose s.filter with
  | none => simp only [outcome, hparse, hfilter]
  | some filter =>
    have hrun : run invocation s = runCheck (!invocation.noColor && !s.noColor) templates := by
      simp only [run, hcommand]
    constructor
    · intro hreadable
      rcases readable_or_blocked files templates with
        ⟨qs, rfl, hin⟩ | ⟨qs, bad, later, fault, rfl, -, hbad⟩
      · have hdesk : ∀ q ∈ qs, q.In ({ files } : Desk).files := hin
        have hcomes := comes_runCheck (!invocation.noColor && !s.noColor) names hdesk
        rw [← hrun] at hcomes
        exact ⟨qs, rfl, hin, hcomes.reads_eq, outcome_of_comes_ok hparse hfilter hcomes⟩
      · obtain ⟨text, htext⟩ := hreadable bad (by simp)
        rw [hbad] at htext
        simp at htext
    · intro hblocked
      rcases readable_or_blocked files templates with
        ⟨qs, rfl, hin⟩ | ⟨qs, bad, later, fault, rfl, hin, hbad⟩
      · obtain ⟨path, hpath, fault, hfault⟩ := hblocked
        obtain ⟨q, hq, rfl⟩ := List.mem_map.1 hpath
        rw [hin q hq] at hfault
        simp at hfault
      · have hdesk : ∀ q ∈ qs, q.In ({ files } : Desk).files := hin
        have hcomes := comes_runCheck_error (!invocation.noColor && !s.noColor) names hdesk hbad later
        rw [← hrun] at hcomes
        exact ⟨qs, bad, later, fault, rfl, hin, hbad, hcomes.reads_eq,
          outcome_of_comes_error hparse hfilter hcomes⟩

/-- A template that is accepted and one with two errors. -/
def fineAndFaulty : Files where
  here := ["w"]
  entries := [(["w", "a"], .file "x\x7b\x7bb\x7d\x7d".toUTF8),
    (["w", "b"], .file "\x7b\x7b/each\x7d\x7d\x7b\x7b#c\x7d\x7d".toUTF8)]

/-- Both templates, and then the faulty one before a file that is not there. -/
theorem outcome_check_fineAndFaulty :
    let s : Surroundings := { directory := "/w", noColor := true }
    let faulty := "error: b Line: 1 Column: 1 An 'each' block is being closed, but no " ++
      "corresponding opening element ('\x7b\x7b#each <name>\x7d\x7d') was detected.\n" ++
      "error: b Line: 1 Column: 10 A scope block to the following path was opened but not " ++
      "closed: 'c', please close it using the appropriate syntax.\n"
    let both := outcome ["check", "a", "b"] s fineAndFaulty
    let blocked := outcome ["check", "b", "d", "a"] s fineAndFaulty
    both.exitCode = 1 ∧
      both.printed = "ok: a\n" ++ faulty ++
        "\nCheck failed: 2 error(s) in 1 of 2 template(s).\n" ∧
      blocked.exitCode = 2 ∧ blocked.printed = faulty ∧
      blocked.failure = some (.unreadable "d" .notFound) := by
  intro s faulty both blocked
  have hparse : parse ["check", "a", "b"] = .ok { command := some (.check ["a", "b"]) } := rfl
  have hparse' : parse ["check", "b", "d", "a"] =
      .ok { command := some (.check ["b", "d", "a"]) } := rfl
  have hfilter : (Log.Filter.choose? false none).isSome := by decide +kernel
  obtain ⟨filter, hfilter⟩ := Option.isSome_iff_exists.1 hfilter
  let a : TextFile := ⟨"a", "x\x7b\x7bb\x7d\x7d"⟩
  let b : TextFile := ⟨"b", "\x7b\x7b/each\x7d\x7d\x7b\x7b#c\x7d\x7d"⟩
  have ha : fineAndFaulty.readText "a" = .ok a.text := by decide +kernel
  have hb : fineAndFaulty.readText "b" = .ok b.text := by decide +kernel
  have hd : fineAndFaulty.readText "d" = .error .notFound := by decide +kernel
  have hboth := outcome_check hparse rfl s fineAndFaulty (·.path)
  have hblocked := outcome_check hparse' rfl s fineAndFaulty (·.path)
  simp only [show s.filter = none from rfl, hfilter] at hboth hblocked
  obtain ⟨qs, hpaths, hqs, -, hboth⟩ := hboth.1 (by simp [ha, hb])
  obtain rfl : qs = [a, b] := TextFile.eq_of_paths hqs (by simp [TextFile.In, ha, hb, a, b]) hpaths
  obtain ⟨qs, bad, later, fault, -, hqs, hbad, hreads, hblocked⟩ := hblocked.2 ⟨"d", by simp, _, hd⟩
  have hread : qs.map (·.path) ++ [bad] = [b].map (·.path) ++ ["d"] :=
    hreads.symm.trans (by decide +kernel)
  obtain ⟨hpaths, hlast⟩ := List.append_inj' hread rfl
  obtain rfl : qs = [b] := TextFile.eq_of_paths hqs (by simp [TextFile.In, hb, b]) hpaths
  obtain rfl : bad = "d" := List.singleton_inj.1 hlast
  obtain rfl : fault = .notFound := by simpa [hd] using hbad.symm
  refine ⟨?_, ?_, ?_, ?_, ?_⟩
  · exact (congrArg Outcome.exitCode hboth).trans (by dsimp only; decide +kernel)
  · exact (congrArg Outcome.printed hboth).trans (by dsimp only; decide +kernel)
  · exact congrArg Outcome.exitCode hblocked
  · exact (congrArg Outcome.printed hblocked).trans (by dsimp only; decide +kernel)
  · exact congrArg Outcome.failure hblocked

end Command

end Stencil
