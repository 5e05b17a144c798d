import Stencil.Proofs.Reading
/-
  What work does on the way to its result. `Work.Comes` says of some work on a desk which files it
  reads, in order, what it leaves behind and what it ends in. Work in sequence reads in sequence, and
  work behind a failure reads nothing (`Comes.bind`, `Comes.bind_error`).
-/

namespace Stencil

namespace Work

variable {α β : Type}

theorem bind_done (w : Work α) : w.bind done = w := by
  induction w with
  | done a => rfl
  | fail e => rfl
  | log event next ih => exact congrArg (log event) ih
  | print text next ih => exact congrArg (print text) ih
  | complain line next ih => exact congrArg (complain line) ih
  | read path next ih => exact congrArg (read path) (funext ih)
  | probe path next ih => exact congrArg (probe path) (funext ih)
  | write path text next ih => exact congrArg (write path text) (funext ih)

instance : LawfulMonad Work := LawfulMonad.mk' Work bind_done (fun _ _ => rfl) bind_assoc

/-! ## What work reads -/

/-- The paths that work reads or asks for, in order. -/
def reads : Work α → Files → List String
  | done _, _ | fail _, _ => []
  | log _ next, files | print _ next, files | complain _ next, files => next.reads files
  | read path next, files => path :: (next (files.readText path)).reads files
  | probe path next, files => path :: (next (files.isFile path)).reads files
  | write path text next, files =>
    match files.write path text with
    | .ok after => (next none).reads after
    | .error fault => (next (some fault)).reads files

theorem reads_bind (w : Work α) (f : α → Work β) (desk : Desk) :
    (w >>= f).reads desk.files = w.reads desk.files ++
      match w.run desk with
      | (after, .ok a) => (f a).reads after.files
      | (_, .error _) => [] := by
  show (w.bind f).reads desk.files = _
  induction w generalizing desk with
  | done a => rfl
  | fail e => rfl
  | log event next ih => exact ih { desk with events := desk.events ++ [event] }
  | print text next ih => exact ih { desk with printed := desk.printed ++ text }
  | complain line next ih => exact ih { desk with complaints := desk.complaints ++ [line] }
  | read path next ih => exact congrArg (path :: ·) (ih _ desk)
  | probe path next ih => exact congrArg (path :: ·) (ih _ desk)
  | write path text next ih =>
    cases hwrite : desk.files.write path text with
    | ok files =>
      simp only [bind, reads, run, hwrite]
      exact ih none { desk with files }
    | error fault =>
      simp only [bind, reads, run, hwrite]
      exact ih (some fault) desk

/-- From a desk the work reads some paths, leaves another desk and ends in a result. -/
structure Comes (w : Work α) (desk : Desk) (paths : List String) (after : Desk)
    (result : Except Failure α) : Prop where
  run_eq : w.run desk = (after, result)
  reads_eq : w.reads desk.files = paths

section Comes

variable {w : Work α} {f : α → Work β} {desk mid after : Desk} {paths more : List String} {a : α}
  {e : Failure}

theorem Comes.bind {result : Except Failure β} (hw : w.Comes desk paths mid (.ok a))
    (hf : (f a).Comes mid more after result) :
    (w >>= f).Comes desk (paths ++ more) after result where
  run_eq := by rw [run_bind, hw.run_eq, ← hf.run_eq]
  reads_eq := by rw [reads_bind, hw.run_eq, hw.reads_eq, ← hf.reads_eq]

theorem Comes.bind_error (hw : w.Comes desk paths after (.error e)) :
    (w >>= f).Comes desk paths after (.error e) where
  run_eq := by rw [run_bind, hw.run_eq]
  reads_eq := by rw [reads_bind, hw.run_eq, hw.reads_eq, List.append_nil]

theorem comes_pure (a : α) (desk : Desk) : (pure a : Work α).Comes desk [] desk (.ok a) := ⟨rfl, rfl⟩

theorem Comes.map {result : Except Failure α} (hw : w.Comes desk paths after result) (g : α → β) :
    (w >>= fun a => pure (g a)).Comes desk paths after (result.map g) := by
  cases result with
  | error e => exact hw.bind_error
  | ok a =>
    have hmap : (w >>= fun a => pure (g a)).Comes desk (paths ++ []) after (.ok (g a)) :=
      hw.bind (comes_pure (g a) after)
    rwa [List.append_nil] at hmap

end Comes

section Read

variable {path text : String} {fault : FileFault} {desk : Desk}

theorem comes_readText (h : desk.files.readText path = .ok text) :
    (readText path).Comes desk [path] desk (.ok text) where
  run_eq := by simp only [readText, run, h]
  reads_eq := by simp only [readText, reads, h]

theorem comes_readText_error (h : desk.files.readText path = .error fault) :
    (readText path).Comes desk [path] desk (.error (.unreadable path fault)) where
  run_eq := by simp only [readText, run, h]
  reads_eq := by simp only [readText, reads, h]

end Read

end Work

/-! ## What work prints and tells -/

/-- Lines as they are printed. -/
def printedLines (lines : List String) : String := String.join (lines.map (· ++ "\n"))

/-- A desk with more printed and told. -/
def Desk.add (desk : Desk) (lines : List String) (events : List Log.Event) : Desk :=
  { desk with printed := desk.printed ++ printedLines lines, events := desk.events ++ events }

theorem printedLines_append (lines more : List String) :
    printedLines (lines ++ more) = printedLines lines ++ printedLines more := by
  simp only [printedLines, List.map_append, String.join_append]

theorem printedLines_nil : printedLines [] = "" := String.join_nil

theorem printedLines_singleton (line : String) : printedLines [line] = line ++ "\n" := by
  rw [printedLines, List.map_singleton, String.join_cons, String.join_nil, String.append_empty]

theorem Desk.add_add (desk : Desk) (lines more : List String) (events later : List Log.Event) :
    (desk.add lines events).add more later = desk.add (lines ++ more) (events ++ later) := by
  simp only [add, printedLines_append, String.append_assoc, List.append_assoc]

theorem Desk.add_nil (desk : Desk) : desk.add [] [] = desk := by
  rw [add, printedLines_nil, String.append_empty, List.append_nil]

namespace Work

theorem comes_printLine (line : String) (desk : Desk) :
    (printLine line).Comes desk [] (desk.add [line] []) (.ok ()) where
  run_eq := by
    rw [Desk.add, printedLines_singleton, List.append_nil]
    rfl
  reads_eq := rfl

theorem comes_printLines (lines : List String) (desk : Desk) :
    (lines.forM printLine).Comes desk [] (desk.add lines []) (.ok ()) := by
  induction lines generalizing desk with
  | nil =>
    rw [Desk.add_nil]
    exact comes_pure () desk
  | cons line lines ih =>
    have hlines : (desk.add [line] []).add lines [] = desk.add (line :: lines) [] :=
      desk.add_add [line] lines [] []
    rw [← hlines]
    exact (comes_printLine line desk).bind (ih (desk.add [line] []))

theorem Comes.log {α : Type} {event : Log.Event} {next : Work α} {desk after : Desk}
    {paths : List String} {result : Except Failure α}
    (h : next.Comes (desk.add [] [event]) paths after result) :
    (log event next).Comes desk paths after result where
  run_eq := by
    rw [← h.run_eq, Desk.add, printedLines_nil, String.append_empty]
    rfl
  reads_eq := h.reads_eq

theorem comes_logAll (events : List Log.Event) (desk : Desk) :
    (logAll events).Comes desk [] (desk.add [] events) (.ok ()) := by
  induction events generalizing desk with
  | nil =>
    rw [Desk.add_nil]
    exact comes_pure () desk
  | cons event events ih =>
    have hevents : (desk.add [] [event]).add [] events = desk.add [] (event :: events) :=
      desk.add_add [] [] [event] events
    rw [← hevents]
    exact (ih (desk.add [] [event])).log

end Work

/-! ## What a run leaves behind -/

namespace Command

section Outcome

variable {args : List String} {invocation : Invocation} {s : Surroundings} {filter : Log.Filter}
  {files : Files} {desk : Desk}

/-- A run leaves what its work has left on the desk, and of its events those that the filter lets
    pass. -/
theorem outcome_of_run_ok {code : Nat} (hparse : parse args = .ok invocation)
    (hfilter : Log.Filter.choose? invocation.verbose s.filter = some filter)
    (hrun : (run invocation s).run { files } = (desk, .ok code)) :
    outcome args s files = {
      exitCode := code, printed := desk.printed, complaints := desk.complaints
      log := desk.events.filterMap filter.line?, files := desk.files } := by
  simp only [outcome, hparse, hfilter, hrun]

theorem outcome_of_run_error {failure : Failure} (hparse : parse args = .ok invocation)
    (hfilter : Log.Filter.choose? invocation.verbose s.filter = some filter)
    (hrun : (run invocation s).run { files } = (desk, .error failure)) :
    outcome args s files = {
      exitCode := 2, printed := desk.printed, complaints := desk.complaints
      log := desk.events.filterMap filter.line?, failure := some failure, files := desk.files } := by
  simp only [outcome, hparse, hfilter, hrun]

end Outcome

end Command

end Stencil
