import Stencil.Command.Run
/-
  Work that only reads. `Work.Yields` says what such work comes to on some files, as a function of
  the files alone, and that it leaves nothing behind but events. Each way of reading a file is given
  this meaning once; what commands do before they write is put together from these by `Yields.bind`.
-/

namespace Stencil

namespace Work

variable {α β γ : Type}

theorem bind_assoc (w : Work α) (f : α → Work β) (g : β → Work γ) :
    (w >>= f) >>= g = w >>= fun a => f a >>= g := by
  show (w.bind f).bind g = w.bind fun a => (f a).bind g
  induction w with
  | done a => rfl
  | fail e => rfl
  | log event next ih => exact congrArg (log event) ih
  | print text next ih => exact congrArg (print text) ih
  | complain line next ih => exact congrArg (complain line) ih
  | read path next ih => exact congrArg (read path) (funext ih)
  | probe path next ih => exact congrArg (probe path) (funext ih)
  | write path text next ih => exact congrArg (write path text) (funext ih)

/-! ## Work that only reads -/

/-- The work ends as `result` says of the files, and leaves nothing behind but events. -/
def Yields (w : Work α) (result : Files → Except Failure α) : Prop :=
  ∀ desk : Desk, ∃ events,
    w.run desk = ({ desk with events := desk.events ++ events }, result desk.files)

theorem yields_ofExcept (r : Except Failure α) : (ofExcept r).Yields fun _ => r := by
  intro desk
  refine ⟨[], ?_⟩
  rw [List.append_nil]
  cases r <;> rfl

theorem yields_pure (a : α) : (pure a : Work α).Yields fun _ => .ok a := yields_ofExcept (.ok a)

theorem yields_fail (e : Failure) : (fail e : Work α).Yields fun _ => .error e :=
  yields_ofExcept (.error e)

theorem yields_logAll (events : List Log.Event) : (logAll events).Yields fun _ => .ok () := by
  intro desk
  refine ⟨events, ?_⟩
  induction events generalizing desk with
  | nil => rw [List.append_nil]; rfl
  | cons event events ih =>
    have hrest := ih { desk with events := desk.events ++ [event] }
    rwa [List.append_assoc] at hrest

theorem Yields.congr {w : Work α} {r s : Files → Except Failure α} (hw : w.Yields r)
    (h : ∀ files, r files = s files) : w.Yields s := by
  obtain rfl : r = s := funext h
  exact hw

theorem Yields.bind {w : Work α} {r : Files → Except Failure α} {f : α → Work β}
    {s : α → Files → Except Failure β} (hw : w.Yields r) (hf : ∀ a, (f a).Yields (s a)) :
    (w >>= f).Yields fun files => r files >>= fun a => s a files := by
  intro desk
  obtain ⟨events, hrun⟩ := hw desk
  rw [run_bind, hrun]
  dsimp only
  cases r desk.files with
  | error e => exact ⟨events, rfl⟩
  | ok a =>
    obtain ⟨more, hmore⟩ := hf a { desk with events := desk.events ++ events }
    exact ⟨events ++ more, by rw [← List.append_assoc]; exact hmore⟩

theorem Yields.map {w : Work α} {r : Files → Except Failure α} (hw : w.Yields r) (f : α → β) :
    (w >>= fun a => pure (f a)).Yields fun files => f <$> r files :=
  (hw.bind fun a => yields_pure (f a)).congr fun files => by cases r files <;> rfl

theorem yields_probe {path : String} {next : Bool → Work α}
    {r : Bool → Files → Except Failure α} (h : ∀ there, (next there).Yields (r there)) :
    (probe path next).Yields fun files => r (files.isFile path) files :=
  fun desk => h (desk.files.isFile path) desk

end Work

/-! ## Texts -/

/-- The text of a file, or why there is none. -/
def Files.text (files : Files) (path : String) : Except Failure String :=
  (files.readText path).mapError (.unreadable path)

theorem yields_readText (path : String) : (Work.readText path).Yields fun files => files.text path := by
  intro desk
  refine ⟨[], ?_⟩
  rw [List.append_nil]
  simp only [Work.readText, Work.run, Files.text]
  cases desk.files.readText path <;> rfl

/-! ## Configurations -/

namespace Config

/-- The configuration in a file. -/
def inFile (path : String) (files : Files) : Except Failure Config := do
  let text ← files.text path
  match (Toml.parse? text).bind ofToml? with
  | none => .error (.configParse path)
  | some config => .ok config

/-- The configuration of a directory: the first candidate that is a file counts, and there need
    not be one. -/
def inDirectory (root : String) (files : Files) : Except Failure (Option Config) :=
  match (candidates root).find? files.isFile with
  | none => .ok none
  | some path => some <$> inFile path files

theorem yields_read (path : String) : (read path).Yields (inFile path) := by
  refine (yields_readText path).bind fun text => ?_
  cases (Toml.parse? text).bind ofToml? with
  | none => exact Work.yields_fail _
  | some config => exact (Work.yields_logAll _).bind fun _ => Work.yields_pure config

theorem yields_firstFile (paths : List String) :
    (firstFile paths).Yields fun files => .ok (paths.find? files.isFile) := by
  induction paths with
  | nil => exact Work.yields_pure none
  | cons path paths ih =>
    have hstep : ∀ there : Bool, (if there then Work.done (some path) else firstFile paths).Yields
        fun files => .ok (if there then some path else paths.find? files.isFile) := by
      intro there
      cases there with
      | false => exact ih
      | true => exact Work.yields_pure (some path)
    refine (Work.yields_probe hstep).congr fun files => ?_
    rw [List.find?_cons]
    cases files.isFile path <;> rfl

theorem yields_discover (root : String) : (discover root).Yields (inDirectory root) := by
  have hfound : ∀ path? : Option String, (match path? with
      | none => return none
      | some path => return some (← read path) : Work (Option Config)).Yields fun files =>
        match path? with
        | none => .ok none
        | some path => some <$> inFile path files := by
    intro path?
    cases path? with
    | none => exact Work.yields_pure none
    | some path => exact (yields_read path).map some
  exact (yields_firstFile (candidates root)).bind hfound

end Config

namespace Command

/-- The configuration of a command line, with the directory that its paths start from. One that is
    named has to be there. -/
def configIn (invocation : Invocation) (s : Surroundings) (files : Files) :
    Except Failure (Option (Config × String)) :=
  match invocation.config with
  | some path => (fun config => some (config, Location.parent path)) <$> Config.inFile path files
  | none => (fun config => config.map (·, s.directory)) <$> Config.inDirectory s.directory files

theorem yields_loadConfig (invocation : Invocation) (s : Surroundings) :
    (loadConfig invocation s).Yields (configIn invocation s) := by
  unfold loadConfig configIn
  cases invocation.config with
  | some path => exact (Config.yields_read path).map _
  | none => exact (Config.yields_discover s.directory).map _

end Command

end Stencil
