import Stencil.Failure
import Stencil.Log.Event
/-
  Work on files as a value: what is read, written and told, step by step. A value of `Work` can be
  carried out on files in memory (`Work.run`) or on those of a machine.
-/

namespace Stencil

/-- Work that ends in a result or fails. -/
inductive Work (α : Type) where
  | done (a : α)
  | fail (failure : Failure)
  | log (event : Log.Event) (next : Work α)
  /-- Adds to what is printed. -/
  | print (text : String) (next : Work α)
  /-- Prints a line where errors go. -/
  | complain (line : String) (next : Work α)
  | read (path : String) (next : Except FileFault String → Work α)
  /-- Asks whether a path leads to a file. -/
  | probe (path : String) (next : Bool → Work α)
  /-- Replaces what a file holds, or makes the file. -/
  | write (path text : String) (next : Option FileFault → Work α)

namespace Work

def bind {α β : Type} : Work α → (α → Work β) → Work β
  | done a, f => f a
  | fail e, _ => fail e
  | log event next, f => log event (next.bind f)
  | print text next, f => print text (next.bind f)
  | complain line next, f => complain line (next.bind f)
  | read path next, f => read path fun r => (next r).bind f
  | probe path next, f => probe path fun r => (next r).bind f
  | write path text next, f => write path text fun r => (next r).bind f

instance : Monad Work where
  pure := done
  bind := bind

def ofExcept {α : Type} : Except Failure α → Work α
  | .ok a => done a
  | .error e => fail e

def logAll (events : List Log.Event) : Work Unit := events.foldr log (done ())

def printLine (line : String) : Work Unit := print (line ++ "\n") (done ())

def readText (path : String) : Work String :=
  read path fun
    | .ok text => done text
    | .error fault => fail (.unreadable path fault)

def writeText (path text : String) : Work Unit :=
  write path text fun
    | none => done ()
    | some fault => fail (.unwritable fault)

end Work

/-- Files together with all that has been printed and told. -/
structure Desk where
  files : Files
  printed : String := ""
  complaints : List String := []
  events : List Log.Event := []

/-- Carries work out on files in memory. What was done before a failure stays done. -/
def Work.run {α : Type} : Work α → Desk → Desk × Except Failure α
  | done a, desk => (desk, .ok a)
  | fail e, desk => (desk, .error e)
  | log event next, desk => next.run { desk with events := desk.events ++ [event] }
  | print text next, desk => next.run { desk with printed := desk.printed ++ text }
  | complain line next, desk => next.run { desk with complaints := desk.complaints ++ [line] }
  | read path next, desk => (next (desk.files.readText path)).run desk
  | probe path next, desk => (next (desk.files.isFile path)).run desk
  | write path text next, desk =>
    match desk.files.write path text with
    | .ok files => (next none).run { desk with files }
    | .error fault => (next (some fault)).run desk

/-- Work goes on where the work before it has ended, unless that failed. -/
theorem Work.run_bind {α β : Type} (w : Work α) (f : α → Work β) (desk : Desk) :
    (w >>= f).run desk =
      match w.run desk with
      | (desk, .ok a) => (f a).run desk
      | (desk, .error e) => (desk, .error e) := by
  show (w.bind f).run desk = _
  induction w generalizing desk with
  | done a => rfl
  | fail e => rfl
  | log event next ih => exact ih _
  | print text next ih => exact ih _
  | complain line next ih => exact ih _
  | read path next ih => exact ih _ _
  | probe path next ih => exact ih _ _
  | write path text next ih =>
    simp only [bind, run]
    split
    · exact ih _ _
    · exact ih _ _

end Stencil
