/-
  The paths written in tags: names joined by dots, and `../` for the parent.
  `isValid` is the check made on a tag's path; `steps` is how a path is followed, and it takes
  every text, also one that is not valid.
-/

namespace Stencil.Path

/-! ## The grammar of valid paths -/

def isNameChar (c : Char) : Bool := c.isAlphanum || c == '_'

/-- The words of a path: a maximal run of dots, a slash, a maximal run of name characters. -/
inductive Word where
  | dots (count : Nat)
  | slash
  | name (text : List Char)
deriving DecidableEq, Repr

/-- Splits a path into words; none if some character belongs to no word. -/
def words? : List Char → Option (List Word)
  | [] => some []
  | c :: cs =>
    if c = '.' then
      (words? (cs.dropWhile (· = '.'))).map (.dots ((cs.takeWhile (· = '.')).length + 1) :: ·)
    else if c = '/' then
      (words? cs).map (.slash :: ·)
    else if isNameChar c then
      (words? (cs.dropWhile isNameChar)).map (.name (c :: cs.takeWhile isNameChar) :: ·)
    else none
termination_by cs => cs.length
decreasing_by
  · exact Nat.lt_succ_of_le (List.dropWhile_sublist _).length_le
  · exact Nat.lt_succ_self _
  · exact Nat.lt_succ_of_le (List.dropWhile_sublist _).length_le

/-- Two dots stand before a slash and nowhere else, a slash stands only there, and there are
    never three dots. -/
def wellFormed : List Word → Bool
  | [] => true
  | .dots 2 :: .slash :: rest => wellFormed rest
  | .dots n :: rest => n == 1 && wellFormed rest
  | .slash :: _ => false
  | .name _ :: rest => wellFormed rest

/-- Whether a path may stand in a tag. The empty path and `.` are valid: both mean the current
    context. -/
def isValid (path : String) : Bool :=
  match words? path.toList with
  | some ws => wellFormed ws
  | none => false

/-! ## Following a path -/

/-- One step of a path. -/
inductive Step where
  /-- Up to the parent context. -/
  | parent
  /-- Down to a key of a map or a position of a sequence. -/
  | key (name : String)
deriving DecidableEq, Repr

/-- `../` and `..\` are parent steps, a maximal run without dots is a key, and other dots only
    separate. -/
def stepsOf : List Char → List Step
  | [] => []
  | c :: cs =>
    if c = '.' then
      match cs with
      | '.' :: '/' :: rest => .parent :: stepsOf rest
      | '.' :: '\\' :: rest => .parent :: stepsOf rest
      | rest => stepsOf rest
    else
      .key (String.ofList (c :: cs.takeWhile (· ≠ '.'))) :: stepsOf (cs.dropWhile (· ≠ '.'))
termination_by cs => cs.length
decreasing_by
  · simp; omega
  · simp; omega
  · simp
  · exact Nat.lt_succ_of_le (List.dropWhile_sublist _).length_le

def steps (path : String) : List Step := stepsOf path.toList

def Step.key? : Step → Option String
  | .parent => none
  | .key name => some name

/-- The keys of a path, without its parent steps. -/
def keys (path : String) : List String := (steps path).filterMap Step.key?

end Stencil.Path
