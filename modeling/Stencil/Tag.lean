import Stencil.Text.Blank
/-
  Tags and where they stand in a text. A tag is `{{` or `{{{`, one or more characters that are
  no braces, and as many closing braces. `Tag.first?` reads a tag at the start of a text, and
  `pieces` cuts a whole text into tags and the text between them.
-/

namespace Stencil

open Text

structure Tag where
  /-- Three braces on each side, not two. -/
  triple : Bool
  interior : List Char
deriving DecidableEq, Repr

namespace Tag

def isBrace (c : Char) : Bool := c == '{' || c == '}'

def depth (triple : Bool) : Nat := if triple then 3 else 2

/-- The tag as it is written, with its braces. -/
def chars (t : Tag) : List Char :=
  List.replicate (depth t.triple) '{' ++ t.interior ++ List.replicate (depth t.triple) '}'

def text (t : Tag) : String := String.ofList t.chars

/-- Reads a tag of one form at the start of a text, and gives what follows it. -/
def read? (triple : Bool) (cs : List Char) : Option (Tag × List Char) :=
  match dropStart? (List.replicate (depth triple) '{') cs with
  | none => none
  | some inside =>
    let interior := inside.takeWhile (!isBrace ·)
    match dropStart? (List.replicate (depth triple) '}') (inside.dropWhile (!isBrace ·)) with
    | none => none
    | some rest => if interior = [] then none else some (⟨triple, interior⟩, rest)

/-- Reads a tag at the start of a text; two braces are tried before three. -/
def first? (cs : List Char) : Option (Tag × List Char) := (read? false cs).or (read? true cs)

/-- A tag that is read and the rest are together the whole text. -/
theorem eq_append_of_read? {triple : Bool} {cs rest : List Char} {t : Tag}
    (h : read? triple cs = some (t, rest)) : cs = t.chars ++ rest := by
  simp only [read?] at h
  split at h
  · simp at h
  · next inside hin =>
    split at h
    · simp at h
    · next rest' hre =>
      split at h
      · simp at h
      · simp only [Option.some.injEq, Prod.mk.injEq] at h
        obtain ⟨rfl, rfl⟩ := h
        rw [eq_append_of_dropStart? hin, chars, List.append_assoc, List.append_assoc,
          ← eq_append_of_dropStart? hre, List.takeWhile_append_dropWhile]

theorem eq_append_of_first? {cs rest : List Char} {t : Tag} (h : first? cs = some (t, rest)) :
    cs = t.chars ++ rest := by
  rcases Option.or_eq_some_iff.1 h with h | ⟨_, h⟩ <;> exact eq_append_of_read? h

theorem chars_length (t : Tag) : 4 ≤ t.chars.length := by
  simp only [chars, depth, List.length_append, List.length_replicate]; split <;> omega

theorem length_lt_of_first? {cs rest : List Char} {t : Tag} (h : first? cs = some (t, rest)) :
    rest.length < cs.length := by
  have := chars_length t
  rw [eq_append_of_first? h, List.length_append]; omega

end Tag

/-! ## A text in pieces -/

/-- A stretch of a text: a tag, or text up to the next tag. -/
inductive Piece where
  | text (chars : List Char)
  | tag (tag : Tag)
deriving DecidableEq, Repr

namespace Piece

def chars : Piece → List Char
  | .text cs => cs
  | .tag t => t.chars

/-- The text since the last tag, which is kept last character first. -/
def ofGap : List Char → List Piece
  | [] => []
  | gap => [.text gap.reverse]

/-- Cuts a text into pieces; `gap` holds the text since the last tag, last character first. -/
def splitFrom (gap : List Char) : List Char → List Piece
  | [] => ofGap gap
  | c :: cs =>
    match _h : Tag.first? (c :: cs) with
    | some (t, rest) => ofGap gap ++ .tag t :: splitFrom [] rest
    | none => splitFrom (c :: gap) cs
termination_by cs => cs.length
decreasing_by
  · exact Tag.length_lt_of_first? _h
  · exact Nat.lt_succ_self _

/-- The pieces of a text, from the left: a tag at the first place where one can be read, then
    the pieces of what follows it. -/
def split (cs : List Char) : List Piece := splitFrom [] cs

end Piece

end Stencil
