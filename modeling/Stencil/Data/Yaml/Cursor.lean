import Stencil.Text.Blank
/-
  A place in YAML text: what lies ahead, and where it is. Lines and columns decide what text
  means, so every step keeps them.
-/

namespace Stencil.Yaml

/-! ## Characters -/

/-- The characters that may stand in a document at all. -/
def isAllowed (c : Char) : Bool :=
  let n := c.toNat
  n == 0x9 || n == 0xA || n == 0xD || (0x20 ≤ n && n ≤ 0x7E) || n == 0x85 ||
    (0xA0 ≤ n && n ≤ 0xFFFD) || 0x10000 ≤ n

def isBreak (c : Char) : Bool :=
  c == '\r' || c == '\n' || c == '\u0085' || c == '\u2028' || c == '\u2029'

def isBlank (c : Char) : Bool := c == ' ' || c == '\t'

/-- A character of a name. -/
def isWord (c : Char) : Bool := c.isAlphanum || c == '_' || c == '-'

/-- Whether a blank, a line break or the end comes next. -/
def atGap : List Char → Bool
  | [] => true
  | c :: _ => isBlank c || isBreak c

/-- Whether a line break or the end comes next. -/
def atLineEnd : List Char → Bool
  | [] => true
  | c :: _ => isBreak c

/-- Whether the markers that start or end a document come next. -/
def atMarker : List Char → Bool
  | '-' :: '-' :: '-' :: rest => atGap rest
  | '.' :: '.' :: '.' :: rest => atGap rest
  | _ => false

/-! ## Cursors -/

structure Cursor where
  rest : List Char
  /-- How many bytes lie behind. -/
  index : Nat
  line : Nat
  column : Nat

namespace Cursor

def start (cs : List Char) : Cursor := ⟨cs, 0, 0, 0⟩

/-- Goes on by some characters of the same line. -/
def advance (c : Cursor) (n : Nat) : Cursor :=
  { c with
    rest := c.rest.drop n
    index := c.index + Text.byteSize (c.rest.take n)
    column := c.column + n }

/-- Goes on while characters of the same line are of a kind. -/
def skipWhile (c : Cursor) (p : Char → Bool) : Cursor := c.advance (c.rest.takeWhile p).length

/-- Goes over a line break, and gives what it means: a newline, if it is not one of the two
    separators of Unicode. Nothing happens where no break is. -/
def takeBreak (c : Cursor) : List Char × Cursor :=
  match c.rest with
  | '\r' :: '\n' :: rest => (['\n'], ⟨rest, c.index + 2, c.line + 1, 0⟩)
  | b :: rest =>
    let next : Cursor := ⟨rest, c.index + b.utf8Size, c.line + 1, 0⟩
    if b == '\u2028' || b == '\u2029' then ([b], next)
    else if isBreak b then (['\n'], next)
    else ([], c)
  | [] => ([], c)

/-- Whether a marker of a document stands here, at the start of a line. -/
def onMarker (c : Cursor) : Bool := c.column == 0 && atMarker c.rest

/-- Skips a byte order mark at the start of a line; what follows it stands in the next column. -/
def skipOrderMark (c : Cursor) : Cursor :=
  match c.rest with
  | '\uFEFF' :: _ => if c.column == 0 then c.advance 1 else c
  | _ => c

/-- Skips a comment up to the end of its line. -/
def skipComment (c : Cursor) : Cursor :=
  match c.rest with
  | '#' :: _ => c.skipWhile (!isBreak ·)
  | _ => c

end Cursor

/-! ## Blanks between parts of a scalar -/

/-- Blanks and line breaks in a row. -/
structure Gap where
  /-- Blanks before the first break. -/
  blanks : List Char := []
  /-- A line has ended. -/
  crossed : Bool := false
  /-- The first break, if it is not an escaped one. -/
  first : List Char := []
  /-- The breaks after it. -/
  others : List Char := []

namespace Gap

/-- What a gap adds to the text. One newline folds into a space, and of more the first is left
    out. -/
def text (g : Gap) : List Char :=
  if !g.crossed then g.blanks
  else if g.first == ['\n'] then if g.others.isEmpty then [' '] else g.others
  else g.first ++ g.others

/-- Takes all blanks and breaks that come next. On a new line no tab may stand before column
    `indent`. Every round takes a character, so the length of the text is fuel enough. -/
def take (indent : Int) : (fuel : Nat) → Gap → Cursor → Option (Gap × Cursor)
  | 0, g, c => some (g, c)
  | fuel + 1, g, c =>
    match c.rest with
    | [] => some (g, c)
    | x :: _ =>
      if isBlank x then
        if g.crossed then
          if c.column < indent ∧ x = '\t' then none else take indent fuel g (c.advance 1)
        else take indent fuel { g with blanks := g.blanks ++ [x] } (c.advance 1)
      else if isBreak x then
        let (b, c) := c.takeBreak
        if g.crossed then take indent fuel { g with others := g.others ++ b } c
        else take indent fuel { g with crossed := true, first := b } c
      else some (g, c)

end Gap

end Stencil.Yaml
