import Stencil.Text.Blank
/-
  Places in a text as people count them. A `LineTable` is made once for a text; a byte offset is
  then looked up in it.
-/

namespace Stencil

open Text

/-- A line and a column, both counted from 1; the column counts characters. -/
structure Place where
  line : Nat
  column : Nat
deriving DecidableEq, Repr

def Place.text (p : Place) : String := toString p.line ++ ":" ++ toString p.column

/-- A line of a text: the byte offset of its start, and its characters with the newline. -/
structure Line where
  start : Nat
  chars : List Char
deriving DecidableEq, Repr

structure LineTable where
  lines : List Line
  /-- The size of the text in bytes. -/
  size : Nat
deriving DecidableEq, Repr

namespace LineTable

/-- The lines of a text that starts at byte `start`. There is one more line than newlines, so a
    text that ends in a newline has an empty last line. -/
def linesFrom (start : Nat) (cs : List Char) : List Line :=
  match _h : cs.dropWhile (· ≠ '\n') with
  | [] => [⟨start, cs⟩]
  | nl :: rest =>
    let line := cs.takeWhile (· ≠ '\n') ++ [nl]
    ⟨start, line⟩ :: linesFrom (start + byteSize line) rest
termination_by cs.length
decreasing_by
  have := (List.dropWhile_sublist (p := (· ≠ '\n')) (l := cs)).length_le
  rw [_h, List.length_cons] at this
  omega

def ofChars (cs : List Char) : LineTable := ⟨linesFrom 0 cs, byteSize cs⟩

def ofText (text : String) : LineTable := ofChars text.toList

def lineCount (table : LineTable) : Nat := table.lines.length

/-- How many characters fill the first `bytes` bytes; none if that cuts a character. -/
def charsIn? : (cs : List Char) → (bytes : Nat) → Option Nat
  | _, 0 => some 0
  | [], _ + 1 => none
  | c :: cs, bytes =>
    if c.utf8Size ≤ bytes then (charsIn? cs (bytes - c.utf8Size)).map (· + 1) else none

/-- The place of a byte offset: in the last line that starts at or before it. Offsets past the
    end count as the end; inside a character the column counts bytes. -/
def place (table : LineTable) (offset : Nat) : Place :=
  let offset := min offset table.size
  let reached := table.lines.takeWhile (·.start ≤ offset)
  match reached.getLast? with
  | none => ⟨1, offset + 1⟩
  | some line =>
    let bytes := offset - line.start
    ⟨reached.length, (charsIn? line.chars bytes).getD bytes + 1⟩

end LineTable

end Stencil
