import Stencil.Data.Yaml.Cursor
import Stencil.Text.Digits
/-
  The text of YAML scalars in their four styles. Every reader takes the cursor at the first
  character of the scalar, or after its opening quote, and gives the cursor after it.
-/

namespace Stencil.Yaml

/-! ## Quoted -/

/-- The character of an escape, and how many characters after the backslash write it. -/
def escape? : List Char → Option (Char × Nat)
  | '0' :: _ => some ('\x00', 1)
  | 'a' :: _ => some ('\x07', 1)
  | 'b' :: _ => some ('\x08', 1)
  | 't' :: _ | '\t' :: _ => some ('\t', 1)
  | 'n' :: _ => some ('\n', 1)
  | 'v' :: _ => some ('\x0b', 1)
  | 'f' :: _ => some ('\x0c', 1)
  | 'r' :: _ => some ('\r', 1)
  | 'e' :: _ => some ('\x1b', 1)
  | ' ' :: _ => some (' ', 1)
  | '"' :: _ => some ('"', 1)
  | '/' :: _ => some ('/', 1)
  | '\\' :: _ => some ('\\', 1)
  | 'N' :: _ => some ('\u0085', 1)
  | '_' :: _ => some ('\u00A0', 1)
  | 'L' :: _ => some ('\u2028', 1)
  | 'P' :: _ => some ('\u2029', 1)
  | 'x' :: cs => numeric 2 cs
  | 'u' :: cs => numeric 4 cs
  | 'U' :: cs => numeric 8 cs
  | _ => none
where
  numeric (digits : Nat) (cs : List Char) : Option (Char × Nat) := do
    let (n, _) ← Digits.fixed? 16 digits cs
    return (← Digits.char? n, digits + 1)

/-- Text between single quotes, where a quote is written twice, or between double quotes, with
    escapes. `done` is what is read, last character first. Every round takes a character, so the
    length of the text is fuel enough. -/
def quoted? (double : Bool) : (fuel : Nat) → (done : List Char) → Cursor →
    Option (List Char × Cursor)
  | 0, _, _ => none
  | fuel + 1, done, c =>
    let gap (g : Gap) (c : Cursor) : Option (List Char × Cursor) :=
      (Gap.take 0 (c.rest.length + 1) g c).bind fun (g, c) =>
        quoted? double fuel (g.text.reverse ++ done) c
    if c.onMarker then none
    else match c.rest with
      | [] => none
      | x :: rest =>
        if isBlank x || isBreak x then gap {} c
        else if double then
          if x == '"' then some (done.reverse, c.advance 1)
          else if x == '\\' then
            if !rest.isEmpty && atLineEnd rest then
              gap { crossed := true } (c.advance 1).takeBreak.2
            else match escape? rest with
              | some (e, n) => quoted? double fuel (e :: done) (c.advance (n + 1))
              | none => none
          else quoted? double fuel (x :: done) (c.advance 1)
        else if x == '\'' then
          match rest with
          | '\'' :: _ => quoted? double fuel ('\'' :: done) (c.advance 2)
          | _ => some (done.reverse, c.advance 1)
        else quoted? double fuel (x :: done) (c.advance 1)

/-! ## Plain -/

/-- The characters that structure flow collections. -/
def isFlowMark (c : Char) : Bool :=
  c == ',' || c == '[' || c == ']' || c == '\x7b' || c == '\x7d'

/-- A run of plain text up to a blank or to what ends the scalar; none if a colon stands in a flow
    collection where nothing can follow it. -/
def plainRun? (inFlow : Bool) : List Char → Option (List Char)
  | [] => some []
  | x :: rest =>
    if isBlank x || isBreak x then some []
    else if inFlow && x == ':' && (rest.head?.any fun y => isFlowMark y || y == '?') then none
    else if (x == ':' && atGap rest) || (inFlow && isFlowMark x) then some []
    else (plainRun? inFlow rest).map (x :: ·)

/-- Text without quotes. `indent` is the least column of its later lines in block context, and
    `gap` what lies before the cursor and is not yet part of the text. Also says whether the text
    was followed by the end of a line. -/
def plain? (inFlow : Bool) (indent : Int) : (fuel : Nat) → (done : List Char) → Gap → Cursor →
    Option (List Char × Bool × Cursor)
  | 0, _, _, _ => none
  | fuel + 1, done, gap, c =>
    if c.onMarker || c.rest.head? == some '#' then some (done, gap.crossed, c)
    else do
      let run ← plainRun? inFlow c.rest
      if run.isEmpty then return (done, gap.crossed, c)
      let done := done ++ gap.text ++ run
      let c := c.advance run.length
      if c.rest.isEmpty || !atGap c.rest then return (done, false, c)
      let (gap, c) ← Gap.take indent (c.rest.length + 1) {} c
      if !inFlow && c.column < indent then return (done, gap.crossed, c)
      plain? inFlow indent fuel done gap c

/-! ## Block -/

/-- What happens to the line breaks at the end of a block scalar. -/
inductive Chomping where
  | clip
  | strip
  | keep
deriving DecidableEq

/-- The indicators after `|` or `>`: how to end, and the indentation if it is given. -/
def blockHeader? (cs : List Char) : Option (Chomping × Nat × Nat) :=
  let sign : Char → Option Chomping
    | '+' => some .keep
    | '-' => some .strip
    | _ => none
  let width (x : Char) : Option Nat := (Digits.decimal? x).filter (· ≠ 0)
  match cs with
  | x :: y :: _ =>
    match sign x with
    | some how =>
      if y.isDigit then (width y).map (how, ·, 2) else some (how, 0, 1)
    | none =>
      if x.isDigit then
        (width x).map fun w =>
          match sign y with
          | some how => (how, w, 2)
          | none => (.clip, w, 1)
      else some (.clip, 0, 0)
  | [x] =>
    match sign x with
    | some how => some (how, 0, 1)
    | none => if x.isDigit then (width x).map (.clip, ·, 1) else some (.clip, 0, 0)
  | [] => some (.clip, 0, 0)

/-- Takes empty lines and the indentation of the next one, which is at most `indent` unless that is
    unknown, zero. Gives the breaks and the largest indentation seen. -/
def emptyLines? (indent : Nat) : (fuel : Nat) → (most : Nat) → (breaks : List Char) → Cursor →
    Option (List Char × Nat × Cursor)
  | 0, most, breaks, c => some (breaks, most, c)
  | fuel + 1, most, breaks, c =>
    let spaces := (c.rest.takeWhile (· == ' ')).length
    let c := c.advance (if indent = 0 then spaces else min spaces (indent - c.column))
    let most := max most c.column
    match c.rest with
    | x :: _ =>
      if (indent = 0 ∨ c.column < indent) ∧ x = '\t' then none
      else if isBreak x then
        let (b, c) := c.takeBreak
        emptyLines? indent fuel most (breaks ++ b) c
      else some (breaks, most, c)
    | [] => some (breaks, most, c)

/-- The lines of a block scalar. `lead` is the break after the last line, `breaks` are those of the
    empty lines after it, and `afterBlank` says that it began with a blank: lines around such a
    one are not folded. Ends with the text and the two kinds of breaks at its end. -/
def blockLines? (folded : Bool) (indent : Nat) : (fuel : Nat) → (done lead breaks : List Char) →
    (afterBlank : Bool) → Cursor → Option (List Char × List Char × List Char × Cursor)
  | 0, _, _, _, _, _ => none
  | fuel + 1, done, lead, breaks, afterBlank, c =>
    if c.column ≠ indent ∨ c.rest.isEmpty then some (done, lead, breaks, c)
    else
      let blank := c.rest.head?.any isBlank
      let joined :=
        if folded && lead == ['\n'] && !afterBlank && !blank then
          if breaks.isEmpty then [' '] else breaks
        else lead ++ breaks
      let line := c.rest.takeWhile (!isBreak ·)
      let (lead, c) := (c.advance line.length).takeBreak
      (emptyLines? indent (c.rest.length + 1) 0 [] c).bind fun (breaks, _, c) =>
        blockLines? folded indent fuel (done ++ joined ++ line) lead breaks blank c

/-- A block scalar after its indicator. `parent` is the column of the block that holds it. -/
def block? (folded : Bool) (parent : Int) (c : Cursor) : Option (List Char × Cursor) := do
  let (chomping, width, size) ← blockHeader? c.rest
  let c := ((c.advance size).skipWhile isBlank).skipComment
  if !atLineEnd c.rest then none
  let (_, c) := c.takeBreak
  let given := if width = 0 then 0 else (max parent 0).toNat + width
  let (breaks, most, c) ← emptyLines? given (c.rest.length + 1) 0 [] c
  let indent := if given = 0 then max (max most (parent + 1).toNat) 1 else given
  let (text, lead, breaks, c) ←
    blockLines? folded indent (c.rest.length + 1) [] [] breaks false c
  let ending := match chomping with
    | .strip => []
    | .clip => lead
    | .keep => lead ++ breaks
  return (text ++ ending, c)

end Stencil.Yaml
