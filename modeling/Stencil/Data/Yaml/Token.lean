import Stencil.Data.Yaml.Text
/-
  YAML text as tokens. Indentation becomes tokens that start and end blocks, and a colon may turn
  what stands before it into a key after the fact, so tokens are also put in front of ones that
  are already there.
-/

namespace Stencil.Yaml

inductive Token where
  /-- The version a document asks for. -/
  | version (major minor : Nat)
  /-- What a tag handle stands for. -/
  | tagHandle (handle start : String)
  | documentStart
  | documentEnd
  | blockSeqStart
  | blockMapStart
  | blockEnd
  | flowSeqStart
  | flowSeqEnd
  | flowMapStart
  | flowMapEnd
  | blockEntry
  | flowEntry
  | key
  | value
  | alias (name : String)
  | anchor (name : String)
  | tag (handle suffix : String)
  | scalar (text : String) (plain : Bool)
deriving DecidableEq, Repr

/-- A place where a key may have begun. -/
structure PossibleKey where
  /-- How many tokens stood before it. -/
  number : Nat
  /-- Nothing but a key can stand there. -/
  required : Bool
  index : Nat
  line : Nat
  column : Nat

structure Scanner where
  cursor : Cursor
  tokens : Array Token := #[]
  /-- Where a key may have begun, for every flow collection that is open, innermost first, and for
      what is around them. -/
  keys : List (Option PossibleKey) := [none]
  /-- The column of the innermost block, below zero outside all blocks. -/
  indent : Int := -1
  /-- The columns of the blocks around it. -/
  outer : List Int := []
  /-- Whether a key may begin here. -/
  keyAllowed : Bool := true

namespace Scanner

def inFlow (s : Scanner) : Bool := 1 < s.keys.length

def emit (s : Scanner) (t : Token) : Scanner := { s with tokens := s.tokens.push t }

/-- Puts a token in front of those from number `n` on. -/
def emitAt (s : Scanner) (n : Nat) (t : Token) : Scanner :=
  { s with tokens := (s.tokens.extract 0 n).push t ++ s.tokens.extract n s.tokens.size }

def allowKey (s : Scanner) (allowed : Bool) : Scanner := { s with keyAllowed := allowed }

def advance (s : Scanner) (n : Nat) : Scanner := { s with cursor := s.cursor.advance n }

/-! ## Possible keys -/

/-- A possible key has to end on its line, within 1024 bytes. -/
def dropStale (s : Scanner) : Option Scanner := do
  let keys ← s.keys.mapM fun
    | none => some none
    | some k =>
      if k.line < s.cursor.line ∨ k.index + 1024 < s.cursor.index then
        if k.required then none else some none
      else some (some k)
  return { s with keys }

/-- Gives up the possible key of this level. -/
def dropKey (s : Scanner) : Option Scanner :=
  match s.keys with
  | some k :: keys => if k.required then none else some { s with keys := none :: keys }
  | _ => some s

/-- Notes that a key may begin here. -/
def noteKey (s : Scanner) : Option Scanner := do
  if s.keyAllowed then
    let required := !s.inFlow && s.indent == s.cursor.column
    let s ← s.dropKey
    let k : PossibleKey :=
      ⟨s.tokens.size, required, s.cursor.index, s.cursor.line, s.cursor.column⟩
    return { s with keys := some k :: s.keys.tail }
  else return s

/-! ## Indentation -/

/-- Starts a block if the column is deeper than the innermost one; its token goes in front of
    number `at?`, or last. -/
def startBlock (s : Scanner) (column : Nat) (at? : Option Nat) (t : Token) : Scanner :=
  if !s.inFlow && s.indent < column then
    let s := { s with outer := s.indent :: s.outer, indent := column }
    match at? with
    | some n => s.emitAt n t
    | none => s.emit t
  else s

/-- The blocks that a column is not in: how many, and those left. -/
def closed (column : Int) : (indent : Int) → (outer : List Int) → Nat × Int × List Int
  | indent, [] => (0, indent, [])
  | indent, o :: outer =>
    if column < indent then
      let (n, rest) := closed column o outer
      (n + 1, rest)
    else (0, indent, o :: outer)

/-- Ends the blocks that a column is not in. -/
def endBlocks (s : Scanner) (column : Int) : Scanner :=
  if s.inFlow then s
  else
    let (n, indent, outer) := closed column s.indent s.outer
    { s with indent, outer, tokens := s.tokens ++ Array.replicate n Token.blockEnd }

/-! ## Gaps between tokens -/

/-- Goes over blanks, comments and line breaks, and over order marks that start lines. A tab may
    not stand where a key may begin. Every round takes a character, so the length of the text is
    fuel enough. -/
def skipGap : (fuel : Nat) → Scanner → Scanner
  | 0, s => s
  | fuel + 1, s =>
    let tabs := s.inFlow || !s.keyAllowed
    let c := s.cursor.skipOrderMark.skipWhile fun x => x == ' ' || (tabs && x == '\t')
    let c := c.skipComment
    match c.rest with
    | x :: _ =>
      if isBreak x then
        skipGap fuel
          { s with cursor := c.takeBreak.2, keyAllowed := s.keyAllowed || !s.inFlow }
      else { s with cursor := c }
    | [] => { s with cursor := c }

/-! ## Directives -/

def word (c : Cursor) : String := String.ofList (c.rest.takeWhile isWord)

/-- One part of a version. -/
def versionPart? (c : Cursor) : Option (Nat × Cursor) :=
  let digits := c.rest.takeWhile Char.isDigit
  if digits.length > 9 then none
  else (Digits.number? 10 digits).map (·, c.advance digits.length)

/-- A tag handle: an exclamation mark, or a name between two. In a directive there is no third
    form. -/
def handle? (inDirective : Bool) (c : Cursor) : Option (String × Cursor) :=
  match c.rest with
  | '!' :: rest =>
    let name := rest.takeWhile isWord
    match rest.dropWhile isWord with
    | '!' :: _ => some ("!" ++ String.ofList name ++ "!", c.advance (name.length + 2))
    | _ =>
      if inDirective && !name.isEmpty then none
      else some ("!" ++ String.ofList name, c.advance (name.length + 1))
  | _ => none

def isUri (verbatim : Bool) (c : Char) : Bool :=
  isWord c || ";/?:@&=+$.%!~*'()".toList.contains c || (verbatim && ",[]".toList.contains c)

/-- The bytes that percent signs with two hex digits each stand for. -/
def percentBytes : List Char → Option (List UInt8)
  | [] => some []
  | '%' :: a :: b :: rest => do
    return UInt8.ofNat (← Digits.number? 16 [a, b]) :: (← percentBytes rest)
  | _ => none

/-- Text in which bytes are written with percent signs. -/
def unescapeUri? : (fuel : Nat) → List Char → Option (List Char)
  | 0, _ => none
  | _ + 1, [] => some []
  | fuel + 1, '%' :: a :: b :: rest => do
    let first ← Digits.number? 16 [a, b]
    let more :=
      if first < 0x80 then 0 else if first < 0xE0 then 1 else if first < 0xF0 then 2 else 3
    let bytes ← percentBytes (('%' :: a :: b :: rest).take (3 * (more + 1)))
    let text ← String.fromUTF8? ⟨bytes.toArray⟩
    if text.length ≠ 1 then none
    return text.toList ++ (← unescapeUri? fuel (rest.drop (3 * more)))
  | fuel + 1, x :: rest => if x = '%' then none else (unescapeUri? fuel rest).map (x :: ·)

/-- The text of a tag, with percent escapes read. -/
def uri? (verbatim : Bool) (c : Cursor) : Option (String × Cursor) := do
  let run := c.rest.takeWhile (isUri verbatim)
  let text ← unescapeUri? (run.length + 1) run
  return (String.ofList text, c.advance run.length)

/-- A directive after its percent sign. -/
def directive? (c : Cursor) : Option (Token × Cursor) := do
  let name := word c
  let c := c.advance name.length
  if !atGap c.rest then none
  let c := c.skipWhile isBlank
  let (t, c) ←
    if name = "YAML" then do
      let (major, c) ← versionPart? c
      if c.rest.head? ≠ some '.' then none
      let (minor, c) ← versionPart? (c.advance 1)
      some (Token.version major minor, c)
    else if name = "TAG" then do
      let (handle, c) ← handle? true c
      if !(c.rest.head?.any isBlank) then none
      let (start, c) ← uri? true (c.skipWhile isBlank)
      if start.isEmpty || !atGap c.rest then none
      some (Token.tagHandle handle start, c)
    else none
  let c := (c.skipWhile isBlank).skipComment
  if !atLineEnd c.rest then none
  return (t, c.takeBreak.2)

/-! ## Names and tags -/

/-- A name after `&` or `*`. -/
def name? (c : Cursor) : Option (String × Cursor) :=
  let name := word c
  let c := c.advance name.length
  if name.isEmpty then none
  else if atGap c.rest || c.rest.head?.any ("?:,]\x7d%@`".toList.contains ·) then some (name, c)
  else none

/-- A tag, from its exclamation mark on. -/
def tag? (inFlow : Bool) (c : Cursor) : Option (Token × Cursor) := do
  let (t, c) ← match c.rest with
    | '!' :: '<' :: _ => do
      let (suffix, c) ← uri? true (c.advance 2)
      if suffix.isEmpty || c.rest.head? ≠ some '>' then none
      some (Token.tag "" suffix, c.advance 1)
    | _ => do
      let (handle, after) ← handle? false c
      if 1 < handle.length && handle.endsWith "!" then do
        let (suffix, c) ← uri? false after
        if suffix.isEmpty then none
        some (Token.tag handle suffix, c)
      else do
        let (suffix, c) ← uri? false after
        let suffix := (handle.drop 1).toString ++ suffix
        some (if suffix.isEmpty then Token.tag "" "!" else Token.tag "!" suffix, c)
  if atGap c.rest || (inFlow && c.rest.head? = some ',') then return (t, c) else none

/-! ## Tokens -/

/-- A token that a single character makes. -/
def mark (s : Scanner) (t : Token) : Scanner := (s.emit t).advance 1

/-- A token that may begin a key, with what follows it on the line. -/
def part (s : Scanner) (read : Scanner → Option (Token × Cursor)) : Option Scanner := do
  let s ← s.noteKey
  let (t, cursor) ← read s
  return { s.emit t with cursor, keyAllowed := false }

/-- A line that belongs to no block. -/
def outside (s : Scanner) : Option Scanner := do
  return (← (s.endBlocks (-1)).dropKey).allowKey false

def blockEntry (s : Scanner) : Option Scanner := do
  if !s.inFlow && !s.keyAllowed then none
  let s := s.startBlock s.cursor.column none .blockSeqStart
  return ((← s.dropKey).allowKey true).mark .blockEntry

def key (s : Scanner) : Option Scanner := do
  if !s.inFlow && !s.keyAllowed then none
  let s := s.startBlock s.cursor.column none .blockMapStart
  let s ← s.dropKey
  return (s.allowKey !s.inFlow).mark .key

/-- A colon. If a key may have begun on this line, it has. -/
def value (s : Scanner) : Option Scanner :=
  match s.keys with
  | some k :: keys =>
    let s := (s.emitAt k.number .key).startBlock k.column (some k.number) .blockMapStart
    some (({ s with keys := none :: keys }.allowKey false).mark .value)
  | _ =>
    if !s.inFlow && !s.keyAllowed then none
    else
      let s := s.startBlock s.cursor.column none .blockMapStart
      some ((s.allowKey !s.inFlow).mark .value)

def openFlow (s : Scanner) (t : Token) : Option Scanner := do
  let s ← s.noteKey
  return ({ s with keys := none :: s.keys }.allowKey true).mark t

def closeFlow (s : Scanner) (t : Token) : Option Scanner := do
  let s ← s.dropKey
  let keys := if s.inFlow then s.keys.tail else s.keys
  return ({ s with keys }.allowKey false).mark t

def flowEntry (s : Scanner) : Option Scanner := do
  return ((← s.dropKey).allowKey true).mark .flowEntry

def block (s : Scanner) (folded : Bool) : Option Scanner := do
  let s ← s.dropKey
  let (text, cursor) ← block? folded s.indent (s.cursor.advance 1)
  return { s.emit (.scalar (String.ofList text) false) with cursor, keyAllowed := true }

def quoted (s : Scanner) (double : Bool) : Option Scanner :=
  s.part fun s => do
    let (text, cursor) ← quoted? double s.cursor.rest.length [] (s.cursor.advance 1)
    return (.scalar (String.ofList text) false, cursor)

def plain (s : Scanner) : Option Scanner := do
  let s ← s.noteKey
  let (text, crossed, cursor) ←
    plain? s.inFlow (s.indent + 1) (s.cursor.rest.length + 1) [] {} s.cursor
  return { s.emit (.scalar (String.ofList text) true) with cursor, keyAllowed := crossed }

/-- The characters that cannot begin plain text, unless some other text follows the first three. -/
def isIndicator (c : Char) : Bool := "-?:,[]\x7b\x7d#&*!|>'\"%@`".toList.contains c

/-- Reads a token at a character that is no blank. -/
def token (s : Scanner) (x : Char) (rest : List Char) : Option Scanner :=
  let free := s.inFlow || atGap rest
  if s.cursor.column == 0 && x == '%' then do
    let s ← s.outside
    let (t, cursor) ← directive? (s.cursor.advance 1)
    return { s.emit t with cursor }
  else if s.cursor.onMarker then do
    return ((← s.outside).emit (if x == '-' then .documentStart else .documentEnd)).advance 3
  else if x == '[' then s.openFlow .flowSeqStart
  else if x == '\x7b' then s.openFlow .flowMapStart
  else if x == ']' then s.closeFlow .flowSeqEnd
  else if x == '\x7d' then s.closeFlow .flowMapEnd
  else if x == ',' then s.flowEntry
  else if x == '-' && atGap rest then s.blockEntry
  else if x == '?' && free then s.key
  else if x == ':' && free then s.value
  else if x == '*' then s.part fun s => (name? (s.cursor.advance 1)).map fun (n, c) => (.alias n, c)
  else if x == '&' then
    s.part fun s => (name? (s.cursor.advance 1)).map fun (n, c) => (.anchor n, c)
  else if x == '!' then s.part fun s => tag? s.inFlow s.cursor
  else if x == '|' && !s.inFlow then s.block false
  else if x == '>' && !s.inFlow then s.block true
  else if x == '\'' then s.quoted false
  else if x == '"' then s.quoted true
  else if (!isIndicator x && !isBlank x) || (x == '-' && !(rest.head?.any isBlank)) ||
      (!s.inFlow && (x == '?' || x == ':') && !atGap rest) then s.plain
  else none

/-- The end of the text ends its line and every block. -/
def finish (s : Scanner) : Option (Array Token) := do
  return (← (s.endBlocks (-1)).dropKey).tokens

/-- Reads all tokens. Every round takes a character, so the length of the text is fuel enough. -/
def run : (fuel : Nat) → Scanner → Option (Array Token)
  | 0, _ => none
  | fuel + 1, s => do
    let s ← (s.skipGap (s.cursor.rest.length + 1)).dropStale
    let s := s.endBlocks s.cursor.column
    match s.cursor.rest with
    | [] => s.finish
    | x :: rest => run fuel (← s.token x rest)

end Scanner

/-- The tokens of a text. -/
def Token.ofText? (text : String) : Option (List Token) :=
  let cs := text.toList
  if cs.all isAllowed then
    (Scanner.run (cs.length + 1) { cursor := .start cs }).map Array.toList
  else none

end Stencil.Yaml
