import Stencil.Log.Event
import Stencil.Log.Pattern
/-
  Which events are told. A filter is a list of directives, `target[span{field=value}]=level`, of
  which every part may be missing. A directive without a span is about events themselves, those
  that have the field; one that names a span, or a field of it, is about all events within.
-/

namespace Stencil.Log

/-! ## Directives -/

/-- What the value of a field has to be. -/
inductive Wanted where
  /-- A number or a truth value; the fields of spans are text, and never that. -/
  | nonText
  | fitting (source : String) (pattern : Pattern)
deriving DecidableEq, Repr

namespace Wanted

/-- Whether some characters write a number that may have a point and an exponent. -/
def isNumber (cs : List Char) : Bool :=
  let unsigned (cs : List Char) := match cs with
    | '+' :: rest | '-' :: rest => rest
    | cs => cs
  let cs := unsigned cs
  let whole := cs.takeWhile Char.isDigit
  let (places, rest) := match cs.dropWhile Char.isDigit with
    | '.' :: rest => (rest.takeWhile Char.isDigit, rest.dropWhile Char.isDigit)
    | rest => ([], rest)
  let exponent := match rest with
    | [] => true
    | e :: rest =>
      (e == 'e' || e == 'E') && !(unsigned rest).isEmpty && (unsigned rest).all Char.isDigit
  ["inf", "infinity", "nan"].contains (String.ofList (cs.map Char.toLower)) ||
    (!(whole ++ places).isEmpty && exponent)

def ofText? (text : String) : Option Wanted :=
  if text = "true" ∨ text = "false" ∨ isNumber text.toList then some nonText
  else (Pattern.ofText? text).map (fitting text)

def accepts (w : Wanted) (value : String) : Bool :=
  match w with
  | nonText => false
  | fitting _ pattern => pattern.fits value

end Wanted

/-- A field that has to be there, and what its value has to be if that matters. -/
structure FieldTest where
  name : String
  wanted : Option Wanted
deriving DecidableEq, Repr

/-- Allows events up to a rank. -/
structure Directive where
  /-- How the target of an event, or of the span around it, has to start. -/
  target : String
  span : Option String := none
  field : Option FieldTest := none
  rank : Nat
deriving DecidableEq, Repr

/-- Why a directive cannot be read. -/
inductive DirectiveFault where
  | malformed
  /-- One of its parts would begin or end inside a character. -/
  | splitCharacter
deriving DecidableEq, Repr

namespace Directive

/-- Whether two directives cannot stand beside each other. -/
def aboutSame (d e : Directive) : Bool :=
  d.target == e.target && d.span == e.span && d.field == e.field

/-- The rank that a word asks for: the name of a level, or its number. -/
def rankOf? (word : List Char) : Option Nat :=
  let digits := match word with
    | '+' :: rest => rest
    | cs => cs
  match Digits.number? 10 digits with
  | some n => if n ≤ 5 then some n else none
  | none =>
    let word := (String.ofList word).map Char.toLower
    if word = "off" then some 0
    else if word = "" then some Level.error.rank
    else (Level.all.find? (·.name = word)).map Level.rank

/-! ### Reading

The parts of a directive are found in its text without the blanks around it, and cut at the same
byte offsets out of its text with them. So blanks in front shift all parts, and may make a cut
meet the inside of a character.
-/

/-- The text after some bytes. -/
def dropBytes? : (bytes : Nat) → List Char → Option (List Char)
  | 0, cs => some cs
  | _ + 1, [] => none
  | bytes + 1, c :: cs =>
    if c.utf8Size ≤ bytes + 1 then dropBytes? (bytes + 1 - c.utf8Size) cs else none

/-- The first characters, which take some bytes. -/
def takeBytes? : (bytes : Nat) → List Char → Option (List Char)
  | 0, _ => some []
  | _ + 1, [] => none
  | bytes + 1, c :: cs =>
    if c.utf8Size ≤ bytes + 1 then (takeBytes? (bytes + 1 - c.utf8Size) cs).map (c :: ·) else none

def cutFrom (cs : List Char) (start : Nat) : Except DirectiveFault (List Char) :=
  (dropBytes? start cs).elim (.error .splitCharacter) .ok

def cut (cs : List Char) (start size : Nat) : Except DirectiveFault String := do
  ((takeBytes? size (← cutFrom cs start)).map String.ofList).elim (.error .splitCharacter) .ok

/-- The rank in the text from an offset on, where no text asks for everything. -/
def rankFrom (cs : List Char) (start : Nat) : Except DirectiveFault Nat := do
  let word ← cutFrom cs start
  if word.isEmpty then return Level.trace.rank
  else (rankOf? word).elim (.error .malformed) .ok

/-- A field with or without a value; what follows a second equals sign does not count. -/
def fieldTest? (text : String) : Option FieldTest :=
  match text.splitOn "=" with
  | [] | [""] => none
  | [name] => some ⟨name, none⟩
  | name :: value :: _ => (Wanted.ofText? value).map fun w => ⟨name, some w⟩

/-- The characters that may start a target. -/
def startsTarget (c : Char) : Bool := Text.isAlphanumeric c || c == '-' || c == ':' || c == '_'

/-- What is left after the bracket that closes a span: nothing, or a level. -/
def rankAfterSpan (cs : List Char) (rest : List Char) (offset : Nat) :
    Except DirectiveFault Nat :=
  match rest with
  | [] => .ok Level.trace.rank
  | '=' :: _ => rankFrom cs (offset + 1)
  | _ => .error .malformed

/-- The parts from inside the bracket on, which is followed by `rest` and stands before
    `offset`. -/
def ofBracket (cs : List Char) (target : String) (rest : List Char) (offset : Nat) :
    Except DirectiveFault Directive := do
  let name := rest.takeWhile fun c => c != ']' && c != '\x7b'
  let stop := offset + Text.byteSize name
  match rest.drop name.length with
  | ']' :: rest =>
    let span ← cut cs offset (Text.byteSize name)
    return { target, span := some span, rank := ← rankAfterSpan cs rest (stop + 1) }
  | '\x7b' :: rest =>
    let span ← cut cs offset (Text.byteSize name)
    let inner := rest.takeWhile (· != '\x7d')
    let size := Text.byteSize inner
    let '\x7d' :: rest := rest.drop inner.length | .error .malformed
    let some field := fieldTest? (← cut cs (stop + 1) size) | .error .malformed
    let ']' :: rest := rest | .error .malformed
    let rank ← rankAfterSpan cs rest (stop + size + 3)
    return { target, span := if span.isEmpty then none else some span, field := some field, rank }
  | _ => .error .malformed

/-- Reads a directive. A lone word is a level or, if it is none, a target. -/
def ofText (cs : List Char) : Except DirectiveFault Directive := do
  let trimmed := Text.trim cs
  let head := trimmed.takeWhile fun c => c != '=' && c != '['
  let size := Text.byteSize head
  let startsWell := match head with
    | c :: _ => startsTarget c
    | [] => trimmed.head? == some '['
  if !startsWell then .error .malformed
  match trimmed.drop head.length with
  | '=' :: _ =>
    let target ← cut cs 0 size
    return { target, rank := ← rankFrom cs (size + 1) }
  | _ :: rest => ofBracket cs (← cut cs 0 size) rest (size + 1)
  | [] =>
    match rankOf? cs with
    | some rank => return { target := "", rank }
    | none => return { target := String.ofList cs, rank := Level.trace.rank }

/-! ### Deciding -/

def fitsTarget (d : Directive) (source : Source) : Bool :=
  d.target.toList.isPrefixOf source.target.toList

/-- Whether the directive decides about events by what they are. -/
def isAboutEvents (d : Directive) : Bool :=
  d.span.isNone && d.field.all (·.wanted.isNone)

/-- Whether the directive decides about events by the span that they are within. -/
def isAboutSpans (d : Directive) : Bool := d.span.isSome || d.field.isSome

/-- Whether the directive decides about the events within a span, given that its field has the
    right value. -/
def namesSpan (d : Directive) (s : Span) : Bool :=
  d.isAboutSpans && d.fitsTarget Span.source && d.span.all (· == s.name) &&
    d.field.all fun f => s.fields.any (·.1 == f.name)

def acceptsSpan (d : Directive) (s : Span) : Bool :=
  d.field.all fun f => f.wanted.all fun w => (s.fields.lookup f.name).any w.accepts

/-- Whether one of two directives about an event comes first: the one with the longer target, and
    then the one with a field. -/
def precedes (d e : Directive) : Bool :=
  if d.target.length = e.target.length then
    match d.field, e.field with
    | some x, some y => y.name ≤ x.name
    | none, some _ => false
    | _, none => true
  else e.target.length < d.target.length

end Directive

/-! ## Filters -/

/-- No two directives are about the same. -/
structure Filter where
  directives : List Directive
deriving DecidableEq, Repr

namespace Filter

/-- Adds a directive in place of the one about the same. -/
def add (f : Filter) (d : Directive) : Filter := ⟨f.directives.filter (!·.aboutSame d) ++ [d]⟩

/-- Everything up to a level, from everywhere. -/
def upTo (level : Level) : Filter := ⟨[{ target := "", rank := level.rank }]⟩

/-- The words between the commas. -/
def parts (cs : List Char) : List (List Char) :=
  cs.foldr
    (fun c ps => match c, ps with
      | ',', ps => [] :: ps
      | c, p :: ps => (c :: p) :: ps
      | c, [] => [[c]])
    [[]]

/-- Reads a filter. Without a directive it allows errors only; one that cannot be read makes it
    the filter of a program that was given none. There is no filter if a character is split. -/
def ofText? (text : String) : Option Filter :=
  match ((parts text.toList).filter (!·.isEmpty)).mapM Directive.ofText with
  | .error .splitCharacter => none
  | .error .malformed => some (upTo .warn)
  | .ok [] => some (upTo .error)
  | .ok ds => some (ds.foldl add ⟨[]⟩)

/-- The filter of a run: talkative, as given, or warnings only. -/
def choose? (verbose : Bool) (given : Option String) : Option Filter :=
  if verbose then some (upTo .debug)
  else match given with
    | some text => ofText? text
    | none => some (upTo .warn)

/-- What the directives about events allow from a source: the first that fits decides. Of its
    field it is asked whether it is there. -/
def rankOf (f : Filter) (source : Source) (hasField : String → Bool) : Nat :=
  let fitting := f.directives.filter fun d =>
    d.isAboutEvents && d.fitsTarget source && d.field.all (hasField ·.name)
  ((fitting.mergeSort Directive.precedes).head?.map (·.rank)).getD 0

/-- What is allowed within a span, if a directive names it. -/
def rankWithin? (f : Filter) (span : Span) : Option Nat :=
  match f.directives.filter (·.namesSpan span) with
  | [] => none
  | naming => some (((naming.filter (·.acceptsSpan span)).map (·.rank)).max?.getD 0)

/-- Whether a span is kept track of. No field is asked for where directives about events decide
    about a span. -/
def keeps (f : Filter) (span : Span) : Bool :=
  Span.level.rank ≤ f.rankOf Span.source (fun _ => true) || (f.rankWithin? span).isSome

def allows (f : Filter) (e : Event) : Bool :=
  e.level.rank ≤ f.rankOf e.source e.hasField ||
    (e.span.bind f.rankWithin?).any (e.level.rank ≤ ·)

/-- The line that tells an event, if it is told. -/
def line? (f : Filter) (e : Event) : Option String :=
  if f.allows e then
    let within := match e.span.filter f.keeps with
      | some span => span.text ++ ": "
      | none => ""
    some (e.level.name.map Char.toUpper ++ " " ++ within ++ e.text)
  else none

end Filter

end Stencil.Log
