import Stencil.Text.Alphanumeric
import Stencil.Text.Blank
import Stencil.Text.Digits
/-
  Patterns for text. Of the ways in which a pattern can take characters from a text one is
  preferred, and the pattern fits a text if that way takes all there is up to the end.
-/

namespace Stencil.Log

/-! ## Classes of characters -/

inductive CharClass where
  | nothing
  /-- All characters from one to another. -/
  | range (low high : Char)
  | digit
  | space
  | word
  | union (a b : CharClass)
  | complement (a : CharClass)
deriving DecidableEq, Repr

namespace CharClass

def one (c : Char) : CharClass := range c c

/-- All characters but the newline. -/
def anyInLine : CharClass := complement (one '\n')

def contains : CharClass → Char → Bool
  | nothing, _ => false
  | range low high, c => low ≤ c && c ≤ high
  | digit, c => c.isDigit
  | space, c => Text.isBlank c
  | word, c => Text.isAlphanumeric c || c == '_'
  | union a b, c => a.contains c || b.contains c
  | complement a, c => !a.contains c

/-- The union of some classes. -/
def ofList (cs : List CharClass) : CharClass := cs.foldr union nothing

/-- A class that has a name. -/
def named? (name : String) : Option CharClass :=
  let lower := range 'a' 'z'
  let upper := range 'A' 'Z'
  let digits := range '0' '9'
  let letters := union lower upper
  [("alnum", union letters digits), ("alpha", letters), ("ascii", range '\x00' '\x7f'),
    ("blank", union (one ' ') (one '\t')), ("cntrl", union (range '\x00' '\x1f') (one '\x7f')),
    ("digit", digits), ("graph", range '!' '~'), ("lower", lower), ("print", range ' ' '~'),
    ("punct", ofList [range '!' '/', range ':' '@', range '[' '\x60', range '\x7b' '~']),
    ("space", union (range '\t' '\r') (one ' ')), ("upper", upper),
    ("word", ofList [letters, digits, one '_']),
    ("xdigit", ofList [digits, range 'a' 'f', range 'A' 'F'])].lookup name

end CharClass

/-! ## Patterns -/

inductive Pattern where
  /-- Takes nothing. -/
  | empty
  /-- Takes nothing, at the start of the text. -/
  | atStart
  /-- Takes nothing, at the end of the text. -/
  | atEnd
  | char (cs : CharClass)
  | seq (p q : Pattern)
  /-- Prefers the first of two patterns. -/
  | either (p q : Pattern)
  /-- Repeats a pattern, as often as it can or, if it is not greedy, as seldom. -/
  | many (greedy : Bool) (p : Pattern)
deriving DecidableEq, Repr

namespace Pattern

def optional (greedy : Bool) (p : Pattern) : Pattern :=
  if greedy then either p empty else either empty p

/-! ## Fitting -/

/-- What can be left after rounds of a step that take something, the preferred first. -/
def rounds (step : List Char → List (List Char)) (greedy : Bool) :
    (fuel : Nat) → List Char → List (List Char)
  | 0, cs => [cs]
  | fuel + 1, cs =>
    let more := ((step cs).filter (·.length < cs.length)).flatMap (rounds step greedy fuel)
    (if greedy then more ++ [cs] else cs :: more).eraseDups

/-- What can be left after a pattern has taken the start of what there is, the preferred first;
    the whole text has `size` characters. Only the first of two equal rests counts. -/
def rests (size : Nat) : Pattern → List Char → List (List Char)
  | empty, cs => [cs]
  | atStart, cs => if cs.length = size then [cs] else []
  | atEnd, cs => if cs.isEmpty then [cs] else []
  | char _, [] => []
  | char k, c :: cs => if k.contains c then [cs] else []
  | seq p q, cs => ((p.rests size cs).flatMap (q.rests size)).eraseDups
  | either p q, cs => (p.rests size cs ++ q.rests size cs).eraseDups
  | many greedy p, cs => rounds (p.rests size) greedy (cs.length + 1) cs

/-- The preferred rest at the first place where the pattern can begin. -/
def rest? (p : Pattern) (size : Nat) : List Char → Option (List Char)
  | [] => (p.rests size []).head?
  | c :: cs => (p.rests size (c :: cs)).head?.or (p.rest? size cs)

/-- Whether the pattern fits a text. It may begin anywhere. -/
def fits (p : Pattern) (text : String) : Bool :=
  p.rest? text.length text.toList == some []

/-! ## Reading -/

/-- A character of a number in base sixteen that has some digits. -/
def numbered? (digits : Nat) (cs : List Char) : Option (Char × List Char) := do
  let (n, rest) ← Digits.fixed? 16 digits cs
  return (← Digits.char? n, rest)

/-- The character of an escape, after its backslash. -/
def escaped? : List Char → Option (Char × List Char)
  | [] => none
  | c :: rest =>
    match c with
    | 'n' => some ('\n', rest)
    | 't' => some ('\t', rest)
    | 'r' => some ('\r', rest)
    | 'a' => some ('\x07', rest)
    | 'f' => some ('\x0c', rest)
    | 'v' => some ('\x0b', rest)
    | 'x' => numbered? 2 rest
    | 'u' => numbered? 4 rest
    | 'U' => numbered? 8 rest
    | c =>
      if 0x7F ≤ c.toNat || c.isAlphanum || c == '<' || c == '>' || c.toNat < 0x20 then none
      else some (c, rest)

/-- The class of an escape that names one. -/
def escapedClass? (c : Char) : Option CharClass :=
  match c with
  | 'd' => some .digit
  | 'D' => some (.complement .digit)
  | 's' => some .space
  | 'S' => some (.complement .space)
  | 'w' => some .word
  | 'W' => some (.complement .word)
  | _ => none

/-- One part of a class: a character, or a class with a name. -/
def classPart? (cs : List Char) : Option ((Char ⊕ CharClass) × List Char) :=
  match cs with
  | '\\' :: c :: rest =>
    match escapedClass? c with
    | some k => some (.inr k, rest)
    | none => (escaped? (c :: rest)).map fun (c, rest) => (.inl c, rest)
  | '[' :: ':' :: rest =>
    let negated := rest.head? == some '^'
    let rest := if negated then rest.drop 1 else rest
    match CharClass.named? (String.ofList (rest.takeWhile (· != ':'))),
        rest.dropWhile (· != ':') with
    | some k, ':' :: ']' :: rest => some (.inr (if negated then .complement k else k), rest)
    | _, _ => none
  | c :: rest => if c == '\\' || c == '[' then none else some (.inl c, rest)
  | [] => none

/-- The parts of a class up to its end. A hyphen between two characters makes a range. Every round
    takes a character, so the length of the text is fuel enough. -/
def classParts? : (fuel : Nat) → (done : List CharClass) → List Char →
    Option (List CharClass × List Char)
  | 0, _, _ => none
  | fuel + 1, done, cs =>
    match cs with
    | ']' :: rest => some (done, rest)
    | '&' :: '&' :: _ | '-' :: '-' :: _ | '~' :: '~' :: _ => none
    | cs => do
      let (first, rest) ← classPart? cs
      match first, rest with
      | _, '-' :: ']' :: _ | _, '-' :: '-' :: _ =>
        classParts? fuel (first.elim .one id :: done) rest
      | .inl low, '-' :: rest => do
        let (.inl high, rest) ← classPart? rest | none
        if high < low then none
        classParts? fuel (.range low high :: done) rest
      | .inr _, '-' :: _ => none
      | first, rest => classParts? fuel (first.elim .one id :: done) rest

/-- A class after its opening bracket. A closing bracket or hyphens that come first are
    characters of it. -/
def charClass? (cs : List Char) : Option (CharClass × List Char) := do
  let negated := cs.head? == some '^'
  let cs := if negated then cs.drop 1 else cs
  let hyphens := cs.takeWhile (· == '-')
  let cs := cs.drop hyphens.length
  let first := hyphens.map CharClass.one
  let (parts, rest) ← match cs with
    | ']' :: rest =>
      if hyphens.isEmpty then classParts? cs.length [.one ']'] rest
      else classParts? (cs.length + 1) first cs
    | cs => classParts? (cs.length + 1) first cs
  let k := CharClass.ofList parts
  return (if negated then .complement k else k, rest)

/-- Repetition marks after a pattern; a question mark after one makes it prefer less. -/
def repeated (p : Pattern) : List Char → Pattern × List Char
  | '*' :: '?' :: rest => repeated (many false p) rest
  | '*' :: rest => repeated (many true p) rest
  | '+' :: '?' :: rest => repeated (seq p (many false p)) rest
  | '+' :: rest => repeated (seq p (many true p)) rest
  | '?' :: '?' :: rest => repeated (optional false p) rest
  | '?' :: rest => repeated (optional true p) rest
  | rest => (p, rest)

/-- What follows the opening of a group that has no name or a name. -/
def groupBody? (cs : List Char) : Option (List Char) :=
  let afterName (cs : List Char) : Option (List Char) :=
    let name := cs.takeWhile fun c => c.isAlphanum || c == '_'
    match cs.drop name.length with
    | '>' :: rest => if name.head?.any (!·.isDigit) then some rest else none
    | _ => none
  match cs with
  | '?' :: ':' :: rest => some rest
  | '?' :: 'P' :: '<' :: rest => afterName rest
  | '?' :: '<' :: rest => afterName rest
  | '?' :: _ => none
  | cs => some cs

mutual

/-- Patterns with bars between them. At most three calls are made for a character, so three times
    the length of the text is fuel enough. -/
def choice? : (fuel : Nat) → List Char → Option (Pattern × List Char)
  | 0, _ => none
  | fuel + 1, cs => do
    let (p, rest) ← series? fuel cs
    match rest with
    | '|' :: rest => do
      let (q, rest) ← choice? fuel rest
      return (either p q, rest)
    | rest => return (p, rest)

/-- Patterns one after another. -/
def series? : (fuel : Nat) → List Char → Option (Pattern × List Char)
  | 0, _ => none
  | fuel + 1, cs =>
    match cs with
    | [] | '|' :: _ | ')' :: _ => some (empty, cs)
    | cs => do
      let (p, rest) ← single? fuel cs
      let (p, rest) := repeated p rest
      let (q, rest) ← series? fuel rest
      return (seq p q, rest)

/-- A pattern that repetition marks can follow. -/
def single? : (fuel : Nat) → List Char → Option (Pattern × List Char)
  | 0, _ => none
  | fuel + 1, cs =>
    match cs with
    | [] | '*' :: _ | '+' :: _ | '?' :: _ | '\x7b' :: _ => none
    | '(' :: rest => do
      let (p, rest) ← choice? fuel (← groupBody? rest)
      let ')' :: rest := rest | none
      return (p, rest)
    | '[' :: rest => (charClass? rest).map fun (k, rest) => (char k, rest)
    | '.' :: rest => some (char .anyInLine, rest)
    | '^' :: rest | '\\' :: 'A' :: rest => some (atStart, rest)
    | '$' :: rest | '\\' :: 'z' :: rest => some (atEnd, rest)
    | '\\' :: c :: rest =>
      match escapedClass? c with
      | some k => some (char k, rest)
      | none => (escaped? (c :: rest)).map fun (c, rest) => (char (.one c), rest)
    | c :: rest => if c == '\\' then none else some (char (.one c), rest)

end

/-- Reads a pattern. -/
def ofText? (text : String) : Option Pattern :=
  match choice? (3 * text.length + 3) text.toList with
  | some (p, []) => some p
  | _ => none

end Pattern

end Stencil.Log
