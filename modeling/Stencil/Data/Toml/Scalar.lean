import Stencil.Data.Toml.Basic
/-
  Strings, numbers and the other single values of TOML.
-/

namespace Stencil.Toml

/-- A character that may stand in a comment, and unescaped in a string: a tab, or no control
    character. -/
def isPlain (c : Char) : Bool := c == '\t' || (0x20 ≤ c.toNat && c.toNat != 0x7F)

def isSpace (c : Char) : Bool := c == ' ' || c == '\t'

def skipSpace (cs : List Char) : List Char := cs.dropWhile isSpace

/-! ## Strings -/

/-- The character an escape stands for, and how many characters after the backslash write it. -/
def escape? : List Char → Option (Char × Nat)
  | 'b' :: _ => some ('\x08', 1)
  | 't' :: _ => some ('\t', 1)
  | 'n' :: _ => some ('\n', 1)
  | 'f' :: _ => some ('\x0c', 1)
  | 'r' :: _ => some ('\r', 1)
  | 'e' :: _ => some ('\x1b', 1)
  | '"' :: _ => some ('"', 1)
  | '\\' :: _ => some ('\\', 1)
  | 'x' :: cs => numeric 2 cs
  | 'u' :: cs => numeric 4 cs
  | 'U' :: cs => numeric 8 cs
  | _ => none
where
  numeric (digits : Nat) (cs : List Char) : Option (Char × Nat) := do
    let (n, _) ← Digits.fixed? 16 digits cs
    return (← Digits.char? n, digits + 1)

/-- A string on one line after its opening quote; `done` is what is read, last character first. -/
def basic? (done : List Char) : List Char → Option (String × List Char)
  | [] => none
  | '"' :: rest => some (String.ofList done.reverse, rest)
  | '\\' :: rest =>
    match escape? rest with
    | some (c, n) => basic? (c :: done) (rest.drop n)
    | none => none
  | c :: rest => if isPlain c then basic? (c :: done) rest else none
termination_by cs => cs.length
decreasing_by
  · simp only [List.length_drop, List.length_cons]; omega
  · exact Nat.lt_succ_self _

def literal? (cs : List Char) : Option (String × List Char) :=
  let text := cs.takeWhile fun c => isPlain c && c != '\''
  match cs.dropWhile fun c => isPlain c && c != '\'' with
  | '\'' :: rest => some (String.ofList text, rest)
  | _ => none

/-- A newline right after the opening quotes is not part of a string. -/
def skipFirstNewline : List Char → List Char
  | '\n' :: rest => rest
  | '\r' :: '\n' :: rest => rest
  | cs => cs

/-- What follows a backslash at the end of a line: the first text of a later line. -/
def continued? (cs : List Char) : Option (List Char) :=
  match skipSpace cs with
  | '\n' :: rest | '\r' :: '\n' :: rest => some (skipBlank rest)
  | _ => none
where
  skipBlank : List Char → List Char
    | '\r' :: '\n' :: rest => skipBlank rest
    | c :: rest => if isSpace c || c == '\n' then skipBlank rest else c :: rest
    | [] => []

/-- How many quotes close a string of several lines and how many before them belong to it: a run
    of quotes closes it from three on, and at most five of them count. -/
def closing? (quote : Char) (cs : List Char) : Option (List Char × List Char) :=
  let run := min 5 (cs.takeWhile (· == quote)).length
  if 3 ≤ run then some (List.replicate (run - 3) quote, cs.drop run) else none

/-- A string of several lines after its opening quotes. Every round takes a character, so the
    length of the text is fuel enough. -/
def multiline? (quote : Char) (escapes : Bool) :
    (fuel : Nat) → (done : List Char) → List Char → Option (String × List Char)
  | 0, _, _ => none
  | fuel + 1, done, cs =>
    match closing? quote cs with
    | some (quotes, rest) => some (String.ofList (done.reverse ++ quotes), rest)
    | none =>
      match cs with
      | [] => none
      | '\r' :: '\n' :: rest => multiline? quote escapes fuel ('\n' :: '\r' :: done) rest
      | '\n' :: rest => multiline? quote escapes fuel ('\n' :: done) rest
      | c :: rest =>
        if escapes && c == '\\' then
          match continued? rest with
          | some rest => multiline? quote escapes fuel done rest
          | none =>
            match escape? rest with
            | some (c, n) => multiline? quote escapes fuel (c :: done) (rest.drop n)
            | none => none
        else if isPlain c then multiline? quote escapes fuel (c :: done) rest
        else none

/-- A string of any kind. -/
def string? : List Char → Option (String × List Char)
  | '"' :: '"' :: '"' :: rest => multiline? '"' true (rest.length + 1) [] (skipFirstNewline rest)
  | '\'' :: '\'' :: '\'' :: rest =>
    multiline? '\'' false (rest.length + 1) [] (skipFirstNewline rest)
  | '"' :: rest => basic? [] rest
  | '\'' :: rest => literal? rest
  | _ => none

/-! ## Numbers -/

/-- The digits of a number; an underscore may stand between two of them. -/
def digits? (base : Nat) : List Char → Option (List Nat)
  | [] => none
  | [c] => (Digits.ofBase? base c).map ([·])
  | c :: '_' :: rest => do return (← Digits.ofBase? base c) :: (← digits? base rest)
  | c :: rest => do return (← Digits.ofBase? base c) :: (← digits? base rest)

/-- Decimal digits that do not begin with a zero that could be left out. -/
def wholeDigits? (cs : List Char) : Option (List Nat) :=
  match cs with
  | '0' :: _ :: _ => none
  | cs => digits? 10 cs

def integer? (n : Int) : Option Toml :=
  if -0x80000000000000000000000000000000 ≤ n ∧ n < 0x100000000000000000000000000000000 then
    some (.int n)
  else none

/-- A float with its parts; one too large is refused. -/
def float? (negative : Bool) (digits : List Nat) (exponent : Int) : Option Toml :=
  let x := Binary64.ofDecimal negative (Digits.ofValues 10 digits) exponent
  if x.isFinite then some (.float x) else none

def isExponentMark (c : Char) : Bool := c == 'e' || c == 'E'

/-- The exponent after its mark. -/
def exponent? : List Char → Option Int
  | '-' :: cs => (digits? 10 cs).map fun ds => -(Digits.ofValues 10 ds : Int)
  | '+' :: cs => (digits? 10 cs).map fun ds => (Digits.ofValues 10 ds : Int)
  | cs => (digits? 10 cs).map fun ds => (Digits.ofValues 10 ds : Int)

/-- A number in base ten without its sign. -/
def decimal? (negative : Bool) (cs : List Char) : Option Toml := do
  let mantissa := cs.takeWhile (!isExponentMark ·)
  let mark := cs.dropWhile (!isExponentMark ·)
  let whole ← wholeDigits? (mantissa.takeWhile (· != '.'))
  match mantissa.dropWhile (· != '.'), mark with
  | [], [] => integer? (if negative then -(Digits.ofValues 10 whole) else Digits.ofValues 10 whole)
  | [], _ :: e => float? negative whole (← exponent? e)
  | _ :: places, [] => do
    let places ← digits? 10 places
    float? negative (whole ++ places) (-places.length)
  | _ :: places, _ :: e => do
    let places ← digits? 10 places
    float? negative (whole ++ places) ((← exponent? e) - places.length)

/-- A number or one of the words for what is not finite, without its sign. -/
def signed? (negative : Bool) (cs : List Char) : Option Toml :=
  match cs with
  | ['i', 'n', 'f'] => some (.float (.ofMagnitude negative Binary64.infinite))
  | ['n', 'a', 'n'] => some (.float (.ofMagnitude negative (Binary64.infinite + 0x8000000000000)))
  | cs => decimal? negative cs

def inBase? (base : Nat) (cs : List Char) : Option Toml :=
  (digits? base cs).bind fun ds => integer? (Digits.ofValues base ds)

/-- The value of a word without quotes. -/
def word? (cs : List Char) : Option Toml :=
  match cs with
  | ['t', 'r', 'u', 'e'] => some (.bool true)
  | ['f', 'a', 'l', 's', 'e'] => some (.bool false)
  | '0' :: 'x' :: rest => inBase? 16 rest
  | '0' :: 'o' :: rest => inBase? 8 rest
  | '0' :: 'b' :: rest => inBase? 2 rest
  | '+' :: rest => signed? false rest
  | '-' :: rest => signed? true rest
  | cs =>
    match Datetime.ofChars? cs with
    | some d => some (.datetime d.text)
    | none => signed? false cs

/-- Where a word ends. -/
def endsWord (c : Char) : Bool :=
  isSpace c || c == '\n' || c == '\r' || c == '#' || c == ',' || c == '=' || c == '[' ||
    c == ']' || c == '\x7b' || c == '\x7d'

/-- Reads a word and its value. A date and a time may stand apart, with one space between. -/
def scalar? (cs : List Char) : Option (Toml × List Char) :=
  let word := cs.takeWhile (!endsWord ·)
  let rest := cs.dropWhile (!endsWord ·)
  match Date.read? word, rest with
  | some (_, []), ' ' :: c :: more =>
    if c.isDigit then
      let time := (c :: more).takeWhile (!endsWord ·)
      (word? (word ++ ' ' :: time)).map (·, (c :: more).dropWhile (!endsWord ·))
    else (word? word).map (·, rest)
  | _, _ => (word? word).map (·, rest)

end Stencil.Toml
