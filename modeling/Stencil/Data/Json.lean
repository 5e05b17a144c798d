import Stencil.Data.Json.Number
import Stencil.Text.Digits
import Stencil.Value.Basic
/-
  Values from JSON text.
-/

namespace Stencil.Json

/-- How deep arrays and objects may be nested. -/
def maxDepth : Nat := 127

def isSpace (c : Char) : Bool := c == ' ' || c == '\t' || c == '\n' || c == '\r'

def skipSpace (cs : List Char) : List Char := cs.dropWhile isSpace

/-! ## Strings -/

def hex4? (a b c d : Char) : Option Nat := Digits.number? 16 [a, b, c, d]

/-- The character that a backslash and this one stand for. -/
def shortEscape? : Char → Option Char
  | '"' => some '"'
  | '\\' => some '\\'
  | '/' => some '/'
  | 'b' => some '\x08'
  | 'f' => some '\x0c'
  | 'n' => some '\n'
  | 'r' => some '\r'
  | 't' => some '\t'
  | _ => none


/-- The character of two `\u` escapes that are halves of a pair. -/
def pair? (high low : Nat) : Option Char :=
  if 0xD800 ≤ high ∧ high < 0xDC00 ∧ 0xDC00 ≤ low ∧ low < 0xE000 then
    some (Char.ofNat (0x10000 + (high - 0xD800) * 0x400 + (low - 0xDC00)))
  else none

/-- Reads a string whose opening quote is gone; `done` holds what is read, last character
    first. -/
def string? (done : List Char) : List Char → Option (String × List Char)
  | '"' :: rest => some (String.ofList done.reverse, rest)
  | '\\' :: 'u' :: a :: b :: c :: d :: rest =>
    match hex4? a b c d with
    | none => none
    | some unit =>
      match Digits.char? unit with
      | some ch => string? (ch :: done) rest
      | none =>
        match rest with
        | '\\' :: 'u' :: a :: b :: c :: d :: rest =>
          match (hex4? a b c d).bind (pair? unit) with
          | some ch => string? (ch :: done) rest
          | none => none
        | _ => none
  | '\\' :: c :: rest =>
    match shortEscape? c with
    | some ch => string? (ch :: done) rest
    | none => none
  | c :: rest => if c.toNat < 0x20 then none else string? (c :: done) rest
  | [] => none

/-! ## Values -/

def ofNumber : Number → Option Value
  | .int n => Value.ofInt? n
  | .float x => some (.float x)

mutual

/-- Reads a value at the start of a text. At most two calls are made for a character, so twice the
    length of the text is fuel enough. -/
def value? : (fuel depth : Nat) → List Char → Option (Value × List Char)
  | 0, _, _ => none
  | fuel + 1, depth, cs =>
    match skipSpace cs with
    | 'n' :: 'u' :: 'l' :: 'l' :: rest => some (.null, rest)
    | 't' :: 'r' :: 'u' :: 'e' :: rest => some (.bool true, rest)
    | 'f' :: 'a' :: 'l' :: 's' :: 'e' :: rest => some (.bool false, rest)
    | '"' :: rest => (string? [] rest).map fun (s, rest) => (.str s, rest)
    | '[' :: rest =>
      match depth, skipSpace rest with
      | 0, _ => none
      | _ + 1, ']' :: rest => some (.seq [], rest)
      | depth + 1, rest => items? fuel depth [] rest
    | '\x7b' :: rest =>
      match depth, skipSpace rest with
      | 0, _ => none
      | _ + 1, '\x7d' :: rest => some (.map [], rest)
      | depth + 1, rest => members? fuel depth [] rest
    | rest => (Number.read? rest).bind fun (n, rest) => (ofNumber n).map (·, rest)

/-- The rest of an array; `done` holds the items so far, last first. -/
def items? : (fuel depth : Nat) → List Value → List Char → Option (Value × List Char)
  | 0, _, _, _ => none
  | fuel + 1, depth, done, cs =>
    match value? fuel depth cs with
    | none => none
    | some (v, rest) =>
      match skipSpace rest with
      | ',' :: rest => items? fuel depth (v :: done) rest
      | ']' :: rest => some (.seq (v :: done).reverse, rest)
      | _ => none

/-- The rest of an object; `done` holds the members so far, last first. -/
def members? : (fuel depth : Nat) → List (String × Value) → List Char →
    Option (Value × List Char)
  | 0, _, _, _ => none
  | fuel + 1, depth, done, cs =>
    match skipSpace cs with
    | '"' :: rest =>
      match string? [] rest with
      | none => none
      | some (key, rest) =>
        match skipSpace rest with
        | ':' :: rest =>
          match value? fuel depth rest with
          | none => none
          | some (v, rest) =>
            match skipSpace rest with
            | ',' :: rest => members? fuel depth ((key, v) :: done) rest
            | '\x7d' :: rest => some (Value.ofPairs ((key, v) :: done).reverse, rest)
            | _ => none
        | _ => none
    | _ => none

end

/-- The value of a whole text, with nothing but blanks around it. -/
def parse? (text : String) : Option Value :=
  let cs := text.toList
  match value? (2 * cs.length + 2) maxDepth cs with
  | some (v, rest) => if (skipSpace rest).isEmpty then some v else none
  | none => none

end Stencil.Json
