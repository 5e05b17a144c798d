import Stencil.Text.Digits
import Stencil.Value.Basic
/-
  What plain YAML scalars mean: null, a boolean, a number, or else text.
-/

namespace Stencil.Yaml

def isNull (s : String) : Bool := ["null", "Null", "NULL", "~"].contains s

def bool? (s : String) : Option Bool :=
  if ["true", "True", "TRUE"].contains s then some true
  else if ["false", "False", "FALSE"].contains s then some false
  else none

/-! ## Numbers -/

/-- Digits that begin with a zero, after a sign, are not a number. -/
def isPadded (cs : List Char) : Bool :=
  let digits := match cs with
    | '+' :: rest | '-' :: rest => rest
    | cs => cs
  match digits with
  | '0' :: rest => !rest.isEmpty && rest.all Char.isDigit
  | _ => false

/-- A natural number in one of four bases. -/
def natural? (cs : List Char) : Option Nat :=
  match cs with
  | '0' :: 'x' :: rest => Digits.number? 16 rest
  | '0' :: 'o' :: rest => Digits.number? 8 rest
  | '0' :: 'b' :: rest => Digits.number? 2 rest
  | cs => Digits.number? 10 cs

def int? (cs : List Char) : Option Int :=
  if isPadded cs then none
  else match cs with
    | '+' :: rest => (natural? rest).map Int.ofNat
    | '-' :: rest => (natural? rest).map fun n => -(n : Int)
    | cs => (natural? cs).map Int.ofNat

/-- The exponent of a number, if anything follows its digits. -/
def exponent? (cs : List Char) : Option Int :=
  match cs with
  | [] => some 0
  | e :: cs =>
    if e ≠ 'e' ∧ e ≠ 'E' then none
    else match cs with
      | '-' :: rest => (Digits.number? 10 rest).map fun n => -(n : Int)
      | '+' :: rest => (Digits.number? 10 rest).map Int.ofNat
      | rest => (Digits.number? 10 rest).map Int.ofNat

/-- A number with a point or an exponent; a digit has to stand on one side of the point. -/
def decimal? (negative : Bool) (cs : List Char) : Option Binary64 := do
  let whole := cs.takeWhile Char.isDigit
  let (places, rest) := match cs.dropWhile Char.isDigit with
    | '.' :: rest => (rest.takeWhile Char.isDigit, rest.dropWhile Char.isDigit)
    | rest => ([], rest)
  let n ← Digits.number? 10 (whole ++ places)
  let e ← exponent? rest
  return .ofDecimal negative n (e - places.length)

/-- A float. -/
def float? (cs : List Char) : Option Binary64 :=
  let unsigned := match cs with
    | '+' :: rest => rest
    | cs => cs
  let finite (x : Option Binary64) : Option Binary64 := x.filter (·.isFinite)
  if [".inf", ".Inf", ".INF"].contains (String.ofList unsigned) then
    some (.ofMagnitude false Binary64.infinite)
  else if ["-.inf", "-.Inf", "-.INF"].contains (String.ofList cs) then
    some (.ofMagnitude true Binary64.infinite)
  else if [".nan", ".NaN", ".NAN"].contains (String.ofList cs) then
    some (.ofMagnitude false (Binary64.infinite + 0x8000000000000))
  else match cs with
    | '+' :: rest => finite (decimal? false rest)
    | '-' :: rest => finite (decimal? true rest)
    | cs => finite (decimal? false cs)

/-- A float as a value; what is not finite has no value. -/
def floatValue (x : Binary64) : Value := if x.isFinite then .float x else .null

/-- Integers have 128 bits, of which a value holds 64; larger ones are floats. -/
def inReach (n : Int) : Bool :=
  -0x80000000000000000000000000000000 ≤ n && n < 0x100000000000000000000000000000000

/-- An integer, or none if the text is not one; inside, none if no value holds it. -/
def intValue? (s : String) : Option (Option Value) :=
  ((int? s.toList).filter inReach).map Value.ofInt?

/-- The value of a plain scalar. -/
def plainValue? (s : String) : Option Value :=
  if s.isEmpty || isNull s then some .null
  else match bool? s with
    | some b => some (.bool b)
    | none =>
      match intValue? s with
      | some v? => v?
      | none =>
        match if isPadded s.toList then none else float? s.toList with
        | some x => some (floatValue x)
        | none => some (.str s)

/-- The tags that say what a scalar must be. -/
def standardTag (name : String) : String := "tag:yaml.org,2002:" ++ name

/-- The value of a scalar. A tag of a document's own has no value; any other tag than those that
    say what the scalar is makes it text. -/
def scalarValue? (tag : Option String) (s : String) (plain : Bool) : Option Value :=
  match tag with
  | none => if plain then plainValue? s else some (.str s)
  | some tag =>
    if tag.startsWith "!" then none
    else if tag = standardTag "bool" then (bool? s).map .bool
    else if tag = standardTag "int" then (intValue? s).bind id
    else if tag = standardTag "float" then (float? s.toList).map floatValue
    else if tag = standardTag "null" then if isNull s then some .null else none
    else some (.str s)

end Stencil.Yaml
