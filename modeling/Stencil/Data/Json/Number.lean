import Stencil.Number.Binary64
import Stencil.Text.Digits
/-
  Numbers in JSON text. An integer is exact as long as its digits fit in 64 bits. Of any other
  number the significand is collected while it fits in 64 bits, and then scaled by powers of ten
  with one rounding a step, so the last place may differ from the nearest binary number.
-/

namespace Stencil.Json

/-- A number that was read. -/
inductive Number where
  | int (n : Int)
  | float (x : Binary64)
deriving DecidableEq, Repr

namespace Number

/-- The largest significand that is collected. -/
def maxSignificand : Nat := 0xffffffffffffffff

/-- Exponents are kept in 32 bits. -/
def maxExponent : Int := 0x7fffffff

def clampExponent (e : Int) : Int := max (-maxExponent - 1) (min e maxExponent)

def skipDigits (cs : List Char) : List Char := cs.dropWhile Char.isDigit

/-! ## Scaling -/

/-- `x · 10 ^ exponent`; none if that is too large. The powers of ten go up to 308, a smaller
    exponent is taken in several steps. -/
def scaled? : (fuel : Nat) → (x : Binary64) → (exponent : Int) → Option Binary64
  | 0, x, _ => some x
  | fuel + 1, x, exponent =>
    if exponent.natAbs ≤ 308 then
      let power := Binary64.ofDecimal false 1 exponent.natAbs
      if 0 ≤ exponent then
        let y := x.mul power
        if y.isFinite then some y else none
      else some (x.div power)
    else if x.isZero then some x
    else if 0 ≤ exponent then none
    else scaled? fuel (x.div (Binary64.ofDecimal false 1 308)) (exponent + 308)

/-- `± significand · 10 ^ exponent`. Two steps make any significand zero, so four are enough. -/
def ofParts (negative : Bool) (significand : Nat) (exponent : Int) : Option Number :=
  (scaled? 4 (Binary64.ofNat significand) exponent).map fun x =>
    .float (.ofMagnitude negative x.magnitude)

/-! ## Reading -/

/-- The digits of an exponent after the first. An exponent too large for 32 bits is an error if
    it would make the number infinite, and makes it zero else. -/
def exponentDigits (negative : Bool) (significand : Nat) (start : Int) (up : Bool) (e : Nat) :
    List Char → Option (Number × List Char)
  | [] => (ofParts negative significand (clampExponent (if up then start + e else start - e))).map
      (·, [])
  | c :: cs =>
    match Digits.decimal? c with
    | some d =>
      if maxExponent < 10 * e + d then
        if significand ≠ 0 ∧ up then none
        else some (.float (.zero negative), skipDigits (c :: cs))
      else exponentDigits negative significand start up (10 * e + d) cs
    | none => (ofParts negative significand
        (clampExponent (if up then start + e else start - e))).map (·, c :: cs)

/-- What follows `e`: a sign may stand there, and a digit must. -/
def exponent (negative : Bool) (significand : Nat) (start : Int) (cs : List Char) :
    Option (Number × List Char) :=
  let (up, cs) := match cs with
    | '+' :: rest => (true, rest)
    | '-' :: rest => (false, rest)
    | cs => (true, cs)
  match cs with
  | c :: rest =>
    (Digits.decimal? c).bind fun d => exponentDigits negative significand start up d rest
  | [] => none

/-- The end of a number: an exponent or nothing. -/
def ending (negative : Bool) (significand : Nat) (start : Int) (cs : List Char) :
    Option (Number × List Char) :=
  match cs with
  | 'e' :: rest | 'E' :: rest => exponent negative significand start rest
  | cs => (ofParts negative significand start).map (·, cs)

/-- The digits after the point, `places` of which are read. Digits that no longer fit are
    skipped. -/
def fraction (negative : Bool) (significand : Nat) (before : Int) (places : Nat) :
    List Char → Option (Number × List Char)
  | [] => if places = 0 then none else ending negative significand (before - places) []
  | c :: cs =>
    match Digits.decimal? c with
    | some d =>
      if maxSignificand < 10 * significand + d then
        ending negative significand (before - places) (skipDigits (c :: cs))
      else fraction negative (10 * significand + d) before (places + 1) cs
    | none => if places = 0 then none else ending negative significand (before - places) (c :: cs)

/-- What follows the digits before the point when some of them did not fit. -/
def afterLong (negative : Bool) (significand : Nat) (dropped : Nat) (cs : List Char) :
    Option (Number × List Char) :=
  match cs with
  | '.' :: rest => fraction negative significand dropped 0 rest
  | cs => ending negative significand dropped cs

/-- An integer with its sign; minus zero and what lies below 64 bits are floats. -/
def ofInteger (negative : Bool) (n : Nat) : Number :=
  if !negative then .int n
  else if n = 0 ∨ 0x8000000000000000 < n then
    .float (.ofMagnitude true (Binary64.ofNat n).magnitude)
  else .int (-n)

/-- What follows the digits before the point. -/
def afterInteger (negative : Bool) (significand : Nat) (cs : List Char) :
    Option (Number × List Char) :=
  match cs with
  | '.' :: rest => fraction negative significand 0 0 rest
  | 'e' :: rest | 'E' :: rest => exponent negative significand 0 rest
  | cs => some (ofInteger negative significand, cs)

/-- The digits before the point after the first. -/
def integerDigits (negative : Bool) (significand : Nat) :
    List Char → Option (Number × List Char)
  | [] => afterInteger negative significand []
  | c :: cs =>
    match Digits.decimal? c with
    | some d =>
      if maxSignificand < 10 * significand + d then
        let rest := skipDigits (c :: cs)
        afterLong negative significand ((c :: cs).length - rest.length) rest
      else integerDigits negative (10 * significand + d) cs
    | none => afterInteger negative significand (c :: cs)

/-- A number without its sign. No digit may follow a leading zero. -/
def unsigned (negative : Bool) : List Char → Option (Number × List Char)
  | '0' :: c :: rest => if c.isDigit then none else afterInteger negative 0 (c :: rest)
  | c :: rest => (Digits.decimal? c).bind fun d => integerDigits negative d rest
  | [] => none

/-- Reads a number at the start of a text. -/
def read? : List Char → Option (Number × List Char)
  | '-' :: rest => unsigned true rest
  | cs => unsigned false cs

end Number

end Stencil.Json
