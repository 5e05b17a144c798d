/-
  Numbers of IEEE 754's binary64 format, kept as their bits. A finite number is
  `± significand · 2 ^ exponent`; all arithmetic here is on these two, exact, with one rounding
  (to nearest, ties to even) at the end.
-/

namespace Stencil

structure Binary64 where
  bits : UInt64
deriving DecidableEq, Repr

namespace Binary64

/-! ## Reading the bits -/

def negative (x : Binary64) : Bool := 0x8000000000000000 ≤ x.bits.toNat

/-- The bits without the sign; they order the magnitudes. -/
def magnitude (x : Binary64) : Nat := x.bits.toNat % 0x8000000000000000

/-- The magnitude of infinity: eleven bits of exponent, all of them set. Larger magnitudes are not
    numbers. -/
def infinite : Nat := 0x7ff0000000000000

def isZero (x : Binary64) : Bool := x.magnitude == 0

def isFinite (x : Binary64) : Bool := x.magnitude < infinite

def isNaN (x : Binary64) : Bool := infinite < x.magnitude

/-- The bit above the 52 bits of a fraction, `2 ^ 52`. -/
def hiddenBit : Nat := 0x10000000000000

def significand (x : Binary64) : Nat :=
  if x.magnitude < hiddenBit then x.magnitude else x.magnitude % hiddenBit + hiddenBit

def exponent (x : Binary64) : Int := (max 1 (x.magnitude / hiddenBit) : Nat) - 1075

/-! ## Making numbers -/

def ofMagnitude (negative : Bool) (magnitude : Nat) : Binary64 :=
  ⟨UInt64.ofNat (magnitude + if negative then 0x8000000000000000 else 0)⟩

def zero (negative : Bool) : Binary64 := ofMagnitude negative 0

/-- The quotient, rounded to the nearest natural number; a half goes to the even one. -/
def roundQuotient (num den : Nat) : Nat :=
  let q := num / den
  let r := num % den
  if 2 * r < den || (2 * r == den && q % 2 == 0) then q else q + 1

/-- `n · b ^ e` if `e` is positive, else `n`. With the numerator scaled by `e` and the denominator
    by `-e` a quotient is scaled by `b ^ e`. -/
def scale (b n : Nat) (e : Int) : Nat := n * Nat.pow b e.toNat

/-- The largest `e` with `2 ^ e ≤ num / den`, for positive numbers. -/
def floorLog2 (num den : Nat) : Int :=
  let e : Int := num.log2 - den.log2
  if scale 2 den e ≤ scale 2 num (-e) then e else e - 1

/-- `± num / den`, rounded; too large a number becomes infinite. -/
def ofRatio (negative : Bool) (num den : Nat) : Binary64 :=
  if num == 0 then zero negative
  else
    let q := max (floorLog2 num den - 52) (-1074)
    let m := roundQuotient (scale 2 num (-q)) (scale 2 den q)
    ofMagnitude negative (min ((q + 1074).toNat * hiddenBit + m) infinite)

def ofNat (n : Nat) : Binary64 := ofRatio false n 1

/-- How many decimal digits a number has; zero has none. -/
def decimalLength (n : Nat) : Nat := if n == 0 then 0 else (Nat.toDigits 10 n).length

/-- `± digits · 10 ^ exponent`, rounded. Beyond `10 ^ 310` all is infinite and below `10 ^ -330`
    all is zero, so no larger power is formed. -/
def ofDecimal (negative : Bool) (digits : Nat) (exponent : Int) : Binary64 :=
  let top := exponent + decimalLength digits
  if digits == 0 || top < -330 then zero negative
  else if 310 < top then ofMagnitude negative infinite
  else ofRatio negative (scale 10 digits exponent) (scale 10 1 (-exponent))

/-! ## Products and quotients of finite numbers -/

def mul (x y : Binary64) : Binary64 :=
  let e := x.exponent + y.exponent
  ofRatio (x.negative != y.negative) (scale 2 (x.significand * y.significand) e) (scale 2 1 (-e))

def div (x y : Binary64) : Binary64 :=
  let e := x.exponent - y.exponent
  ofRatio (x.negative != y.negative) (scale 2 x.significand e) (scale 2 y.significand (-e))

/-- The number a binary32 with these bits stands for, which binary64 holds exactly; none if it is
    infinite or not a number. -/
def ofBinary32? (bits : UInt32) : Option Binary64 :=
  let magnitude := bits.toNat % 0x80000000
  if 0x7f800000 ≤ magnitude then none
  else
    let m := if magnitude < 0x800000 then magnitude else magnitude % 0x800000 + 0x800000
    let q : Int := (max 1 (magnitude / 0x800000) : Nat) - 150
    some (ofRatio (0x80000000 ≤ bits.toNat) (scale 2 m q) (scale 2 1 (-q)))

/-! ## Comparing -/

/-- The bits as a signed word in which greater numbers are greater. -/
def ordered (x : Binary64) : Int64 :=
  (if x.negative then ~~~x.bits else x.bits ^^^ 0x8000000000000000).toInt64

/-- IEEE 754's equality: both zeros are equal, and nothing equals what is no number. -/
def sameNumber (x y : Binary64) : Bool :=
  !x.isNaN && !y.isNaN && (x.bits == y.bits || (x.isZero && y.isZero))

/-- How far apart two numbers are, in steps of the format. The difference wraps, and the least
    word counts as the greatest. -/
def distance (x y : Binary64) : Nat :=
  let d := (x.ordered - y.ordered).toInt
  min d.natAbs 0x7fffffffffffffff

/-- Equal, or at most two steps apart. -/
def nearlyEqual (x y : Binary64) : Bool := sameNumber x y || x.distance y ≤ 2

end Binary64

end Stencil
