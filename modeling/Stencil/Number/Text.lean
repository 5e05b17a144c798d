import Stencil.Number.Binary64
import Stencil.Number.Shortest
/-
  Numbers as text: in full for a rendered value, and in the shorter spelling, with an exponent
  where it is far from 1, for a key.
-/

namespace Stencil.Binary64

/-- The number without its sign, as a target for the fewest digits. -/
def target (x : Binary64) : Shortest.Target :=
  ⟨x.significand, x.exponent,
    x.magnitude % Binary64.hiddenBit == 0 && 2 * Binary64.hiddenBit ≤ x.magnitude⟩

/-- The whole part of a finite number without its sign, if it has no other part. -/
def natAbs? (x : Binary64) : Option Nat :=
  let num := scale 2 x.significand x.exponent
  let den := scale 2 1 (-x.exponent)
  if num % den == 0 then some (num / den) else none

def zeros (n : Nat) : String := "".pushn '0' n

/-- `digits · 10 ^ exponent` with no exponent written, and with a point only before digits. -/
def positional (digits : Nat) (exponent : Int) : String :=
  let ds := Nat.toDigits 10 digits
  if 0 ≤ exponent then String.ofList ds ++ zeros exponent.toNat
  else
    let places := (-exponent).toNat
    if ds.length ≤ places then "0." ++ zeros (places - ds.length) ++ String.ofList ds
    else
      String.ofList (ds.take (ds.length - places)) ++ "." ++
        String.ofList (ds.drop (ds.length - places))

def sign (x : Binary64) : String := if x.negative then "-" else ""

/-- A number as a template writes it: whole numbers with all their digits and no point, others
    with the fewest digits that read back, and never an exponent. Both zeros are `0`. -/
def text (x : Binary64) : String :=
  if x.isNaN then "NaN"
  else if !x.isFinite then x.sign ++ "inf"
  else if x.isZero then "0"
  else match x.natAbs? with
    | some n => x.sign ++ toString n
    | none =>
      let (digits, exponent) := Shortest.digits (fun _ => true) x.target
      x.sign ++ positional digits exponent

/-! ## Keys -/

/-- Where a key's spelling turns to an exponent: the point may follow at most `whole` digits, or
    stand before fewer than `zeros` zeros. -/
structure KeyFormat where
  whole : Int
  zeros : Int

/-- The power of ten that a key's digits are multiplied by; its sign is always written. -/
def exponentText (e : Int) : String := (if e < 0 then "e-" else "e+") ++ toString e.natAbs

/-- A shortest decimal as a key: `1.5`, `10.0`, `0.001`, `1e+16`, `1.25e-7`. -/
def KeyFormat.text (format : KeyFormat) (digits : Nat) (exponent : Int) : String :=
  let ds := Nat.toDigits 10 digits
  let point := (ds.length : Int) + exponent
  if 0 ≤ exponent && point ≤ format.whole then positional digits exponent ++ ".0"
  else if point ≤ format.whole && -format.zeros < point then positional digits exponent
  else
    let fraction := ds.drop 1
    String.ofList (ds.take 1) ++ (if fraction.isEmpty then "" else "." ++ String.ofList fraction) ++
      exponentText (point - 1)

/-- A half goes to the even digit. -/
def tieToEven (below : Nat) : Bool := below % 2 == 1

/-- A finite number as a key. -/
def keyText (x : Binary64) : String :=
  if x.isZero then x.sign ++ "0.0"
  else
    let (digits, exponent) := Shortest.digits tieToEven x.target
    x.sign ++ (KeyFormat.mk 16 5).text digits exponent

/-- A finite binary32 with these bits as a key. -/
def keyText32 (bits : UInt32) : String :=
  let magnitude := bits.toNat % 0x80000000
  let sign := if 0x80000000 ≤ bits.toNat then "-" else ""
  if magnitude == 0 then sign ++ "0.0"
  else
    let m := if magnitude < 0x800000 then magnitude else magnitude % 0x800000 + 0x800000
    let q : Int := (max 1 (magnitude / 0x800000) : Nat) - 150
    let narrow := magnitude % 0x800000 == 0 && 0x1000000 ≤ magnitude
    let (digits, exponent) := Shortest.digits tieToEven ⟨m, q, narrow⟩
    sign ++ (KeyFormat.mk 13 6).text digits exponent

end Stencil.Binary64
