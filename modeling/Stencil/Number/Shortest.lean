/-
  The fewest decimal digits that read back as a given binary number. A number `m · 2 ^ q` is read
  back from every number between the midpoints to its two neighbours, the midpoints included when
  `m` is even; the first decimal grid with a point there decides how many digits are needed.
-/

namespace Stencil.Shortest

/-- A positive binary number and what is needed to know the numbers that round to it. -/
structure Target where
  significand : Nat
  exponent : Int
  /-- The neighbour below is only half as far as the one above. -/
  narrowBelow : Bool
deriving DecidableEq, Repr

/-- `num / den` as a fraction of naturals: `n · 2 ^ e · 10 ^ -p`. -/
def fraction (n : Nat) (e p : Int) : Nat × Nat :=
  (n * Nat.pow 2 e.toNat * Nat.pow 10 (-p).toNat, Nat.pow 2 (-e).toNat * Nat.pow 10 p.toNat)

/-- Whether `digits · 10 ^ p` reads back as the target. All sides are counted in quarters of the
    target's last binary place. -/
def readsBack (t : Target) (p : Int) (digits : Nat) : Bool :=
  let (low, den) := fraction (4 * t.significand - if t.narrowBelow then 1 else 2) (t.exponent - 2) p
  let (high, _) := fraction (4 * t.significand + 2) (t.exponent - 2) p
  if t.significand % 2 == 0 then low ≤ digits * den && digits * den ≤ high
  else low < digits * den && digits * den < high

/-- The point of the grid `10 ^ p` that reads back as the target, the nearer one if there are two;
    `tieUp` says of the lower one's digits whether a tie goes to the upper one. -/
def onGrid? (tieUp : Nat → Bool) (t : Target) (p : Int) : Option Nat :=
  let (num, den) := fraction t.significand t.exponent p
  let below := num / den
  let above := if num % den == 0 then below else below + 1
  if below == 0 then none
  else match readsBack t p below, readsBack t p above with
    | true, true =>
      let toBelow := num - below * den
      let toAbove := above * den - num
      if toBelow < toAbove || (toBelow == toAbove && !tieUp below) then some below else some above
    | true, false => some below
    | false, true => some above
    | false, false => none

/-- Tries ever finer grids; the last one is not tested. Ten can only come from the first grid, where
    it stands for a power of ten just above the target. -/
def search (tieUp : Nat → Bool) (t : Target) : Nat → Int → Nat × Int
  | 0, p => let (num, den) := fraction t.significand t.exponent p; (num / den, p)
  | fuel + 1, p => match onGrid? tieUp t p with
    | some digits => if digits == 10 then (1, p + 1) else (digits, p)
    | none => search tieUp t fuel (p - 1)

/-- Digits `d` and exponent `p` with `d · 10 ^ p` the shortest decimal that reads back. Seventeen
    digits always do, and the first grid tried is at most three too coarse. -/
def digits (tieUp : Nat → Bool) (t : Target) : Nat × Int :=
  let log2 : Int := t.significand.log2 + t.exponent
  search tieUp t 20 (Int.fdiv (log2 * 30103) 100000 + 1)

end Stencil.Shortest
