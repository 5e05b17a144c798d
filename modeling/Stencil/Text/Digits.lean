/-
  Digits and the numbers they write.
-/

namespace Stencil.Digits

/-- The value of an ASCII digit of base ten or, with its letters in either case, of base
    sixteen. -/
def hex? (c : Char) : Option Nat :=
  if '0' ≤ c ∧ c ≤ '9' then some (c.toNat - '0'.toNat)
  else if 'a' ≤ c ∧ c ≤ 'f' then some (c.toNat - 'a'.toNat + 10)
  else if 'A' ≤ c ∧ c ≤ 'F' then some (c.toNat - 'A'.toNat + 10)
  else none

/-- The value of a digit that is smaller than the base. -/
def ofBase? (base : Nat) (c : Char) : Option Nat := (hex? c).filter (· < base)

def decimal? (c : Char) : Option Nat := ofBase? 10 c

/-- The number that digit values write, the first one the highest. -/
def ofValues (base : Nat) (digits : List Nat) : Nat :=
  digits.foldl (fun n d => base * n + d) 0

/-- The number that some characters write; none if there are none or one is no digit. -/
def number? (base : Nat) (cs : List Char) : Option Nat :=
  if cs.isEmpty then none else (cs.mapM (ofBase? base)).map (ofValues base)

/-- The number in the first `n` characters, which must all be digits, and what follows. -/
def fixed? (base n : Nat) (cs : List Char) : Option (Nat × List Char) :=
  if (cs.take n).length = n then (number? base (cs.take n)).map (·, cs.drop n) else none

/-- The character with a number; none for the numbers that belong to halves of pairs. -/
def char? (n : Nat) : Option Char :=
  if n < 0xD800 ∨ (0xE000 ≤ n ∧ n < 0x110000) then some (Char.ofNat n) else none

end Stencil.Digits
