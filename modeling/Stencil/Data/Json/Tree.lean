import Stencil.Value.Basic
/-
  JSON that a host hands over already read, and the value it becomes.
-/

namespace Stencil.Json

/-- A number of a host's, which answers for each kind of number whether it is one. -/
structure HostNumber where
  int64? : Option Int64
  uint64? : Option UInt64
  float? : Option Binary64
  /-- An integer that fits with a sign answers as one. -/
  int64_of_fits : ∀ n, uint64? = some n → n.toNat < 0x8000000000000000 → int64?.isSome
  /-- The answers as an integer are one number. -/
  int64_eq_uint64 : ∀ i n, int64? = some i → uint64? = some n → i.toInt = n.toNat

/-- What answers as no integer is a float, if need be one that is not a number. -/
def HostNumber.toValue (n : HostNumber) : Value :=
  match n.int64?, n.uint64? with
  | some i, _ => .int i
  | none, some u => .uint u
  | none, none => .float (n.float?.getD (.ofMagnitude false (Binary64.infinite + 0x8000000000000)))

inductive Tree where
  | null
  | bool (b : Bool)
  | number (n : HostNumber)
  | str (s : String)
  | array (items : List Tree)
  | object (entries : List (String × Tree))

namespace Tree

mutual

def toValue : Tree → Value
  | .null => .null
  | .bool b => .bool b
  | .number n => n.toValue
  | .str s => .str s
  | .array items => .seq (itemValues items)
  | .object entries => Value.ofPairs (entryValues entries)

def itemValues : List Tree → List Value
  | [] => []
  | t :: ts => t.toValue :: itemValues ts

def entryValues : List (String × Tree) → List (String × Value)
  | [] => []
  | (key, t) :: entries => (key, t.toValue) :: entryValues entries

end

end Tree

end Stencil.Json
