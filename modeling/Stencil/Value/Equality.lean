import Stencil.Value.Basic
/-
  When two values count as the same: floats up to two steps, maps without regard to order.
-/

namespace Stencil.Value

mutual

/-- Equality of values. The two integer kinds are not mixed, nor integers with floats. -/
def same : Value → Value → Bool
  | .null, .null => true
  | .bool a, .bool b => a == b
  | .int a, .int b => a == b
  | .uint a, .uint b => a == b
  | .float a, .float b => a.nearlyEqual b
  | .str a, .str b => a == b
  | .seq as, .seq bs => sameItems as bs
  | .map as, .map bs => as.length == bs.length && entriesIn as bs
  | _, _ => false

def sameItems : List Value → List Value → Bool
  | [], [] => true
  | a :: as, b :: bs => same a b && sameItems as bs
  | _, _ => false

/-- Every entry of the first map has its like under the same key of the second. -/
def entriesIn : List (String × Value) → List (String × Value) → Bool
  | [], _ => true
  | (k, a) :: as, bs =>
    (match bs.lookup k with
      | some b => same a b
      | none => false) && entriesIn as bs

end

instance : BEq Value := ⟨same⟩

end Stencil.Value
