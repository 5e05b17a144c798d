import Stencil.Entries
import Stencil.Number.Text
import Stencil.Text.Digits
/-
  The values that templates are rendered against, and the questions a template asks of them.
-/

namespace Stencil

/-- A model, or a part of one. The entries of a map keep the order in which they were put in. -/
inductive Value where
  | null
  | bool (b : Bool)
  | int (n : Int64)
  /-- Meant for the integers past `Int64`. -/
  | uint (n : UInt64)
  | float (x : Binary64)
  | str (text : String)
  | seq (items : List Value)
  | map (entries : List (String × Value))
deriving Repr

namespace Value

instance : Inhabited Value := ⟨.null⟩

def isNull : Value → Bool
  | .null => true
  | _ => false

/-! ## Integers -/

/-- An integer in its one form: `int` if it fits, `uint` past that, none past both. -/
def ofInt? (n : Int) : Option Value :=
  if -0x8000000000000000 ≤ n ∧ n < 0x8000000000000000 then some (.int (Int64.ofInt n))
  else if 0x8000000000000000 ≤ n ∧ n < 0x10000000000000000 then some (.uint (UInt64.ofNat n.toNat))
  else none

def ofInt64 (n : Int64) : Value := .int n

def ofUInt64 (n : UInt64) : Value :=
  if n.toNat < 0x8000000000000000 then .int (Int64.ofNat n.toNat) else .uint n

/-- The map of the pairs: a repeated key keeps its first place and takes its last value. -/
def ofPairs (pairs : List (String × Value)) : Value := .map (Entries.ofPairs pairs)

/-! ## Lookup -/

/-- A position in a sequence, in decimal; a plus sign may stand before it. -/
def position? (key : String) : Option Nat :=
  match key.toList with
  | '+' :: rest => Digits.number? 10 rest
  | cs => Digits.number? 10 cs

/-- What a key leads to: the entry of a map, the item of a sequence at that position. Nothing else
    has parts. -/
def get? (v : Value) (key : String) : Option Value :=
  match v with
  | .map entries => entries.lookup key
  | .seq items => (position? key).bind (items[·]?)
  | _ => none

/-- What an `each` block runs over; a scalar has nothing to run over. -/
def elements? : Value → Option (List Value)
  | .seq items => some items
  | .map entries => some (entries.map (·.2))
  | _ => none

/-! ## Truth and text -/

/-- Whether the value opens a section: null, false, zero, and what is empty do not. -/
def truthy : Value → Bool
  | .null => false
  | .bool b => b
  | .int n => n != 0
  | .uint n => n != 0
  | .float x => !x.isZero
  | .str text => text != ""
  | .seq items => !items.isEmpty
  | .map entries => !entries.isEmpty

/-- What a value tag writes. Containers have no text. -/
def text : Value → String
  | .null | .seq _ | .map _ => ""
  | .bool b => if b then "true" else "false"
  | .int n => toString n.toInt
  | .uint n => toString n.toNat
  | .float x => x.text
  | .str text => text

def kind : Value → String
  | .null => "null"
  | .bool _ => "boolean"
  | .int _ | .uint _ => "integer"
  | .float _ => "float"
  | .str _ => "string"
  | .seq _ => "sequence"
  | .map _ => "map"

end Value

end Stencil
