import Stencil.Data.Toml.Datetime
import Stencil.Value.Basic
/-
  TOML data, and the model it makes. Dates and times keep a kind of their own until they become
  text in the model.
-/

namespace Stencil

inductive Toml where
  | str (s : String)
  /-- A number of up to 128 bits, with or without a sign. -/
  | int (n : Int)
  | float (x : Binary64)
  | bool (b : Bool)
  /-- A date, a time or both, as it is written out. -/
  | datetime (text : String)
  | array (items : List Toml)
  | table (entries : List (String × Toml))
deriving Repr

namespace Toml

/-- The key by which a table says that it is a datetime. -/
def datetimeKey : String := "$__toml_private_datetime"

/-- The datetime that a table is, by its first entry; inside, none if that spells no datetime. -/
def datetimeOf? : List (String × Toml) → Option (Option Datetime)
  | (key, t) :: _ =>
    if key = datetimeKey then
      match t with
      | .str s => some (Datetime.ofChars? s.toList)
      | _ => some none
    else none
  | [] => none

mutual

/-- The model of a document; models have no numbers beyond 64 bits. -/
def toValue? : Toml → Option Value
  | .str s => some (.str s)
  | .int n =>
    if -0x8000000000000000 ≤ n ∧ n < 0x8000000000000000 then some (.int (Int64.ofInt n)) else none
  | .float x => some (.float x)
  | .bool b => some (.bool b)
  | .datetime text => some (.str text)
  | .array items => (itemValues? items).map .seq
  | .table entries =>
    match datetimeOf? entries with
    | some spelled => spelled.map fun d => .str d.text
    | none => (entryValues? entries).map Value.ofPairs

def itemValues? : List Toml → Option (List Value)
  | [] => some []
  | t :: ts => do return (← toValue? t) :: (← itemValues? ts)

def entryValues? : List (String × Toml) → Option (List (String × Value))
  | [] => some []
  | (k, t) :: rest => do return (k, ← toValue? t) :: (← entryValues? rest)

end

mutual

/-- Whether every integer in a document is one of 64 bits, with or without a sign. -/
def hasWords : Toml → Bool
  | .int n => -0x8000000000000000 ≤ n && n < 0x10000000000000000
  | .array items => haveWords items
  | .table entries => entriesHaveWords entries
  | _ => true

def haveWords : List Toml → Bool
  | [] => true
  | t :: ts => hasWords t && haveWords ts

def entriesHaveWords : List (String × Toml) → Bool
  | [] => true
  | (_, t) :: rest => hasWords t && entriesHaveWords rest

end

/-- The entry of a table. -/
def get? (t : Toml) (key : String) : Option Toml :=
  match t with
  | .table entries => entries.lookup key
  | _ => none

end Toml

end Stencil
