import Stencil.Path
import Stencil.Value.Basic
/-
  The contexts of a rendering. Every path that is followed and every element of a collection adds
  a record that points back to the one it was reached from; records are never changed or removed.
-/

namespace Stencil

/-- A part of the model, or the absence of one, with the key it was reached by. -/
structure Record where
  key : String
  value? : Option Value
  /-- The number of the record it was reached from. -/
  parent? : Option Nat

/-- The records made so far. A context is the number of its record, and the root is 0. -/
structure Arena where
  records : Array Record

namespace Arena

/-- Adds a record. A null value counts as absent. -/
def push (arena : Arena) (key : String) (value? : Option Value) (parent? : Option Nat) :
    Arena × Nat :=
  (⟨arena.records.push ⟨key, value?.filter (!·.isNull), parent?⟩⟩, arena.records.size)

/-- The arena with nothing but a root that holds the model. -/
def ofModel (model : Value) : Arena := ((Arena.mk #[]).push "" (some model) none).1

def size (arena : Arena) : Nat := arena.records.size

def value? (arena : Arena) (id : Nat) : Option Value := arena.records[id]?.bind (·.value?)

def key (arena : Arena) (id : Nat) : String := (arena.records[id]?.map (·.key)).getD ""

def parent? (arena : Arena) (id : Nat) : Option Nat := arena.records[id]?.bind (·.parent?)

/-- One step of a path. The root is its own parent, and a key that leads nowhere leads to a
    context without a value. -/
def step (arena : Arena) (id : Nat) : Path.Step → Arena × Nat
  | .parent => (arena, (arena.parent? id).getD id)
  | .key name => arena.push name ((arena.value? id).bind (·.get? name)) (some id)

/-- Follows a path from a context. -/
def resolve (arena : Arena) (id : Nat) (path : String) : Arena × Nat :=
  (Path.steps path).foldl (fun (arena, id) s => arena.step id s) (arena, id)

/-- The context of an element of a collection. -/
def element (arena : Arena) (id index : Nat) (item : Value) : Arena × Nat :=
  arena.push ("[" ++ toString index ++ "]") (some item) (some id)

/-- Whether there is a value and it is truthy. -/
def holds (arena : Arena) (id : Nat) : Bool := (arena.value? id).any (·.truthy)

/-- What a value tag writes. -/
def text (arena : Arena) (id : Nat) : String := ((arena.value? id).map (·.text)).getD ""

/-- The key and the value of a context and of every context above it, up to the root. -/
def lineage (arena : Arena) (id : Nat) : List (String × Option Value) :=
  (arena.key id, arena.value? id) ::
    match arena.parent? id with
    | some parent => if parent < id then lineage arena parent else []
    | none => []
termination_by id

end Arena

end Stencil
