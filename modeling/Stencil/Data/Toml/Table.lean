import Stencil.Data.Toml.Basic
/-
  Tables while a document is read. How a table came about decides what may still be added to it:
  one that has had its header is complete, one that a longer header or a dotted key implies is
  not.
-/

namespace Stencil.Toml

inductive Origin where
  /-- Has a header of its own. -/
  | header
  /-- Named on the way in the header of another table. -/
  | implied
  /-- Made or added to by a dotted key. -/
  | dotted
deriving DecidableEq, Repr

inductive Draft where
  /-- A finished value, which nothing is added to. -/
  | value (t : Toml)
  | table (origin : Origin) (entries : List (String × Draft))
  /-- Tables under one double-bracket header, the last one first. -/
  | tables (elements : List (List (String × Draft)))

namespace Draft

abbrev Entries := List (String × Draft)

/-! ## Reaching a table -/

/-- Changes the table at the end of some keys. Tables that are not there are made, and of an array
    of tables the last one is meant. A dotted key may not go through a table that has a header. -/
def within (dotted : Bool) (change : Origin → Entries → Option (Origin × Entries)) :
    List String → Origin → Entries → Option (Origin × Entries)
  | [], origin, entries => change origin entries
  | key :: keys, origin, entries =>
    let put (d : Draft) : Origin × Entries := (origin, Stencil.Entries.insert key d entries)
    match entries.lookup key with
    | none =>
      (within dotted change keys (if dotted then .dotted else .implied) []).map
        fun (o, es) => put (.table o es)
    | some (.table o es) =>
      if dotted && o == .header then none
      else (within dotted change keys o es).map fun (o, es) => put (.table o es)
    | some (.tables (last :: others)) =>
      (within dotted change keys .header last).map fun (_, es) => put (.tables (es :: others))
    | some (.tables []) | some (.value _) => none

/-! ## The three kinds of line -/

/-- A key and its value. A dotted key ends in a table without a header, which from then on cannot
    have one. -/
def assign (keys : List String) (key : String) (t : Toml) (origin : Origin) (entries : Entries) :
    Option (Origin × Entries) :=
  within true (fun o es =>
    if (!keys.isEmpty && o == .header) || (es.lookup key).isSome then none
    else some (if keys.isEmpty then o else .dotted, Stencil.Entries.insert key (.value t) es))
    keys origin entries

/-- The header of a table, which must not have had one. -/
def openTable (keys : List String) (key : String) (root : Entries) : Option Entries :=
  (within false (fun o es =>
    let put (sub : Entries) := some (o, Stencil.Entries.insert key (.table .header sub) es)
    match es.lookup key with
    | none => put []
    | some (.table .implied sub) => put sub
    | some _ => none) keys .header root).map (·.2)

/-- A double-bracket header, which adds a table to an array. -/
def openElement (keys : List String) (key : String) (root : Entries) : Option Entries :=
  (within false (fun o es =>
    let put (elements : List Entries) :=
      some (o, Stencil.Entries.insert key (.tables elements) es)
    match es.lookup key with
    | none => put [[]]
    | some (.tables elements) => put ([] :: elements)
    | some _ => none) keys .header root).map (·.2)

/-! ## The finished table -/

/-- The entries of a table come in the order of their keys. -/
def sorted (entries : List (String × Toml)) : List (String × Toml) :=
  entries.mergeSort fun a b => a.1 ≤ b.1

mutual

def finish : Draft → Toml
  | .value t => t
  | .table _ entries => .table (sorted (finishEntries entries))
  | .tables elements => .array (finishTables elements).reverse

def finishEntries : List (String × Draft) → List (String × Toml)
  | [] => []
  | (k, d) :: rest => (k, finish d) :: finishEntries rest

def finishTables : List (List (String × Draft)) → List Toml
  | [] => []
  | entries :: rest => .table (sorted (finishEntries entries)) :: finishTables rest

end

end Draft

end Stencil.Toml
