import Stencil.Value.Basic
/-
  Host data that describes itself, and how it becomes a value.
-/

namespace Stencil

inductive Datum where
  /-- Nothing, or something that is absent. -/
  | unit
  | bool (b : Bool)
  | int (n : Int)
  | float32 (bits : UInt32)
  | float (x : Binary64)
  | text (s : String)
  | bytes (octets : List UInt8)
  /-- Something optional that is there. -/
  | present (d : Datum)
  | seq (items : List Datum)
  | map (entries : List (Datum × Datum))
  | record (fields : List (String × Datum))
  /-- An alternative that holds nothing. -/
  | variant (name : String)
  /-- An alternative that holds one thing. -/
  | variantOf (name : String) (d : Datum)
  /-- Data that refuses to be described. -/
  | refused (reason : String)

/-- Why data has no value. -/
inductive DatumError where
  | numberOutOfRange
  | floatKeyNotFinite
  | keyNotText
  | refused (reason : String)
deriving DecidableEq, Repr

def DatumError.message : DatumError → String
  | .numberOutOfRange => "number out of range"
  | .floatKeyNotFinite => "float key must be finite (got NaN or +/-inf)"
  | .keyNotText => "key must be a string"
  | .refused reason => reason

namespace Datum

/-- A float as a value; what is not finite has no value and becomes null. -/
def floatValue (x : Binary64) : Value := if x.isFinite then .float x else .null

/-- The text of a key. Only scalars can be keys. -/
def keyText : Datum → Except DatumError String
  | .text s => .ok s
  | .variant name => .ok name
  | .bool b => .ok (if b then "true" else "false")
  | .int n => .ok (toString n)
  | .float x => if x.isFinite then .ok x.keyText else .error .floatKeyNotFinite
  | .float32 bits =>
    if (Binary64.ofBinary32? bits).isSome then .ok (Binary64.keyText32 bits)
    else .error .floatKeyNotFinite
  | .refused reason => .error (.refused reason)
  | _ => .error .keyNotText

mutual

def toValue : Datum → Except DatumError Value
  | .unit => .ok .null
  | .bool b => .ok (.bool b)
  | .int n =>
    match Value.ofInt? n with
    | some v => .ok v
    | none => .error .numberOutOfRange
  | .float32 bits => .ok (((Binary64.ofBinary32? bits).map floatValue).getD .null)
  | .float x => .ok (floatValue x)
  | .text s => .ok (.str s)
  | .bytes octets => .ok (.seq (octets.map fun b => .int (Int64.ofNat b.toNat)))
  | .present d => toValue d
  | .seq items => (itemValues items).map .seq
  | .map entries => (entryValues entries).map Value.ofPairs
  | .record fields => (fieldValues fields).map Value.ofPairs
  | .variant name => .ok (.str name)
  | .variantOf name d => (toValue d).map fun v => .map [(name, v)]
  | .refused reason => .error (.refused reason)

def itemValues : List Datum → Except DatumError (List Value)
  | [] => .ok []
  | d :: ds => do
    let v ← toValue d
    let vs ← itemValues ds
    return v :: vs

def entryValues : List (Datum × Datum) → Except DatumError (List (String × Value))
  | [] => .ok []
  | (k, d) :: rest => do
    let key ← keyText k
    let v ← toValue d
    let pairs ← entryValues rest
    return (key, v) :: pairs

def fieldValues : List (String × Datum) → Except DatumError (List (String × Value))
  | [] => .ok []
  | (name, d) :: rest => do
    let v ← toValue d
    let pairs ← fieldValues rest
    return (name, v) :: pairs

end

end Datum

end Stencil
