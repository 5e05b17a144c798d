import Stencil.Data.Json.Tree
import Stencil.Proofs.DataFiles
/-
  Every way from host data to a value leads to values in form, and to every one of them
  (`converted_iff_canonical`). So it does not matter which way an integer took: two of them are
  equal in the values exactly if they are the same number.
-/

namespace Stencil

open Value

/-! ## JSON that was read by a host -/

namespace Json

namespace HostNumber

theorem canonical_toValue (n : HostNumber) : n.toValue.Canonical := by
  rw [toValue]
  split
  · exact canonical_scalar rfl trivial
  · next u hint huint =>
    -- had it fitted with a sign, the number would have answered so
    refine canonical_scalar rfl (Nat.lt_of_not_le fun hle => ?_)
    have hfits := n.int64_of_fits u huint (Nat.lt_succ_of_le hle)
    rw [hint] at hfits
    cases hfits
  · exact canonical_scalar rfl trivial

theorem integer?_toValue_of_int64? {n : HostNumber} {i : Int64} (h : n.int64? = some i) :
    n.toValue.integer? = some i.toInt := by
  rw [toValue, h]
  rfl

theorem integer?_toValue_of_uint64? {n : HostNumber} {u : UInt64} (h : n.uint64? = some u) :
    n.toValue.integer? = some (u.toNat : Int) := by
  cases hint : n.int64? with
  | some i => rw [integer?_toValue_of_int64? hint, n.int64_eq_uint64 i u hint h]
  | none =>
    rw [toValue, hint, h]
    rfl

end HostNumber

namespace Tree

mutual

theorem canonical_toValue (t : Tree) : t.toValue.Canonical := by
  match t with
  | .null | .bool _ | .str _ => exact canonical_scalar rfl trivial
  | .number n => exact n.canonical_toValue
  | .array items => exact canonical_seq.2 (canonical_itemValues items)
  | .object entries => exact canonical_ofPairs (canonical_entryValues entries)

theorem canonical_itemValues (ts : List Tree) : ∀ v ∈ itemValues ts, v.Canonical := by
  match ts with
  | [] => simp [itemValues]
  | t :: ts => exact List.forall_mem_cons.2 ⟨canonical_toValue t, canonical_itemValues ts⟩

theorem canonical_entryValues (entries : List (String × Tree)) :
    ∀ p ∈ entryValues entries, p.2.Canonical := by
  match entries with
  | [] => simp [entryValues]
  | (key, t) :: entries =>
    exact List.forall_mem_cons.2 ⟨canonical_toValue t, canonical_entryValues entries⟩

end

/-! JSON gives every value in form. -/

mutual

theorem exists_toValue_eq (v : Value) (h : v.Canonical) : ∃ t : Tree, t.toValue = v := by
  match v with
  | .null => exact ⟨.null, rfl⟩
  | .bool b => exact ⟨.bool b, rfl⟩
  | .int n => exact ⟨.number ⟨some n, none, none, by simp, by simp⟩, rfl⟩
  | .uint n =>
    have hform : 0x7fffffffffffffff < n.toNat := h _ .self
    refine ⟨.number ⟨none, some n, none, fun m hm hfits => ?_, by simp⟩, rfl⟩
    obtain rfl := Option.some.inj hm
    omega
  | .float x => exact ⟨.number ⟨none, none, some x, by simp, by simp⟩, rfl⟩
  | .str s => exact ⟨.str s, rfl⟩
  | .seq items =>
    obtain ⟨ts, rfl⟩ := exists_itemValues_eq items (canonical_seq.1 h)
    exact ⟨.array ts, rfl⟩
  | .map entries =>
    obtain ⟨hkeys, hentries⟩ := canonical_map.1 h
    obtain ⟨ts, rfl⟩ := exists_entryValues_eq entries hentries
    exact ⟨.object ts, congrArg Value.map (Entries.ofPairs_of_nodup hkeys)⟩

theorem exists_itemValues_eq (items : List Value) (h : ∀ v ∈ items, v.Canonical) :
    ∃ ts : List Tree, itemValues ts = items := by
  match items with
  | [] => exact ⟨[], rfl⟩
  | v :: items =>
    obtain ⟨hv, hitems⟩ := List.forall_mem_cons.1 h
    obtain ⟨t, rfl⟩ := exists_toValue_eq v hv
    obtain ⟨ts, rfl⟩ := exists_itemValues_eq items hitems
    exact ⟨t :: ts, rfl⟩

theorem exists_entryValues_eq (entries : List (String × Value))
    (h : ∀ e ∈ entries, e.2.Canonical) :
    ∃ ts : List (String × Tree), entryValues ts = entries := by
  match entries with
  | [] => exact ⟨[], rfl⟩
  | (key, v) :: entries =>
    obtain ⟨hv, hentries⟩ := List.forall_mem_cons.1 h
    obtain ⟨t, rfl⟩ := exists_toValue_eq v hv
    obtain ⟨ts, rfl⟩ := exists_entryValues_eq entries hentries
    exact ⟨(key, t) :: ts, rfl⟩

end

end Tree

end Json

/-! ## Integers -/

theorem Value.integer?_ofUInt64 (n : UInt64) : (ofUInt64 n).integer? = some (n.toNat : Int) := by
  rw [ofUInt64]
  split
  · next h =>
    rw [integer?, Int64.toInt_ofNat_of_lt h]
  · rfl

theorem Value.integer?_of_ofInt? {n : Int} {v : Value} (h : ofInt? n = some v) :
    v.integer? = some n := by
  rw [ofInt?] at h
  split at h
  · next hrange =>
    obtain rfl := Option.some.inj h
    rw [integer?, Int64.toInt_ofInt_of_le hrange.1 hrange.2]
  · split at h
    · next hrange =>
      obtain rfl := Option.some.inj h
      have hsize : n.toNat < 2 ^ 64 := by omega
      rw [integer?, UInt64.toNat_ofNat_of_lt' hsize, Int.toNat_of_nonneg (by omega)]
    · cases h

/-- The value that an integer becomes, on the way that the host has for it. -/
inductive IntegerConverted : Int → Value → Prop where
  | int32 (n : Int32) : IntegerConverted n.toInt (ofInt64 n.toInt64)
  | int64 (n : Int64) : IntegerConverted n.toInt (ofInt64 n)
  | uint64 (n : UInt64) : IntegerConverted n.toNat (ofUInt64 n)
  | jsonInt64 {n : Json.HostNumber} {i : Int64} (h : n.int64? = some i) :
    IntegerConverted i.toInt n.toValue
  | jsonUInt64 {n : Json.HostNumber} {u : UInt64} (h : n.uint64? = some u) :
    IntegerConverted u.toNat n.toValue
  | described {n : Int} {v : Value} (h : (Datum.int n).toValue = .ok v) : IntegerConverted n v
  | json {n : Int} {v : Value} (h : Json.ofNumber (.int n) = some v) : IntegerConverted n v
  | toml {n : Int} {v : Value} (h : (Toml.int n).toValue? = some v) : IntegerConverted n v
  | yaml {s : String} {n : Int} {v : Value} (hn : Yaml.int? s.toList = some n)
    (h : Yaml.intValue? s = some (some v)) : IntegerConverted n v

/-- No way changes the number. -/
theorem IntegerConverted.integer?_eq {n : Int} {v : Value} (h : IntegerConverted n v) :
    v.integer? = some n := by
  cases h with
  | int32 n => rw [ofInt64, integer?, Int32.toInt_toInt64]
  | int64 n => rfl
  | uint64 n => exact integer?_ofUInt64 n
  | jsonInt64 h => exact Json.HostNumber.integer?_toValue_of_int64? h
  | jsonUInt64 h => exact Json.HostNumber.integer?_toValue_of_uint64? h
  | described h =>
    rw [Datum.toValue] at h
    split at h
    · next w hw =>
      obtain rfl := Except.ok.inj h
      exact integer?_of_ofInt? hw
    · cases h
  | json h => exact integer?_of_ofInt? h
  | toml h =>
    rw [Toml.toValue?] at h
    split at h
    · next hrange =>
      obtain rfl := Option.some.inj h
      rw [integer?, Int64.toInt_ofInt_of_le hrange.1 hrange.2]
    · cases h
  | yaml hn h =>
    obtain ⟨k, hk, hv⟩ := Option.map_eq_some_iff.1 h
    obtain ⟨hk, -⟩ := Option.filter_eq_some_iff.1 hk
    obtain rfl := Option.some.inj (hn.symm.trans hk)
    exact integer?_of_ofInt? hv

/-! ## All ways -/

namespace Value

/-- A value that came about by conversion: from a host's scalars, options, lists and pairs, from its
    JSON, from data that describes itself, and from data files. -/
inductive Converted : Value → Prop where
  /-- An option that holds nothing. -/
  | absent : Converted .null
  | bool (b : Bool) : Converted (.bool b)
  | int32 (n : Int32) : Converted (ofInt64 n.toInt64)
  | int64 (n : Int64) : Converted (ofInt64 n)
  | uint64 (n : UInt64) : Converted (ofUInt64 n)
  | float (x : Binary64) : Converted (.float x)
  | str (s : String) : Converted (.str s)
  | list {items : List Value} (h : ∀ v ∈ items, Converted v) : Converted (.seq items)
  | pairs {pairs : List (String × Value)} (h : ∀ p ∈ pairs, Converted p.2) :
    Converted (ofPairs pairs)
  | json (t : Json.Tree) : Converted t.toValue
  | described {d : Datum} {v : Value} (h : d.toValue = .ok v) : Converted v
  | file {format : DataFormat} {text path : String} {v : Value}
    (h : format.parse text path = .ok v) : Converted v

theorem Converted.canonical {v : Value} (h : Converted v) : v.Canonical := by
  induction h with
  | absent | bool | int32 | int64 | float | str => exact canonical_scalar rfl trivial
  | uint64 n => exact canonical_ofUInt64 n
  | list _ ih => exact canonical_seq.2 ih
  | pairs _ ih => exact canonical_ofPairs ih
  | json t => exact t.canonical_toValue
  | described h => exact Datum.canonical_toValue _ h
  | file h => exact DataFormat.canonical_of_parse h

/-- The values that come about by conversion are those in form: no integer that fits with a sign is
    kept without one, and no map holds a key twice, at any depth. A repeated key of a list of pairs
    keeps its first place and takes its last value. An integer stays the number that it was, and two
    of them are equal exactly if they are the same number. -/
theorem converted_iff_canonical :
    (∀ v : Value, Converted v ↔ ∀ p, Part p v →
      (∀ n, p = .uint n → 0x7fffffffffffffff < n.toNat) ∧
      ∀ entries, p = .map entries → (entries.map (·.1)).Nodup) ∧
    (∀ pairs : List (String × Value), ∃ entries, ofPairs pairs = .map entries ∧
      entries.map (·.1) = (pairs.map (·.1)).eraseDups ∧
      ∀ key, entries.lookup key = pairs.reverse.lookup key) ∧
    (∀ (n : Int) (v : Value), IntegerConverted n v → v.integer? = some n) ∧
    ∀ v w : Value, Converted v → Converted w → ∀ a b, Part a v → Part b w →
      ∀ m n, a.integer? = some m → b.integer? = some n → (same a b = true ↔ m = n) := by
  refine ⟨fun v => ⟨fun h p hp => ?_, fun h => ?_⟩, fun pairs => ?_, fun n v => ?_, ?_⟩
  · have hform : p.InForm := h.canonical p hp
    constructor
    · rintro n rfl
      exact hform
    · rintro entries rfl
      exact hform
  · have hform : v.Canonical := fun p hp => by
      cases p with
      | uint n => exact (h _ hp).1 n rfl
      | map entries => exact (h _ hp).2 entries rfl
      | _ => trivial
    obtain ⟨t, rfl⟩ := Json.Tree.exists_toValue_eq v hform
    exact .json t
  · exact ⟨Entries.ofPairs pairs, rfl, Entries.keys_ofPairs pairs, Entries.lookup_ofPairs pairs⟩
  · exact IntegerConverted.integer?_eq
  · intro v w hv hw a b ha hb m n hm hn
    exact same_iff_of_integer? (hv.canonical a ha) (hw.canonical b hb) hm hn

/-- A repeated key, and the least integer that goes without a sign. -/
theorem converted_iff_canonical_least :
    (Datum.map [(.text "n", .unit), (.text "n", .seq [.int 9223372036854775808])]).toValue =
      .ok (.map [("n", .seq [.uint 9223372036854775808])]) ∧
    (ofUInt64 9223372036854775807).integer? = some 9223372036854775807 ∧
    same (.uint 9223372036854775808) (ofUInt64 9223372036854775808) = true ∧
    same (.uint 9223372036854775808) (ofUInt64 9223372036854775807) = false := by
  have hvalue : (Datum.map [(.text "n", .unit),
      (.text "n", .seq [.int 9223372036854775808])]).toValue =
      .ok (.map [("n", .seq [.uint 9223372036854775808])]) := rfl
  obtain ⟨-, -, hinteger, hsame⟩ := converted_iff_canonical
  have hpart : Part (.uint 9223372036854775808)
      (.map [("n", .seq [.uint 9223372036854775808])]) :=
    .entry (List.mem_singleton.2 rfl) (.item (List.mem_singleton.2 rfl) .self)
  have hiff (n : UInt64) : same (.uint 9223372036854775808) (ofUInt64 n) = true ↔
      (9223372036854775808 : Int) = n.toNat :=
    hsame _ _ (.described hvalue) (.uint64 n) _ _ hpart .self _ _ rfl (hinteger _ _ (.uint64 n))
  refine ⟨hvalue, hinteger _ _ (.uint64 9223372036854775807), (hiff _).2 rfl, ?_⟩
  exact Bool.eq_false_iff.2 (mt (hiff _).1 (by decide))

end Value

end Stencil
