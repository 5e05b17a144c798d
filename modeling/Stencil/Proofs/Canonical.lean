import Mathlib.Data.List.Induction
import Mathlib.Data.List.Nodup
import Stencil.Datum
import Stencil.Proofs.Reordering
/-
  The one form of values that are made by conversion: an integer is kept without a sign only if it
  does not fit with one, and a map holds every key once. So two integers in such values are equal
  exactly if they are the same number (`same_iff_of_integer?`). Collecting pairs gives that form,
  and so does the description of host data.
-/

namespace Stencil

/-! ## Pairs -/

namespace Entries

variable {α : Type}

theorem ofPairs_concat (pairs : List (String × α)) (key : String) (v : α) :
    ofPairs (pairs ++ [(key, v)]) = insert key v (ofPairs pairs) := by
  rw [ofPairs, List.foldl_append]
  rfl

theorem keys_insert (key : String) (v : α) (entries : List (String × α)) :
    (insert key v entries).map (·.1) =
      entries.map (·.1) ++ if key ∈ entries.map (·.1) then [] else [key] := by
  split
  · next h => rw [List.append_nil, insert, keys_modify_of_mem h]
  · next h => rw [insert, keys_modify_of_not_mem h]

/-- A repeated key keeps its first place. -/
theorem keys_ofPairs (pairs : List (String × α)) :
    (ofPairs pairs).map (·.1) = (pairs.map (·.1)).eraseDups := by
  induction pairs using List.reverseRecOn with
  | nil => rfl
  | append_singleton pairs p ih =>
    obtain ⟨key, v⟩ := p
    have hmem : key ∈ (ofPairs pairs).map (·.1) ↔ key ∈ pairs.map (·.1) := by
      rw [ih, List.mem_eraseDups]
    rw [ofPairs_concat, keys_insert, List.map_append, List.eraseDups_append, ← ih]
    by_cases hkey : key ∈ pairs.map (·.1)
    · rw [if_pos (hmem.2 hkey)]
      simp [List.cons_removeAll, hkey]
    · rw [if_neg (mt hmem.1 hkey)]
      simp [List.cons_removeAll, hkey, List.eraseDups_cons]

theorem nodup_keys_ofPairs (pairs : List (String × α)) : ((ofPairs pairs).map (·.1)).Nodup := by
  induction pairs using List.reverseRecOn with
  | nil => exact .nil
  | append_singleton pairs p ih =>
    rw [ofPairs_concat, keys_insert]
    split
    · rwa [List.append_nil]
    · next h => exact List.concat_eq_append ▸ ih.concat h

/-- A repeated key takes its last value. -/
theorem lookup_ofPairs (pairs : List (String × α)) (key : String) :
    (ofPairs pairs).lookup key = pairs.reverse.lookup key := by
  induction pairs using List.reverseRecOn with
  | nil => rfl
  | append_singleton pairs p ih =>
    rw [ofPairs_concat, insert, lookup_modify, List.reverse_concat, lookup_cons, ih]

/-- Every entry is one of the pairs. -/
theorem mem_of_mem_ofPairs {pairs : List (String × α)} {e : String × α} (h : e ∈ ofPairs pairs) :
    e ∈ pairs := by
  have hlookup := lookup_of_mem (nodup_keys_ofPairs pairs) h
  rw [lookup_ofPairs] at hlookup
  exact List.mem_reverse.1 (mem_of_lookup hlookup)

theorem modify_of_not_mem {key : String} {new : α} {f : α → α} {entries : List (String × α)}
    (h : key ∉ entries.map (·.1)) : modify key new f entries = entries ++ [(key, f new)] := by
  induction entries with
  | nil => rfl
  | cons e entries ih =>
    rw [List.map_cons, List.mem_cons, not_or] at h
    rw [modify, if_neg (Ne.symm h.1), ih h.2, List.cons_append]

/-- Pairs in which no key stands twice are left as they are. -/
theorem ofPairs_of_nodup {pairs : List (String × α)} (h : (pairs.map (·.1)).Nodup) :
    ofPairs pairs = pairs := by
  induction pairs using List.reverseRecOn with
  | nil => rfl
  | append_singleton pairs p ih =>
    obtain ⟨key, v⟩ := p
    rw [List.map_append, List.nodup_append] at h
    have hpairs := ih h.1
    have hkey : key ∉ pairs.map (·.1) := fun hmem => h.2.2 key hmem key (by simp) rfl
    rw [ofPairs_concat, hpairs, insert, modify_of_not_mem hkey]

end Entries

/-! ## The form -/

namespace Value

/-- Whether a value is in form, whatever its parts are. -/
def InForm : Value → Prop
  | .uint n => 0x7fffffffffffffff < n.toNat
  | .map entries => (entries.map (·.1)).Nodup
  | _ => True

/-- A value is in form at every depth. -/
def Canonical (v : Value) : Prop := v.Everywhere InForm

theorem canonical_seq {items : List Value} :
    Canonical (.seq items) ↔ ∀ v ∈ items, v.Canonical := by
  rw [Canonical, everywhere_seq]
  exact and_iff_right trivial

theorem canonical_map {entries : List (String × Value)} :
    Canonical (.map entries) ↔ (entries.map (·.1)).Nodup ∧ ∀ e ∈ entries, e.2.Canonical :=
  everywhere_map

/-- The form asks nothing of anything but maps, sequences and integers without a sign. -/
theorem canonical_scalar {v : Value} (h : v.elements? = none) (hform : v.InForm) : v.Canonical :=
  (everywhere_scalar h).2 hform

theorem canonical_ofPairs {pairs : List (String × Value)} (h : ∀ p ∈ pairs, p.2.Canonical) :
    (ofPairs pairs).Canonical :=
  canonical_map.2 ⟨Entries.nodup_keys_ofPairs pairs,
    fun e he => h e (Entries.mem_of_mem_ofPairs he)⟩

theorem canonical_ofUInt64 (n : UInt64) : (ofUInt64 n).Canonical := by
  rw [ofUInt64]
  split
  · exact canonical_scalar rfl trivial
  · next h => exact canonical_scalar rfl (Nat.lt_of_succ_le (Nat.le_of_not_lt h))

theorem canonical_ofInt? {n : Int} {v : Value} (h : ofInt? n = some v) : v.Canonical := by
  rw [ofInt?] at h
  split at h
  · obtain rfl := Option.some.inj h
    exact canonical_scalar rfl trivial
  · split at h
    · next hrange =>
      obtain rfl := Option.some.inj h
      have hsize : n.toNat < 2 ^ 64 := by omega
      have hnat : (UInt64.ofNat n.toNat).toNat = n.toNat := UInt64.toNat_ofNat_of_lt' hsize
      refine canonical_scalar rfl ?_
      rw [InForm, hnat]
      omega
    · cases h

/-! ## Integers -/

/-- The number that an integer value is. -/
def integer? : Value → Option Int
  | .int n => some n.toInt
  | .uint n => some n.toNat
  | _ => none

/-- Integers in form are equal exactly if they are the same number. -/
theorem same_iff_of_integer? {a b : Value} {m n : Int} (ha : a.InForm) (hb : b.InForm)
    (hm : a.integer? = some m) (hn : b.integer? = some n) : same a b = true ↔ m = n := by
  cases a with
  | int x =>
    obtain rfl := Option.some.inj hm
    cases b with
    | int y =>
      obtain rfl := Option.some.inj hn
      rw [same, beq_iff_eq, Int64.toInt_inj]
    | uint y =>
      -- an integer that fits with a sign is kept with one
      obtain rfl := Option.some.inj hn
      have hx := x.toInt_lt
      have hy : 0x7fffffffffffffff < y.toNat := hb
      refine iff_of_false Bool.false_ne_true ?_
      omega
    | _ => cases hn
  | uint x =>
    obtain rfl := Option.some.inj hm
    cases b with
    | int y =>
      obtain rfl := Option.some.inj hn
      have hx : 0x7fffffffffffffff < x.toNat := ha
      have hy := y.toInt_lt
      refine iff_of_false Bool.false_ne_true ?_
      omega
    | uint y =>
      obtain rfl := Option.some.inj hn
      rw [same, beq_iff_eq, Int.natCast_inj, UInt64.toNat_inj]
    | _ => cases hn
  | _ => cases hm

end Value

/-! ## Host data -/

section

variable {ε α β : Type}

theorem ok_of_bind {x : Except ε α} {f : α → Except ε β} {b : β} (h : (x >>= f) = .ok b) :
    ∃ a, x = .ok a ∧ f a = .ok b := by
  cases x with
  | error e => cases h
  | ok a => exact ⟨a, rfl, h⟩

theorem ok_of_map {x : Except ε α} {f : α → β} {b : β} (h : x.map f = .ok b) :
    ∃ a, x = .ok a ∧ f a = b := by
  cases x with
  | error e => cases h
  | ok a => exact ⟨a, rfl, Except.ok.inj h⟩

end

namespace Datum

open Value

theorem canonical_floatValue (x : Binary64) : (floatValue x).Canonical := by
  rw [floatValue]
  split
  · exact canonical_scalar rfl trivial
  · exact canonical_scalar rfl trivial

mutual

theorem canonical_toValue (d : Datum) {v : Value} (h : d.toValue = .ok v) : v.Canonical := by
  match d with
  | .int n =>
    rw [toValue] at h
    split at h
    · next w hw =>
      obtain rfl := Except.ok.inj h
      exact canonical_ofInt? hw
    · cases h
  | .float32 bits =>
    obtain rfl := Except.ok.inj h
    cases Binary64.ofBinary32? bits with
    | none => exact canonical_scalar rfl trivial
    | some x => exact canonical_floatValue x
  | .float x =>
    obtain rfl := Except.ok.inj h
    exact canonical_floatValue x
  | .bytes octets =>
    obtain rfl := Except.ok.inj h
    refine canonical_seq.2 fun v hv => ?_
    obtain ⟨b, -, rfl⟩ := List.mem_map.1 hv
    exact canonical_scalar rfl trivial
  | .present d => exact canonical_toValue d h
  | .seq items =>
    obtain ⟨vs, hvs, rfl⟩ := ok_of_map h
    exact canonical_seq.2 (canonical_itemValues items hvs)
  | .map entries =>
    obtain ⟨pairs, hpairs, rfl⟩ := ok_of_map h
    exact canonical_ofPairs (canonical_entryValues entries hpairs)
  | .record fields =>
    obtain ⟨pairs, hpairs, rfl⟩ := ok_of_map h
    exact canonical_ofPairs (canonical_fieldValues fields hpairs)
  | .variantOf name d =>
    obtain ⟨w, hw, rfl⟩ := ok_of_map h
    refine canonical_map.2 ⟨List.nodup_singleton name, ?_⟩
    exact List.forall_mem_singleton.2 (canonical_toValue d hw)
  | .unit | .bool _ | .text _ | .variant _ =>
    obtain rfl := Except.ok.inj h
    exact canonical_scalar rfl trivial
  | .refused reason => cases h

theorem canonical_itemValues (ds : List Datum) {vs : List Value} (h : itemValues ds = .ok vs) :
    ∀ v ∈ vs, v.Canonical := by
  match ds with
  | [] =>
    obtain rfl := Except.ok.inj h
    simp
  | d :: ds =>
    obtain ⟨v, hv, h⟩ := ok_of_bind h
    obtain ⟨vs, hvs, h⟩ := ok_of_bind h
    obtain rfl := Except.ok.inj h
    exact List.forall_mem_cons.2 ⟨canonical_toValue d hv, canonical_itemValues ds hvs⟩

theorem canonical_entryValues (entries : List (Datum × Datum)) {pairs : List (String × Value)}
    (h : entryValues entries = .ok pairs) : ∀ p ∈ pairs, p.2.Canonical := by
  match entries with
  | [] =>
    obtain rfl := Except.ok.inj h
    simp
  | (k, d) :: entries =>
    obtain ⟨key, -, h⟩ := ok_of_bind h
    obtain ⟨v, hv, h⟩ := ok_of_bind h
    obtain ⟨pairs, hpairs, h⟩ := ok_of_bind h
    obtain rfl := Except.ok.inj h
    exact List.forall_mem_cons.2 ⟨canonical_toValue d hv, canonical_entryValues entries hpairs⟩

theorem canonical_fieldValues (fields : List (String × Datum)) {pairs : List (String × Value)}
    (h : fieldValues fields = .ok pairs) : ∀ p ∈ pairs, p.2.Canonical := by
  match fields with
  | [] =>
    obtain rfl := Except.ok.inj h
    simp
  | (name, d) :: fields =>
    obtain ⟨v, hv, h⟩ := ok_of_bind h
    obtain ⟨pairs, hpairs, h⟩ := ok_of_bind h
    obtain rfl := Except.ok.inj h
    exact List.forall_mem_cons.2 ⟨canonical_toValue d hv, canonical_fieldValues fields hpairs⟩

end

end Datum

end Stencil
