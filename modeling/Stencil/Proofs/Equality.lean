import Stencil.Value.Equality
/-
  How far equality of values is an equivalence. Two floats count as the same within two steps, so
  four steps are two times two: equality is not transitive (`not_same_trans`). Nothing but the
  floats stands in the way. On values whose floats are taken from some set, equality is transitive
  exactly when it is on that set of floats (`same_trans_iff`).
-/

namespace Stencil.Value

/-! ## The floats of a value -/

mutual

/-- Every float in a value, at any depth, is in the set. -/
def FloatsIn (S : Binary64 → Prop) : Value → Prop
  | .float x => S x
  | .seq items => ItemsIn S items
  | .map entries => EntriesIn S entries
  | .null | .bool _ | .int _ | .uint _ | .str _ => True

def ItemsIn (S : Binary64 → Prop) : List Value → Prop
  | [] => True
  | v :: vs => v.FloatsIn S ∧ ItemsIn S vs

def EntriesIn (S : Binary64 → Prop) : List (String × Value) → Prop
  | [] => True
  | (_, v) :: entries => v.FloatsIn S ∧ EntriesIn S entries

end

theorem floatsIn_of_lookup {S : Binary64 → Prop} {key : String} {v : Value}
    {entries : List (String × Value)} (h : EntriesIn S entries)
    (hkey : entries.lookup key = some v) : v.FloatsIn S := by
  induction entries with
  | nil => simp at hkey
  | cons e entries ih =>
    obtain ⟨k, w⟩ := e
    rw [Entries.lookup_cons] at hkey
    split at hkey
    · obtain rfl := Option.some.inj hkey
      exact h.1
    · exact ih h.2 hkey

/-! ## What equal values have in common -/

theorem same_float {x : Binary64} {b : Value} (h : same (.float x) b = true) :
    ∃ y, b = .float y ∧ x.nearlyEqual y = true := by
  cases b <;> simp_all [same]

theorem same_seq {as : List Value} {b : Value} (h : same (.seq as) b = true) :
    ∃ bs, b = .seq bs ∧ sameItems as bs = true := by
  cases b <;> simp_all [same]

theorem same_map {as : List (String × Value)} {b : Value} (h : same (.map as) b = true) :
    ∃ bs, b = .map bs ∧ as.length = bs.length ∧ entriesIn as bs = true := by
  cases b <;> simp_all [same]

/-- Outside floats and containers, only equal values are the same. -/
theorem eq_of_same {a b : Value} (h : same a b = true) (hfloat : ∀ x, a ≠ .float x)
    (hseq : ∀ items, a ≠ .seq items) (hmap : ∀ entries, a ≠ .map entries) : a = b := by
  cases a <;> cases b <;> simp_all [same]

theorem entriesIn_cons {key : String} {a : Value} {as bs : List (String × Value)} :
    entriesIn ((key, a) :: as) bs = true ↔
      (∃ b, bs.lookup key = some b ∧ same a b = true) ∧ entriesIn as bs = true := by
  rw [entriesIn, Bool.and_eq_true]
  cases bs.lookup key <;> simp

/-- Every entry of the first map that can be looked up has its like in the second. -/
theorem lookup_of_entriesIn {key : String} {a : Value} {as bs : List (String × Value)}
    (h : entriesIn as bs = true) (hkey : as.lookup key = some a) :
    ∃ b, bs.lookup key = some b ∧ same a b = true := by
  induction as with
  | nil => simp at hkey
  | cons e as ih =>
    obtain ⟨k, v⟩ := e
    obtain ⟨hhead, hrest⟩ := entriesIn_cons.1 h
    rw [Entries.lookup_cons] at hkey
    split at hkey
    · next hk =>
      subst hk
      obtain rfl := Option.some.inj hkey
      exact hhead
    · exact ih hrest hkey

/-! ## Transitivity -/

/-- Nearness is transitive among these floats. -/
def NearTrans (S : Binary64 → Prop) : Prop :=
  ∀ x y z, S x → S y → S z →
    x.nearlyEqual y = true → y.nearlyEqual z = true → x.nearlyEqual z = true

variable {S : Binary64 → Prop}

mutual

theorem same_trans_of_floats (hS : NearTrans S) (a : Value) {b c : Value} (ha : a.FloatsIn S)
    (hb : b.FloatsIn S) (hc : c.FloatsIn S) (hab : same a b = true) (hbc : same b c = true) :
    same a c = true := by
  match a with
  | .float x =>
    obtain ⟨y, rfl, hxy⟩ := same_float hab
    obtain ⟨z, rfl, hyz⟩ := same_float hbc
    exact hS x y z ha hb hc hxy hyz
  | .seq as =>
    obtain ⟨bs, rfl, hitems⟩ := same_seq hab
    obtain ⟨cs, rfl, hitems'⟩ := same_seq hbc
    exact sameItems_trans_of_floats hS as ha hb hc hitems hitems'
  | .map as =>
    obtain ⟨bs, rfl, hlength, hentries⟩ := same_map hab
    obtain ⟨cs, rfl, hlength', hentries'⟩ := same_map hbc
    have hac := entriesIn_trans_of_floats hS as ha hb hc hentries hentries'
    simp only [same, hac, hlength.trans hlength', beq_self_eq_true, Bool.and_true]
  | .null | .bool _ | .int _ | .uint _ | .str _ =>
    obtain rfl := eq_of_same hab nofun nofun nofun
    exact hbc

theorem sameItems_trans_of_floats (hS : NearTrans S) (as : List Value) {bs cs : List Value}
    (ha : ItemsIn S as) (hb : ItemsIn S bs) (hc : ItemsIn S cs) (hab : sameItems as bs = true)
    (hbc : sameItems bs cs = true) : sameItems as cs = true := by
  match as, bs, cs, ha, hb, hc, hab, hbc with
  | [], [], [], _, _, _, _, _ => rfl
  | a :: as, b :: bs, c :: cs, ha, hb, hc, hab, hbc =>
    rw [sameItems, Bool.and_eq_true] at hab hbc ⊢
    exact ⟨same_trans_of_floats hS a ha.1 hb.1 hc.1 hab.1 hbc.1,
      sameItems_trans_of_floats hS as ha.2 hb.2 hc.2 hab.2 hbc.2⟩

theorem entriesIn_trans_of_floats (hS : NearTrans S) (as : List (String × Value))
    {bs cs : List (String × Value)} (ha : EntriesIn S as) (hb : EntriesIn S bs)
    (hc : EntriesIn S cs) (hab : entriesIn as bs = true) (hbc : entriesIn bs cs = true) :
    entriesIn as cs = true := by
  match as with
  | [] => rfl
  | (key, a) :: as =>
    obtain ⟨⟨b, hkey, hsame⟩, hrest⟩ := entriesIn_cons.1 hab
    -- the like of an entry is found by its key, and so is the like of that one
    obtain ⟨c, hkey', hsame'⟩ := lookup_of_entriesIn hbc hkey
    have hac := same_trans_of_floats hS a ha.1 (floatsIn_of_lookup hb hkey)
      (floatsIn_of_lookup hc hkey') hsame hsame'
    exact entriesIn_cons.2 ⟨⟨c, hkey', hac⟩, entriesIn_trans_of_floats hS as ha.2 hb hc hrest hbc⟩

end

/-- Equality is transitive on the values over some floats exactly when it is on these floats. -/
theorem same_trans_iff (S : Binary64 → Prop) :
    (∀ a b c : Value, a.FloatsIn S → b.FloatsIn S → c.FloatsIn S →
        same a b = true → same b c = true → same a c = true) ↔
      NearTrans S := by
  constructor
  · intro h x y z hx hy hz hxy hyz
    have hxz := h (.float x) (.float y) (.float z) hx hy hz
    simp only [same] at hxz
    exact hxz hxy hyz
  · intro hS a b c ha hb hc hab hbc
    exact same_trans_of_floats hS a ha hb hc hab hbc

/-- The number one, two steps above it, and two steps above that. -/
theorem not_same_trans :
    same (.float ⟨0x3ff0000000000000⟩) (.float ⟨0x3ff0000000000002⟩) = true ∧
      same (.float ⟨0x3ff0000000000002⟩) (.float ⟨0x3ff0000000000004⟩) = true ∧
      same (.float ⟨0x3ff0000000000000⟩) (.float ⟨0x3ff0000000000004⟩) = false := by
  decide

end Stencil.Value
