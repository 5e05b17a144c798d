import Mathlib.Data.List.Perm.Subperm
import Mathlib.Logic.Relation
import Stencil.Proofs.Equality
/-
  Equality of values is reflexive and symmetric and does not see in which order a map holds its
  entries, at any depth (`same_refl_comm_reordered`). It goes over the entries of one map and looks
  them up in the other; that both sides come out alike rests on maps that hold every key once.
-/

namespace Stencil

/-! ## Floats -/

namespace Binary64

/-- The difference the other way round is the negative one; only the least word has no negative, and
    its own counts as the same distance. -/
theorem distance_comm (x y : Binary64) : x.distance y = y.distance x := by
  have hneg : (y.ordered - x.ordered).toInt = (-(x.ordered - y.ordered).toInt).bmod (2 ^ 64) := by
    rw [← Int64.toInt_neg, Int64.neg_sub]
  have hlow := Int64.le_toInt (x.ordered - y.ordered)
  have hhigh := Int64.toInt_lt (x.ordered - y.ordered)
  simp only [distance, hneg]
  congr 1
  rw [Int.bmod]
  omega

theorem distance_self (x : Binary64) : x.distance x = 0 := by
  simp [distance]

theorem sameNumber_comm (x y : Binary64) : x.sameNumber y = y.sameNumber x := by
  rw [sameNumber, sameNumber, Bool.and_comm (!x.isNaN), Bool.and_comm x.isZero, BEq.comm]

theorem nearlyEqual_self (x : Binary64) : x.nearlyEqual x = true := by
  simp [nearlyEqual, distance_self]

theorem nearlyEqual_comm (x y : Binary64) : x.nearlyEqual y = y.nearlyEqual x := by
  rw [nearlyEqual, nearlyEqual, sameNumber_comm, distance_comm]

end Binary64

/-! ## Keys that stand once -/

namespace Entries

variable {α : Type} {entries : List (String × α)} {key : String} {v : α}

theorem mem_of_lookup (h : entries.lookup key = some v) : (key, v) ∈ entries := by
  induction entries with
  | nil => simp at h
  | cons e entries ih =>
    rw [lookup_cons] at h
    split at h
    · next hkey =>
      obtain rfl := Option.some.inj h
      exact hkey ▸ List.mem_cons_self ..
    · exact List.mem_cons_of_mem _ (ih h)

/-- Where no key stands twice, every entry is found under its key. -/
theorem lookup_of_mem (hkeys : (entries.map (·.1)).Nodup) (h : (key, v) ∈ entries) :
    entries.lookup key = some v := by
  induction entries with
  | nil => simp at h
  | cons e entries ih =>
    obtain ⟨hfirst, hrest⟩ := List.nodup_cons.1 hkeys
    rw [lookup_cons]
    rcases List.mem_cons.1 h with rfl | h
    · exact if_pos rfl
    · have hne : key ≠ e.1 := by
        rintro rfl
        exact hfirst (List.mem_map.2 ⟨_, h, rfl⟩)
      rw [if_neg hne, ih hrest h]

end Entries

namespace Value

/-! ## Parts of a value -/

/-- The parts of a value, at any depth. It is one of them itself. -/
inductive Part (w : Value) : Value → Prop where
  | self : Part w w
  | item {v : Value} {items : List Value} : v ∈ items → Part w v → Part w (.seq items)
  | entry {e : String × Value} {entries : List (String × Value)} :
    e ∈ entries → Part w e.2 → Part w (.map entries)

/-- Something holds of every part of a value. -/
def Everywhere (P : Value → Prop) (v : Value) : Prop := ∀ w, Part w v → P w

theorem everywhere_scalar {P : Value → Prop} {v : Value} (h : v.elements? = none) :
    v.Everywhere P ↔ P v := by
  constructor
  · exact fun hv => hv v .self
  · rintro hself w (_ | _ | _)
    · exact hself
    · cases h
    · cases h

theorem everywhere_seq {P : Value → Prop} {items : List Value} :
    Everywhere P (.seq items) ↔ P (.seq items) ∧ ∀ v ∈ items, v.Everywhere P := by
  constructor
  · exact fun h => ⟨h _ .self, fun v hv w hw => h w (.item hv hw)⟩
  · rintro ⟨hself, hitems⟩ w (_ | ⟨hv, hw⟩)
    · exact hself
    · exact hitems _ hv w hw

theorem everywhere_map {P : Value → Prop} {entries : List (String × Value)} :
    Everywhere P (.map entries) ↔ P (.map entries) ∧ ∀ e ∈ entries, e.2.Everywhere P := by
  constructor
  · exact fun h => ⟨h _ .self, fun e he w hw => h w (.entry he hw)⟩
  · rintro ⟨hself, hentries⟩ w (_ | _ | ⟨he, hw⟩)
    · exact hself
    · exact hentries _ he w hw

/-- Whether a value, if it is a map, holds every key once. -/
def HasKeysOnce : Value → Prop
  | .map entries => (entries.map (·.1)).Nodup
  | _ => True

/-- Every map in a value, at any depth, holds every key once. -/
def KeysOnce (v : Value) : Prop := v.Everywhere HasKeysOnce

theorem keysOnce_scalar {v : Value} (h : v.elements? = none) : v.KeysOnce := by
  refine (everywhere_scalar h).2 ?_
  cases v with
  | map entries => cases h
  | _ => trivial

theorem keysOnce_seq {items : List Value} : KeysOnce (.seq items) ↔ ∀ v ∈ items, v.KeysOnce := by
  rw [KeysOnce, everywhere_seq]
  exact and_iff_right trivial

theorem keysOnce_map {entries : List (String × Value)} :
    KeysOnce (.map entries) ↔ (entries.map (·.1)).Nodup ∧ ∀ e ∈ entries, e.2.KeysOnce :=
  everywhere_map

/-! ## Reflexivity -/

theorem entriesIn_iff {as bs : List (String × Value)} : entriesIn as bs = true ↔
    ∀ e ∈ as, ∃ b, bs.lookup e.1 = some b ∧ same e.2 b = true := by
  induction as with
  | nil => simp [entriesIn]
  | cons e as ih =>
    obtain ⟨key, a⟩ := e
    rw [entriesIn_cons, ih, List.forall_mem_cons]

mutual

theorem same_refl (a : Value) (ha : a.KeysOnce) : same a a = true := by
  match a with
  | .float x => exact x.nearlyEqual_self
  | .seq items => exact sameItems_refl items (keysOnce_seq.1 ha)
  | .map entries =>
    obtain ⟨hkeys, hvalues⟩ := keysOnce_map.1 ha
    have hself := values_refl entries hvalues
    have hentries : entriesIn entries entries = true := entriesIn_iff.2 fun e he =>
      ⟨e.2, Entries.lookup_of_mem hkeys he, hself e he⟩
    simp only [same, hentries, beq_self_eq_true, Bool.and_true]
  | .null | .bool _ | .int _ | .uint _ | .str _ => simp only [same, beq_self_eq_true]

theorem sameItems_refl (items : List Value) (h : ∀ v ∈ items, v.KeysOnce) :
    sameItems items items = true := by
  match items with
  | [] => rfl
  | v :: items =>
    obtain ⟨hfirst, hrest⟩ := List.forall_mem_cons.1 h
    rw [sameItems, same_refl v hfirst, sameItems_refl items hrest, Bool.and_true]

theorem values_refl (entries : List (String × Value)) (h : ∀ e ∈ entries, e.2.KeysOnce) :
    ∀ e ∈ entries, same e.2 e.2 = true := by
  match entries with
  | [] => simp
  | (key, v) :: entries =>
    obtain ⟨hfirst, hrest⟩ := List.forall_mem_cons.1 h
    exact List.forall_mem_cons.2 ⟨same_refl v hfirst, values_refl entries hrest⟩

end

/-! ## Symmetry -/

/-- A map that has no more keys than another, and the like of each of its entries, has no fewer
    keys either. -/
theorem key_mem_of_entriesIn {as bs : List (String × Value)} (hkeys : (as.map (·.1)).Nodup)
    (hlength : as.length = bs.length) (h : entriesIn as bs = true) :
    ∀ e ∈ bs, e.1 ∈ as.map (·.1) := by
  have hsub : as.map (·.1) ⊆ bs.map (·.1) := by
    intro key hkey
    obtain ⟨e, he, rfl⟩ := List.mem_map.1 hkey
    obtain ⟨b, hb, -⟩ := entriesIn_iff.1 h e he
    exact List.mem_map.2 ⟨_, Entries.mem_of_lookup hb, rfl⟩
  have hperm := (List.subperm_of_subset hkeys hsub).perm_of_length_le (by simp [hlength])
  exact fun e he => hperm.mem_iff.2 (List.mem_map_of_mem he)

mutual

theorem same_symm (a : Value) {b : Value} (ha : a.KeysOnce) (hb : b.KeysOnce)
    (h : same a b = true) : same b a = true := by
  match a with
  | .float x =>
    obtain ⟨y, rfl, hxy⟩ := same_float h
    exact (y.nearlyEqual_comm x).trans hxy
  | .seq as =>
    obtain ⟨bs, rfl, hitems⟩ := same_seq h
    exact sameItems_symm as (keysOnce_seq.1 ha) (keysOnce_seq.1 hb) hitems
  | .map as =>
    obtain ⟨bs, rfl, hlength, hentries⟩ := same_map h
    obtain ⟨hakeys, havalues⟩ := keysOnce_map.1 ha
    obtain ⟨hbkeys, hbvalues⟩ := keysOnce_map.1 hb
    have hsymm := values_symm as havalues
    have hback : entriesIn bs as = true := by
      refine entriesIn_iff.2 fun e he => ?_
      obtain ⟨e', he', hkey⟩ := List.mem_map.1 (key_mem_of_entriesIn hakeys hlength hentries e he)
      obtain ⟨b, hb, hsame⟩ := entriesIn_iff.1 hentries e' he'
      -- the like of the entry under this key can only be the entry looked at
      rw [hkey, Entries.lookup_of_mem hbkeys he] at hb
      obtain rfl := Option.some.inj hb
      exact ⟨e'.2, Entries.lookup_of_mem hakeys (hkey ▸ he'), hsymm e' he' _ (hbvalues e he) hsame⟩
    simp only [same, hback, hlength, beq_self_eq_true, Bool.and_true]
  | .null | .bool _ | .int _ | .uint _ | .str _ =>
    obtain rfl := eq_of_same h nofun nofun nofun
    exact h

theorem sameItems_symm (as : List Value) {bs : List Value} (ha : ∀ v ∈ as, v.KeysOnce)
    (hb : ∀ v ∈ bs, v.KeysOnce) (h : sameItems as bs = true) : sameItems bs as = true := by
  match as, bs, ha, hb, h with
  | [], [], _, _, _ => rfl
  | a :: as, b :: bs, ha, hb, h =>
    rw [List.forall_mem_cons] at ha hb
    rw [sameItems, Bool.and_eq_true] at h ⊢
    exact ⟨same_symm a ha.1 hb.1 h.1, sameItems_symm as ha.2 hb.2 h.2⟩

theorem values_symm (as : List (String × Value)) (ha : ∀ e ∈ as, e.2.KeysOnce) :
    ∀ e ∈ as, ∀ b : Value, b.KeysOnce → same e.2 b = true → same b e.2 = true := by
  match as with
  | [] => simp
  | (key, a) :: as =>
    rw [List.forall_mem_cons] at ha
    exact List.forall_mem_cons.2 ⟨fun b hb => same_symm a ha.1 hb, values_symm as ha.2⟩

end

/-! ## Reordering -/

/-- The entries of one map in a value, at any depth, are put into another order. -/
inductive Reorders : Value → Value → Prop where
  | entries {as bs : List (String × Value)} : as.Perm bs → Reorders (.map as) (.map bs)
  | item {v w : Value} (before after : List Value) :
    Reorders v w → Reorders (.seq (before ++ v :: after)) (.seq (before ++ w :: after))
  | entry {v w : Value} (key : String) (before after : List (String × Value)) : Reorders v w →
    Reorders (.map (before ++ (key, v) :: after)) (.map (before ++ (key, w) :: after))

/-- The entries of any maps in a value, as often as one likes, are put into other orders. -/
abbrev Reordered : Value → Value → Prop := Relation.ReflTransGen Reorders

theorem sameItems_congr {v w : Value} (h : ∀ c, same v c = same w c)
    (before after cs : List Value) :
    sameItems (before ++ v :: after) cs = sameItems (before ++ w :: after) cs := by
  induction before generalizing cs with
  | nil => cases cs <;> simp [sameItems, h]
  | cons b before ih => cases cs <;> simp [sameItems, ih]

/-- What a value is equal to does not depend on the order in a map on its side. -/
theorem same_of_reorders {a b : Value} (h : Reorders a b) (c : Value) : same a c = same b c := by
  induction h generalizing c with
  | @entries as bs hperm =>
    cases c with
    | map cs =>
      have hin : entriesIn as cs = entriesIn bs cs := by
        rw [Bool.eq_iff_iff, entriesIn_iff, entriesIn_iff]
        simp only [hperm.mem_iff]
      simp only [same, hin, hperm.length_eq]
    | _ => simp only [same]
  | item before after _ ih =>
    cases c with
    | seq cs => exact sameItems_congr ih before after cs
    | _ => simp only [same]
  | @entry v w key before after _ ih =>
    cases c with
    | map cs =>
      have hin : entriesIn (before ++ (key, v) :: after) cs =
          entriesIn (before ++ (key, w) :: after) cs := by
        rw [Bool.eq_iff_iff, entriesIn_iff, entriesIn_iff]
        simp only [List.forall_mem_append, List.forall_mem_cons, ih]
      simp only [same, hin, List.length_append, List.length_cons]
    | _ => simp only [same]

theorem keysOnce_of_reorders {a b : Value} (h : Reorders a b) (ha : a.KeysOnce) : b.KeysOnce := by
  induction h with
  | entries hperm =>
    rw [keysOnce_map] at ha ⊢
    exact ⟨(hperm.map _).nodup_iff.1 ha.1, fun e he => ha.2 e (hperm.mem_iff.2 he)⟩
  | item before after _ ih =>
    rw [keysOnce_seq, List.forall_mem_append, List.forall_mem_cons] at ha ⊢
    exact ⟨ha.1, ih ha.2.1, ha.2.2⟩
  | entry key before after _ ih =>
    rw [keysOnce_map, List.forall_mem_append, List.forall_mem_cons] at ha ⊢
    rw [List.map_append, List.map_cons] at ha ⊢
    exact ⟨ha.1, ha.2.1, ih ha.2.2.1, ha.2.2.2⟩

theorem same_of_reordered {a b : Value} (h : Reordered a b) (c : Value) : same a c = same b c := by
  induction h with
  | refl => rfl
  | tail _ hstep ih => exact ih.trans (same_of_reorders hstep c)

theorem keysOnce_of_reordered {a b : Value} (h : Reordered a b) (ha : a.KeysOnce) :
    b.KeysOnce := by
  induction h with
  | refl => exact ha
  | tail _ hstep ih => exact keysOnce_of_reorders hstep ih

/-- A value is equal to itself, whatever floats are in it; one is equal to another exactly if the
    other is to it; and a value whose maps are reordered, at any depth, is equal to what it was and
    to all that it was equal to. -/
theorem same_refl_comm_reordered (a b : Value) (ha : a.KeysOnce) (hb : b.KeysOnce) :
    same a a = true ∧ same a b = same b a ∧
      ∀ a', Reordered a a' → same a' a = true ∧ same a a' = true ∧ ∀ c, same a' c = same a c := by
  refine ⟨same_refl a ha, ?_, fun a' h => ⟨?_, ?_, fun c => (same_of_reordered h c).symm⟩⟩
  · exact Bool.eq_iff_iff.2 ⟨same_symm a ha hb, same_symm b hb ha⟩
  · exact (same_of_reordered h a).symm.trans (same_refl a ha)
  · exact (same_of_reordered h a').trans (same_refl a' (keysOnce_of_reordered h ha))

/-- What is not a number, below two maps that are both reordered. -/
theorem same_refl_comm_reordered_nested :
    let inner : List (String × Value) := [("k", .float ⟨0x7ff8000000000000⟩), ("l", .float ⟨1⟩)]
    let a : Value := .map [("x", .seq [.map inner, .null]), ("y", .uint 7)]
    let b : Value := .map [("y", .uint 7), ("x", .seq [.map inner.reverse, .null])]
    a.KeysOnce ∧ b.KeysOnce ∧ Reordered a b ∧ same a a = true ∧ same a b = same b a ∧
      same b a = true := by
  intro inner a b
  have hinner : KeysOnce (.map inner) :=
    keysOnce_map.2 ⟨by decide, by simp [inner, keysOnce_scalar (v := .float _) rfl]⟩
  have ha : a.KeysOnce := by
    simp [a, keysOnce_map, keysOnce_seq, hinner, keysOnce_scalar (v := .null) rfl,
      keysOnce_scalar (v := .uint 7) rfl]
  have hab : Reordered a b := .tail
    (.single (.entry "x" [] _ (.item [] _ (.entries inner.reverse_perm.symm))))
    (.entries (.swap ..))
  have hb := keysOnce_of_reordered hab ha
  obtain ⟨hself, hcomm, hreordered⟩ := same_refl_comm_reordered a b ha hb
  exact ⟨ha, hb, hab, hself, hcomm, (hreordered b hab).1⟩

end Value

end Stencil
