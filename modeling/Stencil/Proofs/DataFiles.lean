import Stencil.Failure
import Stencil.Proofs.Canonical
/-
  What is read from data files is in form, in every format (`canonical_of_parse`).
-/

namespace Stencil

open Value

/-! ## JSON -/

namespace Json

theorem canonical_ofNumber {n : Number} {v : Value} (h : ofNumber n = some v) : v.Canonical := by
  cases n with
  | int n => exact canonical_ofInt? h
  | float x =>
    obtain rfl := Option.some.inj h
    exact canonical_scalar rfl trivial

/-! Each call spends fuel, so that is what the induction is on; the items and members read so far
    are in form. -/

mutual

theorem canonical_of_value? (fuel depth : Nat) {cs rest : List Char} {v : Value}
    (h : value? fuel depth cs = some (v, rest)) : v.Canonical := by
  match fuel with
  | 0 => cases h
  | fuel + 1 =>
    rw [value?.eq_def] at h
    dsimp only at h
    -- the three words, a string, an array, an object, and what is left to numbers
    split at h
    · cases h; exact canonical_scalar rfl trivial
    · cases h; exact canonical_scalar rfl trivial
    · cases h; exact canonical_scalar rfl trivial
    · obtain ⟨⟨s, more⟩, -, heq⟩ := Option.map_eq_some_iff.1 h
      cases heq
      exact canonical_scalar rfl trivial
    · split at h
      · cases h
      · cases h
        exact canonical_seq.2 (by simp)
      · exact canonical_of_items? fuel _ (by simp) h
    · split at h
      · cases h
      · cases h
        exact canonical_map.2 (by simp)
      · exact canonical_of_members? fuel _ (by simp) h
    · obtain ⟨⟨n, more⟩, -, hn⟩ := Option.bind_eq_some_iff.1 h
      obtain ⟨w, hw, heq⟩ := Option.map_eq_some_iff.1 hn
      cases heq
      exact canonical_ofNumber hw

theorem canonical_of_items? (fuel depth : Nat) {done : List Value} {cs rest : List Char} {v : Value}
    (hdone : ∀ w ∈ done, w.Canonical) (h : items? fuel depth done cs = some (v, rest)) :
    v.Canonical := by
  match fuel with
  | 0 => cases h
  | fuel + 1 =>
    rw [items?] at h
    split at h
    · cases h
    · next w more hw =>
      have hall : ∀ x ∈ w :: done, x.Canonical :=
        List.forall_mem_cons.2 ⟨canonical_of_value? fuel depth hw, hdone⟩
      split at h
      · exact canonical_of_items? fuel depth hall h
      · cases h
        exact canonical_seq.2 fun x hx => hall x (List.mem_reverse.1 hx)
      · cases h

theorem canonical_of_members? (fuel depth : Nat) {done : List (String × Value)}
    {cs rest : List Char} {v : Value} (hdone : ∀ p ∈ done, p.2.Canonical)
    (h : members? fuel depth done cs = some (v, rest)) : v.Canonical := by
  match fuel with
  | 0 => cases h
  | fuel + 1 =>
    rw [members?.eq_def] at h
    dsimp only at h
    split at h
    · split at h
      · cases h
      · next key after hkey =>
        split at h
        · split at h
          · cases h
          · next w more hw =>
            have hall : ∀ p ∈ (key, w) :: done, p.2.Canonical :=
              List.forall_mem_cons.2 ⟨canonical_of_value? fuel depth hw, hdone⟩
            split at h
            · exact canonical_of_members? fuel depth hall h
            · cases h
              exact canonical_ofPairs fun p hp => hall p (List.mem_reverse.1 hp)
            · cases h
        · cases h
    · cases h

end

theorem canonical_of_parse? {text : String} {v : Value} (h : parse? text = some v) :
    v.Canonical := by
  unfold parse? at h
  dsimp only at h
  split at h
  · next w rest hw =>
    split at h
    · cases h
      exact canonical_of_value? _ _ hw
    · cases h
  · cases h

end Json

/-! ## TOML -/

namespace Toml

mutual

theorem canonical_of_toValue? (t : Toml) {v : Value} (h : t.toValue? = some v) : v.Canonical := by
  match t with
  | .int n =>
    rw [toValue?] at h
    split at h
    · cases h
      exact canonical_scalar rfl trivial
    · cases h
  | .array items =>
    obtain ⟨vs, hvs, rfl⟩ := Option.map_eq_some_iff.1 h
    exact canonical_seq.2 (canonical_of_itemValues? items hvs)
  | .table entries =>
    rw [toValue?] at h
    split at h
    · obtain ⟨d, -, rfl⟩ := Option.map_eq_some_iff.1 h
      exact canonical_scalar rfl trivial
    · obtain ⟨pairs, hpairs, rfl⟩ := Option.map_eq_some_iff.1 h
      exact canonical_ofPairs (canonical_of_entryValues? entries hpairs)
  | .str _ | .float _ | .bool _ | .datetime _ =>
    obtain rfl := Option.some.inj h
    exact canonical_scalar rfl trivial

theorem canonical_of_itemValues? (ts : List Toml) {vs : List Value}
    (h : itemValues? ts = some vs) : ∀ v ∈ vs, v.Canonical := by
  match ts with
  | [] =>
    obtain rfl := Option.some.inj h
    simp
  | t :: ts =>
    obtain ⟨v, hv, h⟩ := Option.bind_eq_some_iff.1 h
    obtain ⟨vs, hvs, h⟩ := Option.bind_eq_some_iff.1 h
    obtain rfl := Option.some.inj h
    exact List.forall_mem_cons.2 ⟨canonical_of_toValue? t hv, canonical_of_itemValues? ts hvs⟩

theorem canonical_of_entryValues? (entries : List (String × Toml)) {pairs : List (String × Value)}
    (h : entryValues? entries = some pairs) : ∀ p ∈ pairs, p.2.Canonical := by
  match entries with
  | [] =>
    obtain rfl := Option.some.inj h
    simp
  | (key, t) :: entries =>
    obtain ⟨v, hv, h⟩ := Option.bind_eq_some_iff.1 h
    obtain ⟨pairs, hpairs, h⟩ := Option.bind_eq_some_iff.1 h
    obtain rfl := Option.some.inj h
    exact List.forall_mem_cons.2
      ⟨canonical_of_toValue? t hv, canonical_of_entryValues? entries hpairs⟩

end

end Toml

/-! ## YAML -/

namespace Yaml

theorem canonical_floatValue (x : Binary64) : (floatValue x).Canonical :=
  Datum.canonical_floatValue x

theorem canonical_of_intValue? {s : String} {v : Value} (h : intValue? s = some (some v)) :
    v.Canonical := by
  obtain ⟨n, -, hn⟩ := Option.map_eq_some_iff.1 h
  exact canonical_ofInt? hn

theorem canonical_of_plainValue? {s : String} {v : Value} (h : plainValue? s = some v) :
    v.Canonical := by
  unfold plainValue? at h
  split at h
  · cases h; exact canonical_scalar rfl trivial
  · split at h
    · cases h; exact canonical_scalar rfl trivial
    · split at h
      · next w hw =>
        subst h
        exact canonical_of_intValue? hw
      · split at h
        · cases h; exact canonical_floatValue _
        · cases h; exact canonical_scalar rfl trivial

theorem canonical_of_scalarValue? {tag : Option String} {s : String} {plain : Bool} {v : Value}
    (h : scalarValue? tag s plain = some v) : v.Canonical := by
  cases tag with
  | none =>
    rw [scalarValue?] at h
    split at h
    · exact canonical_of_plainValue? h
    · cases h; exact canonical_scalar rfl trivial
  | some tag =>
    rw [scalarValue?] at h
    split at h
    · cases h
    · split at h
      · obtain ⟨b, -, rfl⟩ := Option.map_eq_some_iff.1 h
        exact canonical_scalar rfl trivial
      · split at h
        · obtain ⟨w, hw, heq⟩ := Option.bind_eq_some_iff.1 h
          subst heq
          exact canonical_of_intValue? hw
        · split at h
          · obtain ⟨x, -, rfl⟩ := Option.map_eq_some_iff.1 h
            exact canonical_floatValue x
          · split at h
            · split at h
              · cases h; exact canonical_scalar rfl trivial
              · cases h
            · cases h; exact canonical_scalar rfl trivial

namespace Counting

variable {α β : Type} {P : β → Prop}

theorem some_of_bind {x : Counting α} {f : α → Counting β} {n : Nat} {r : β × Nat}
    (h : (x >>= f).run n = some r) :
    ∃ a m, x.run n = some (a, m) ∧ (f a).run m = some r := by
  rw [StateT.run_bind] at h
  obtain ⟨⟨a, m⟩, hx, hf⟩ := Option.bind_eq_some_iff.1 h
  exact ⟨a, m, hx, hf⟩

theorem eq_of_pure {b : β} {n : Nat} {r : β × Nat}
    (h : (pure b : Counting β).run n = some r) : r.1 = b := by
  obtain rfl := Option.some.inj h
  rfl

theorem eq_of_lift {x : Option β} {n : Nat} {r : β × Nat}
    (h : (x : Counting β).run n = some r) : x = some r.1 := by
  cases x with
  | none => cases h
  | some b =>
    obtain rfl := Option.some.inj h
    rfl

/-- What holds of everything that the items give holds of all that they give together. -/
theorem forall_of_mapM {f : α → Counting β}
    (hf : ∀ a n r, (f a).run n = some r → P r.1) :
    ∀ (as : List α) (n : Nat) (r : List β × Nat), (as.mapM f).run n = some r → ∀ b ∈ r.1, P b
  | [], _, _, h => by
    rw [List.mapM_nil] at h
    rw [eq_of_pure h]
    simp
  | a :: as, n, r, h => by
    rw [List.mapM_cons] at h
    obtain ⟨b, m, hb, h⟩ := some_of_bind h
    obtain ⟨bs, k, hbs, h⟩ := some_of_bind h
    rw [eq_of_pure h]
    exact List.forall_mem_cons.2 ⟨hf a n _ hb, forall_of_mapM hf as m _ hbs⟩

end Counting

theorem canonical_of_valueOf (d : Document) (limit depth : Nat) (node : Node) (n : Nat)
    (r : Value × Nat) (h : (valueOf d limit depth node).run n = some r) : r.1.Canonical := by
  induction depth generalizing node n r with
  | zero =>
    rw [valueOf] at h
    obtain ⟨target, m, -, h⟩ := Counting.some_of_bind h
    match target with
    | .scalar tag text plain => exact canonical_of_scalarValue? (Counting.eq_of_lift h)
    | .seq _ _ | .map _ _ | .alias _ => cases h
  | succ depth ih =>
    rw [valueOf] at h
    obtain ⟨target, m, -, h⟩ := Counting.some_of_bind h
    match target with
    | .scalar tag text plain => exact canonical_of_scalarValue? (Counting.eq_of_lift h)
    | .seq tag items =>
      dsimp only at h
      split at h
      · cases h
      · obtain ⟨vs, _, hvs, h⟩ := Counting.some_of_bind h
        rw [Counting.eq_of_pure h]
        exact canonical_seq.2 (Counting.forall_of_mapM ih items m _ hvs)
    | .map tag entries =>
      dsimp only at h
      split at h
      · cases h
      · obtain ⟨pairs, _, hpairs, h⟩ := Counting.some_of_bind h
        rw [Counting.eq_of_pure h]
        refine canonical_ofPairs (Counting.forall_of_mapM (fun e k r h => ?_) entries m _ hpairs)
        obtain ⟨key, _, -, h⟩ := Counting.some_of_bind h
        obtain ⟨v, _, hv, h⟩ := Counting.some_of_bind h
        rw [Counting.eq_of_pure h]
        exact ih _ _ _ hv
    | .alias _ => cases h

theorem canonical_of_parse? {text : String} {v : Value} (h : parse? text = some v) :
    v.Canonical := by
  obtain ⟨d, -, h⟩ := Option.bind_eq_some_iff.1 h
  unfold Document.value? at h
  split at h
  · cases h
    exact canonical_scalar rfl trivial
  · obtain ⟨r, hr, rfl⟩ := Option.map_eq_some_iff.1 h
    exact canonical_of_valueOf _ _ _ _ _ r hr

end Yaml

/-! ## Formats -/

namespace DataFormat

theorem canonical_of_parse {format : DataFormat} {text path : String} {v : Value}
    (h : format.parse text path = .ok v) : v.Canonical := by
  rw [parse] at h
  split at h
  · next w hw =>
    obtain rfl := Except.ok.inj h
    cases format with
    | json => exact Json.canonical_of_parse? hw
    | toml =>
      obtain ⟨t, -, ht⟩ := Option.bind_eq_some_iff.1 hw
      exact Toml.canonical_of_toValue? t ht
    | yaml => exact Yaml.canonical_of_parse? hw
    | text =>
      obtain rfl := Option.some.inj hw
      exact canonical_scalar rfl trivial
  · cases h

end DataFormat

end Stencil
