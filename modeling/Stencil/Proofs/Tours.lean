import Mathlib.Logic.Relation
import Stencil.Proofs.Refinement
/-
  Arenas in use. A `Tour` is an arena and the contexts obtained in it, one from another, by paths,
  to parents and to elements. `Arena.Grounded` holds at the start and is kept by every leg, so
  every context leads up to the root; and since records are only added, a context says the same
  ever after. `run_grounded` puts this together for all tours.
-/

namespace Stencil

/-! ## Tours -/

/-- A way from one context to another. -/
inductive Leg where
  | resolve (path : String)
  | parent
  | element (index : Nat) (item : Value)

/-- Where a leg leads from a context. The root has no parent, so there it leads nowhere. -/
def Arena.leg (arena : Arena) (id : Nat) : Leg → Arena × Option Nat
  | .resolve path => ((arena.resolve id path).1, some (arena.resolve id path).2)
  | .parent => (arena, arena.parent? id)
  | .element index item => ((arena.element id index item).1, some (arena.element id index item).2)

/-- An arena and the contexts obtained in it, in their order. -/
structure Tour where
  arena : Arena
  contexts : List Nat

namespace Tour

def start (model : Value) : Tour := ⟨.ofModel model, [0]⟩

/-- Goes on from the context obtained as number `slot`. -/
def go (t : Tour) (slot : Nat) (leg : Leg) : Tour :=
  match t.contexts[slot]? with
  | none => t
  | some id => ⟨(t.arena.leg id leg).1, t.contexts ++ (t.arena.leg id leg).2.toList⟩

/-- Legs one after the other, each from a context obtained before. -/
def run (t : Tour) (legs : List (Nat × Leg)) : Tour :=
  legs.foldl (fun t (slot, leg) => t.go slot leg) t

end Tour

/-! ## Grounded arenas -/

namespace Arena

/-- The root is as it was made, every other record has a parent that was made before it, and none
    holds null. -/
structure Grounded (arena : Arena) (model : Value) : Prop where
  root : arena.records[0]? = some ⟨"", Value.nonNull? (some model), none⟩
  parent_lt : ∀ (id : Nat) (r : Record), arena.records[id]? = some r → id ≠ 0 →
    ∃ parent < id, r.parent? = some parent
  ne_null : ∀ (id : Nat) (r : Record), arena.records[id]? = some r → r.value? ≠ some .null

variable {arena later : Arena} {id : Nat} {model : Value}

theorem exists_record (h : id < arena.size) : ∃ r, arena.records[id]? = some r :=
  ⟨_, Array.getElem?_eq_getElem h⟩

theorem lt_size {r : Record} (h : arena.records[id]? = some r) : id < arena.size :=
  (Array.getElem?_eq_some_iff.1 h).1

theorem GrowsTo.lt_size (h : arena.GrowsTo later) (hid : id < arena.size) : id < later.size := by
  obtain ⟨r, hr⟩ := exists_record hid
  exact Arena.lt_size (h id r hr)

theorem size_push (arena : Arena) (key : String) (value? : Option Value) (parent? : Option Nat) :
    (arena.push key value? parent?).1.size = arena.size + 1 := Array.size_push _

/-- A record after a push is the new one or was there before. -/
theorem push_cases {key : String} {value? : Option Value} {parent? : Option Nat} {r : Record}
    (h : (arena.push key value? parent?).1.records[id]? = some r) :
    (id = arena.size ∧ r = ⟨key, Value.nonNull? value?, parent?⟩) ∨
      arena.records[id]? = some r := by
  rw [push, Array.getElem?_push, Value.filter_isNull] at h
  split at h
  · next hid => exact .inl ⟨hid, (Option.some.inj h).symm⟩
  · exact .inr h

theorem nonNull?_ne_null (value? : Option Value) : Value.nonNull? value? ≠ some .null := by
  unfold Value.nonNull?
  split
  · exact nofun
  · next hne => exact hne

theorem grounded_ofModel (model : Value) : (ofModel model).Grounded model := by
  have hroot : (ofModel model).records[0]? = some ⟨"", Value.nonNull? (some model), none⟩ :=
    getElem?_push ⟨#[]⟩ "" (some model) none
  have honly : ∀ (id : Nat) (r : Record), (ofModel model).records[id]? = some r → id = 0 := by
    intro id r h
    have hlt := lt_size h
    exact Nat.lt_one_iff.1 hlt
  refine ⟨hroot, fun id r h hne => absurd (honly id r h) hne, fun id r h => ?_⟩
  obtain rfl := honly id r h
  obtain rfl := Option.some.inj (hroot.symm.trans h)
  exact nonNull?_ne_null (some model)

theorem Grounded.push (h : arena.Grounded model) (hid : id < arena.size) (key : String)
    (value? : Option Value) : (arena.push key value? (some id)).1.Grounded model := by
  refine ⟨growsTo_push arena key value? (some id) 0 _ h.root, ?_, ?_⟩
  · intro i r hr hne
    rcases push_cases hr with ⟨rfl, rfl⟩ | hr
    · exact ⟨id, hid, rfl⟩
    · exact h.parent_lt i r hr hne
  · intro i r hr
    rcases push_cases hr with ⟨-, rfl⟩ | hr
    · exact nonNull?_ne_null _
    · exact h.ne_null i r hr

/-- What holds of the root, and of a context if it holds of its parent, holds of all. -/
theorem Grounded.induct (h : arena.Grounded model) {P : Nat → Prop} (root : P 0)
    (under : ∀ (id parent : Nat) (r : Record), arena.records[id]? = some r →
      r.parent? = some parent → P parent → P id) : ∀ id < arena.size, P id := by
  intro id
  induction id using Nat.strongRecOn with
  | ind id ih =>
    intro hid
    obtain ⟨r, hr⟩ := exists_record hid
    by_cases hne : id = 0
    · exact hne ▸ root
    · obtain ⟨parent, hlt, hparent⟩ := h.parent_lt id r hr hne
      exact under id parent r hr hparent (ih parent hlt (Nat.lt_trans hlt hid))

/-- Every context leads up to the root. -/
theorem Grounded.leads_up (h : arena.Grounded model) : ∀ id < arena.size,
    Relation.ReflTransGen (fun i parent => arena.parent? i = some parent) id 0 := by
  refine h.induct .refl fun id parent r hr hparent ih => .head ?_ ih
  rw [parent?_of_record hr, hparent]

theorem Grounded.exists_shows (h : arena.Grounded model) : ∀ id < arena.size,
    ∃ c, arena.Shows id c := by
  refine h.induct ⟨_, .root h.root⟩ fun id parent r hr hparent ih => ?_
  obtain ⟨c, hc⟩ := ih
  obtain ⟨key, value?, parent?⟩ := r
  obtain rfl : parent? = some parent := hparent
  exact ⟨_, .under hr hc⟩

theorem Grounded.lt_of_parent (h : arena.Grounded model) {parent : Nat}
    (hparent : arena.parent? id = some parent) : parent < id := by
  obtain ⟨r, hr, hr'⟩ := Option.bind_eq_some_iff.1 hparent
  by_cases hne : id = 0
  · subst hne
    obtain rfl := Option.some.inj (hr.symm.trans h.root)
    simp at hr'
  · obtain ⟨above, hlt, habove⟩ := h.parent_lt id r hr hne
    rwa [Option.some.inj (hr'.symm.trans habove)]

theorem Grounded.lineage_of_parent (h : arena.Grounded model) {parent : Nat}
    (hparent : arena.parent? id = some parent) :
    arena.lineage id = (arena.key id, arena.value? id) :: arena.lineage parent := by
  rw [lineage, hparent]
  simp only [h.lt_of_parent hparent, if_true]

/-- The lineage of a context is its chain, written as a list. -/
theorem Grounded.lineage_eq (h : arena.Grounded model) {c : Chain} (hshows : arena.Shows id c) :
    arena.lineage id = (c.key, c.value?) :: c.above := by
  induction hshows with
  | root hr => rw [lineage, key_of_record hr, value?_of_record hr, parent?_of_record hr]
  | under hr _ ih =>
    rw [h.lineage_of_parent (parent?_of_record hr), key_of_record hr, value?_of_record hr, ih]

theorem Grounded.lineage_mono (h : arena.Grounded model) (hlater : later.Grounded model)
    (hgrow : arena.GrowsTo later) (hid : id < arena.size) :
    later.lineage id = arena.lineage id := by
  obtain ⟨c, hc⟩ := h.exists_shows id hid
  rw [h.lineage_eq hc, hlater.lineage_eq (hc.mono hgrow)]

/-! ## Along a path -/

/-- The record holds what its parent's value has under the name; a null value counts as absent. -/
def LookedUp (arena : Arena) (id : Nat) (name : String) : Prop :=
  ∃ parent < id, arena.records[id]? =
    some ⟨name, Value.nonNull? ((arena.value? parent).bind (·.get? name)), some parent⟩

theorem value?_mono (h : arena.GrowsTo later) (hid : id < arena.size) :
    later.value? id = arena.value? id := by
  obtain ⟨r, hr⟩ := exists_record hid
  rw [value?_of_record hr, value?_of_record (h id r hr)]

theorem LookedUp.mono {name : String} (h : arena.LookedUp id name) (hgrow : arena.GrowsTo later) :
    later.LookedUp id name := by
  obtain ⟨parent, hlt, hr⟩ := h
  refine ⟨parent, hlt, ?_⟩
  rw [value?_mono hgrow (Nat.lt_trans hlt (lt_size hr))]
  exact hgrow id _ hr

theorem growsTo_step (arena : Arena) (id : Nat) (s : Path.Step) :
    arena.GrowsTo (arena.step id s).1 := by
  cases s with
  | parent => exact .refl arena
  | key name => exact growsTo_push arena name _ (some id)

/-- The parent of a context, or the root for itself. -/
def up (arena : Arena) (id : Nat) : Nat := (arena.parent? id).getD id

theorem Grounded.up_le (h : arena.Grounded model) (id : Nat) : arena.up id ≤ id := by
  rw [up]
  cases hparent : arena.parent? id with
  | none => exact Nat.le_refl id
  | some parent => exact Nat.le_of_lt (h.lt_of_parent hparent)

theorem Grounded.step (h : arena.Grounded model) (hid : id < arena.size) (s : Path.Step) :
    (arena.step id s).1.Grounded model ∧ (arena.step id s).2 < (arena.step id s).1.size := by
  cases s with
  | parent =>
    exact ⟨h, Nat.lt_of_le_of_lt (h.up_le id) hid⟩
  | key name =>
    refine ⟨h.push hid name _, ?_⟩
    rw [Arena.step, size_push]
    exact Nat.lt_succ_self _

theorem lookedUp_step (hid : id < arena.size) (name : String) :
    (arena.step id (.key name)).1.LookedUp arena.size name := by
  refine ⟨id, hid, ?_⟩
  rw [value?_mono (growsTo_step arena id (.key name)) hid]
  exact getElem?_push arena name _ (some id)

/-- Steps one after the other. -/
def follow (arena : Arena) (id : Nat) (steps : List Path.Step) : Arena × Nat :=
  steps.foldl (fun (arena, id) s => arena.step id s) (arena, id)

theorem resolve_eq_follow (arena : Arena) (id : Nat) (path : String) :
    arena.resolve id path = arena.follow id (Path.steps path) := rfl

theorem follow_cons (arena : Arena) (id : Nat) (s : Path.Step) (steps : List Path.Step) :
    arena.follow id (s :: steps) = (arena.step id s).1.follow (arena.step id s).2 steps := rfl

theorem growsTo_follow (arena : Arena) (id : Nat) (steps : List Path.Step) :
    arena.GrowsTo (arena.follow id steps).1 := by
  induction steps generalizing arena id with
  | nil => exact .refl arena
  | cons s steps ih => exact (growsTo_step arena id s).trans (ih _ _)

theorem Grounded.follow (h : arena.Grounded model) (hid : id < arena.size)
    (steps : List Path.Step) :
    (arena.follow id steps).1.Grounded model ∧
      (arena.follow id steps).2 < (arena.follow id steps).1.size := by
  induction steps generalizing arena id with
  | nil => exact ⟨h, hid⟩
  | cons s steps ih =>
    obtain ⟨hground, hlt⟩ := h.step hid s
    exact ih hground hlt

/-- Steps add a record for every key, in the order of the keys, and none for a parent. -/
theorem Grounded.records_follow (h : arena.Grounded model) (hid : id < arena.size)
    (steps : List Path.Step) :
    (arena.follow id steps).1.size = arena.size + (steps.filterMap Path.Step.key?).length ∧
      ∀ (k : Nat) (name : String), (steps.filterMap Path.Step.key?)[k]? = some name →
        (arena.follow id steps).1.LookedUp (arena.size + k) name := by
  induction steps generalizing arena id with
  | nil => exact ⟨rfl, fun k name hk => by simp at hk⟩
  | cons s steps ih =>
    obtain ⟨hground, hlt⟩ := h.step hid s
    obtain ⟨hsize, hnames⟩ := ih hground hlt
    rw [follow_cons]
    cases s with
    | parent => exact ⟨hsize, hnames⟩
    | key name =>
      have hpush : (arena.step id (.key name)).1.size = arena.size + 1 := size_push _ _ _ _
      have hkeys : (Path.Step.key name :: steps).filterMap Path.Step.key? =
          name :: steps.filterMap Path.Step.key? := rfl
      rw [hpush] at hsize hnames
      rw [hkeys, List.length_cons]
      refine ⟨by rw [hsize]; omega, fun k other hk => ?_⟩
      cases k with
      | zero =>
        obtain rfl : name = other := Option.some.inj hk
        exact (lookedUp_step hid name).mono (growsTo_follow _ _ _)
      | succ k =>
        have hother := hnames k other hk
        rwa [Nat.add_assoc, Nat.add_comm 1 k] at hother

theorem growsTo_leg (arena : Arena) (id : Nat) (leg : Leg) :
    arena.GrowsTo (arena.leg id leg).1 := by
  cases leg with
  | resolve path => exact growsTo_follow arena id (Path.steps path)
  | parent => exact .refl arena
  | element index item => exact growsTo_push arena _ (some item) (some id)

theorem Grounded.leg (h : arena.Grounded model) (hid : id < arena.size) (leg : Leg) :
    (arena.leg id leg).1.Grounded model ∧
      ∀ i ∈ (arena.leg id leg).2, i < (arena.leg id leg).1.size := by
  cases leg with
  | resolve path =>
    obtain ⟨hground, hlt⟩ := h.follow hid (Path.steps path)
    exact ⟨hground, fun i hi => Option.some.inj hi ▸ hlt⟩
  | parent =>
    exact ⟨h, fun i hi => Nat.lt_trans (h.lt_of_parent hi) hid⟩
  | element index item =>
    refine ⟨h.push hid _ (some item), fun i hi => ?_⟩
    obtain rfl := Option.some.inj hi
    exact lt_size (getElem?_push arena _ (some item) (some id))

end Arena

/-! ## All tours -/

namespace Tour

/-- The arena is grounded, and every context obtained is in it. -/
structure Sound (t : Tour) (model : Value) : Prop where
  grounded : t.arena.Grounded model
  lt_size : ∀ id ∈ t.contexts, id < t.arena.size

theorem sound_start (model : Value) : (start model).Sound model where
  grounded := Arena.grounded_ofModel model
  lt_size id hid := by
    obtain rfl := List.mem_singleton.1 hid
    exact Nat.zero_lt_one

theorem Sound.go {t : Tour} {model : Value} (h : t.Sound model) (slot : Nat) (leg : Leg) :
    (t.go slot leg).Sound model := by
  unfold Tour.go
  split
  · exact h
  · next id hslot =>
    obtain ⟨hground, hlt⟩ :=
      h.grounded.leg (h.lt_size id (List.mem_of_getElem? hslot)) leg
    refine ⟨hground, fun i hi => ?_⟩
    rcases List.mem_append.1 hi with hi | hi
    · exact (t.arena.growsTo_leg id leg).lt_size (h.lt_size i hi)
    · exact hlt i (Option.mem_toList.1 hi)

theorem Sound.run {t : Tour} {model : Value} (h : t.Sound model) (legs : List (Nat × Leg)) :
    (t.run legs).Sound model := by
  induction legs generalizing t with
  | nil => exact h
  | cons leg legs ih => exact ih (h.go leg.1 leg.2)

/-- Contexts stay where they are in the order, and records as they are in the arena. -/
structure Keeps (t later : Tour) : Prop where
  contexts : t.contexts <+: later.contexts
  grows : t.arena.GrowsTo later.arena

theorem keeps_go (t : Tour) (slot : Nat) (leg : Leg) : t.Keeps (t.go slot leg) := by
  unfold Tour.go
  split
  · exact ⟨List.prefix_rfl, .refl t.arena⟩
  · next id _ => exact ⟨List.prefix_append _ _, t.arena.growsTo_leg id leg⟩

theorem keeps_run (t : Tour) (legs : List (Nat × Leg)) : t.Keeps (t.run legs) := by
  induction legs generalizing t with
  | nil => exact ⟨List.prefix_rfl, .refl t.arena⟩
  | cons leg legs ih =>
    have hgo := t.keeps_go leg.1 leg.2
    have hrest := ih (t.go leg.1 leg.2)
    exact ⟨hgo.contexts.trans hrest.contexts, hgo.grows.trans hrest.grows⟩

/-- A context says the same of itself and of those above it ever after. -/
theorem Sound.same_later {t later : Tour} {model : Value} (h : t.Sound model)
    (hlater : later.Sound model) (hkeeps : t.Keeps later) {id : Nat} (hlt : id < t.arena.size) :
    later.arena.key id = t.arena.key id ∧ later.arena.value? id = t.arena.value? id ∧
      later.arena.parent? id = t.arena.parent? id ∧
      later.arena.lineage id = t.arena.lineage id := by
  obtain ⟨r, hr⟩ := Arena.exists_record hlt
  have hr' := hkeeps.grows id r hr
  refine ⟨?_, ?_, ?_, h.grounded.lineage_mono hlater.grounded hkeeps.grows hlt⟩
  · rw [Arena.key_of_record hr, Arena.key_of_record hr']
  · rw [Arena.value?_of_record hr, Arena.value?_of_record hr']
  · rw [Arena.parent?_of_record hr, Arena.parent?_of_record hr']

/-- Whatever tour is made of a model, the arena is grounded and every parent chain in it ends at the
    root. Every context obtained is in it, and no path leads outside. A path adds one record for
    every key on it, in their order, which then and ever after holds what its parent's value has
    under that key; and every context says the same ever after. -/
theorem run_grounded (model : Value) (legs : List (Nat × Leg)) :
    let t := (start model).run legs
    t.arena.Grounded model ∧
      (∀ id < t.arena.size,
        Relation.ReflTransGen (fun i parent => t.arena.parent? i = some parent) id 0) ∧
      (∀ id ∈ t.contexts, id < t.arena.size ∧
        ∀ path, t.arena.resolve? id path = some (t.arena.resolve id path)) ∧
      (∀ slot < t.contexts.length, ∀ path,
        (t.go slot (.resolve path)).arena.size = t.arena.size + (Path.keys path).length ∧
        ∀ k name, (Path.keys path)[k]? = some name → ∀ more,
          ((t.go slot (.resolve path)).run more).arena.LookedUp (t.arena.size + k) name) ∧
      ∀ more, t.contexts <+: (t.run more).contexts ∧ ∀ id < t.arena.size,
        (t.run more).arena.key id = t.arena.key id ∧
          (t.run more).arena.value? id = t.arena.value? id ∧
          (t.run more).arena.parent? id = t.arena.parent? id ∧
          (t.run more).arena.lineage id = t.arena.lineage id := by
  intro t
  have h : t.Sound model := (sound_start model).run legs
  refine ⟨h.grounded, h.grounded.leads_up, fun id hid => ?_, fun slot hslot path => ?_,
    fun more => ?_⟩
  · have hlt := h.lt_size id hid
    obtain ⟨c, hc⟩ := h.grounded.exists_shows id hlt
    exact ⟨hlt, fun path => (hc.resolve path).1⟩
  · have hid := h.lt_size t.contexts[slot] (List.getElem_mem hslot)
    have hgo : (t.go slot (.resolve path)).arena =
        (t.arena.follow t.contexts[slot] (Path.steps path)).1 := by
      rw [Tour.go, List.getElem?_eq_getElem hslot]
      rfl
    obtain ⟨hsize, hnames⟩ := h.grounded.records_follow hid (Path.steps path)
    rw [← hgo] at hsize hnames
    exact ⟨hsize, fun k name hk more => (hnames k name hk).mono (keeps_run _ more).grows⟩
  · have hkeeps := t.keeps_run more
    exact ⟨hkeeps.contexts, fun id hlt => h.same_later (h.run more) hkeeps hlt⟩

end Tour

end Stencil
