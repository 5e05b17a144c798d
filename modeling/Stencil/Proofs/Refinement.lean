import Mathlib.Data.List.Forall2
import Stencil.Proofs.Chain
/-
  The renderer over an arena against the one over chains. `Shows` ties a context number to a
  chain, and records are only ever added, so it lasts. `Checked` is the renderer once more, with
  every look at a record made to fail outside the arena. `agrees_nodes` runs the three side by
  side: the checked renderer never fails, and what is written and the error are those of the
  renderer over chains.
-/

namespace Stencil

/-! ## A renderer that minds the bounds of the arena -/

namespace Arena

/-- One step of a path, if the context is in the arena. -/
def step? (arena : Arena) (id : Nat) : Path.Step → Option (Arena × Nat)
  | .parent => arena.records[id]?.map fun r => (arena, r.parent?.getD id)
  | .key name => arena.records[id]?.map fun r =>
      arena.push name (r.value?.bind (·.get? name)) (some id)

/-- Follows a path as long as all contexts on it are in the arena. -/
def resolve? (arena : Arena) (id : Nat) (path : String) : Option (Arena × Nat) :=
  (Path.steps path).foldlM (fun (arena, id) s => arena.step? id s) (arena, id)

end Arena

/-- A part of a rendering that ends with nothing where a record outside the arena is looked at. -/
def Checked := Progress → Option (Progress × Option Error)

namespace Checked

/-- A part that looks at no record. -/
def lift (a : Action) : Checked := fun p => some (a p)

def andThen (a b : Checked) : Checked := fun p =>
  (a p).bind fun
    | (p, none) => b p
    | (p, some e) => some (p, some e)

def resolve (id : Nat) (path : String) (next : Nat → Checked) : Checked := fun p =>
  (p.arena.resolve? id path).bind fun (arena, id) => next id { p with arena }

def withRecord (id : Nat) (next : Record → Checked) : Checked := fun p =>
  p.arena.records[id]?.bind fun r => next r p

def withValue (id : Nat) (next : Option Value → Checked) : Checked :=
  withRecord id fun r => next r.value?

def forElements (id : Nat) (each : Nat → Checked) : (index : Nat) → List Value → Checked
  | _, [] => lift .skip
  | index, item :: items =>
    andThen
      (fun p =>
        let (arena, id) := p.arena.element id index item
        each id { p with arena })
      (forElements id each (index + 1) items)

def inspect (slots : List Nat) : Inspection → Checked
  | .finish => lift .skip
  | .fail e => lift (.fail e)
  | .write text next => (lift (.write text)).andThen (inspect slots next)
  | .output next => fun p => inspect slots (next p.output) p
  | .replace text next => fun p => inspect slots next { p with output := text }
  | .resolve n path next =>
    resolve (Action.slot slots n) path fun id => inspect (slots ++ [id]) next
  | .parent n next =>
    withRecord (Action.slot slots n) fun r =>
      match r.parent? with
      | some parent => inspect (slots ++ [parent]) (next true)
      | none => inspect (slots ++ [Action.slot slots n]) (next false)
  | .look n next =>
    withRecord (Action.slot slots n) fun r => inspect slots (next r.key r.value?)

mutual

def node (settings : Settings) : Node → Nat → Checked
  | .content text, _ => lift (.write text)
  | .value path escaped, id =>
    resolve id path fun id => withValue id fun
      | none => lift .skip
      | some v => lift (.write (Action.valueText settings escaped v))
  | .conditional path body, id =>
    resolve id path fun id => withValue id fun v? =>
      if v?.any (·.truthy) then nodes settings body id else lift .skip
  | .inverted path body, id =>
    resolve id path fun id => withValue id fun v? =>
      if v?.any (·.truthy) then lift .skip else nodes settings body id
  | .each path body, id =>
    resolve id path fun id => withValue id fun
      | none => lift .skip
      | some v =>
        if v.truthy then
          match v.elements? with
          | some items => forElements id (nodes settings body) 0 items
          | none => lift (.fail (.scalarUsedAsCollection path (some v.kind)))
        else lift .skip
  | .custom path expander, id => inspect [id] (expander.render path settings)

def nodes (settings : Settings) : List Node → Nat → Checked
  | [], _ => lift .skip
  | n :: ns, id => (node settings n id).andThen (nodes settings ns id)

end

end Checked

/-! ## Arenas only grow -/

namespace Arena

/-- Every record of the first arena is in the second one under the same number. -/
def GrowsTo (arena later : Arena) : Prop :=
  ∀ (id : Nat) (r : Record), arena.records[id]? = some r → later.records[id]? = some r

theorem GrowsTo.refl (arena : Arena) : arena.GrowsTo arena := fun _ _ h => h

theorem GrowsTo.trans {a b c : Arena} (hab : a.GrowsTo b) (hbc : b.GrowsTo c) : a.GrowsTo c :=
  fun id r h => hbc id r (hab id r h)

theorem growsTo_push (arena : Arena) (key : String) (value? : Option Value)
    (parent? : Option Nat) : arena.GrowsTo (arena.push key value? parent?).1 := by
  intro id r h
  obtain ⟨hlt, -⟩ := Array.getElem?_eq_some_iff.1 h
  simp only [push, Array.getElem?_push, Nat.ne_of_lt hlt, if_false, h]

/-- A pushed record is found under its number. -/
theorem getElem?_push (arena : Arena) (key : String) (value? : Option Value)
    (parent? : Option Nat) :
    (arena.push key value? parent?).1.records[(arena.push key value? parent?).2]? =
      some ⟨key, Value.nonNull? value?, parent?⟩ := by
  simp [push, Value.filter_isNull]

/-! ## Contexts and their chains -/

/-- The record of a context and those above it say what the chain says. -/
inductive Shows (arena : Arena) : Nat → Chain → Prop
  | root {id : Nat} {key : String} {value? : Option Value}
      (h : arena.records[id]? = some ⟨key, value?, none⟩) : Shows arena id ⟨key, value?, []⟩
  | under {id parent : Nat} {key : String} {value? : Option Value} {c : Chain}
      (h : arena.records[id]? = some ⟨key, value?, some parent⟩) (hparent : Shows arena parent c) :
      Shows arena id ⟨key, value?, (c.key, c.value?) :: c.above⟩

variable {arena later : Arena} {id : Nat} {c : Chain}

theorem Shows.mono (h : arena.Shows id c) (hgrow : arena.GrowsTo later) : later.Shows id c := by
  induction h with
  | root h => exact .root (hgrow _ _ h)
  | under h _ ih => exact .under (hgrow _ _ h) ih

/-- A context with a chain is in the arena, and its record and its chain have the same key, the
    same value and parents that belong together. -/
theorem Shows.exists_record (h : arena.Shows id c) :
    ∃ r, arena.records[id]? = some r ∧ r.key = c.key ∧ r.value? = c.value? ∧
      ((r.parent? = none ∧ c.parent? = none) ∨
        ∃ parent d, r.parent? = some parent ∧ c.parent? = some d ∧ arena.Shows parent d) := by
  cases h with
  | root h => exact ⟨_, h, rfl, rfl, .inl ⟨rfl, rfl⟩⟩
  | under h hparent => exact ⟨_, h, rfl, rfl, .inr ⟨_, _, rfl, rfl, hparent⟩⟩

theorem shows_root (model : Value) : (ofModel model).Shows 0 (.root model) :=
  .root (by simp [ofModel, push, Value.filter_isNull])

/-- A context pushed below another one shows the chain below that one's. -/
theorem Shows.push (h : arena.Shows id c) (key : String) (value? : Option Value) :
    (arena.push key value? (some id)).1.Shows (arena.push key value? (some id)).2
      (c.below key value?) :=
  .under (getElem?_push arena key value? (some id)) (h.mono (growsTo_push arena key value? (some id)))

theorem value?_of_record {r : Record} (h : arena.records[id]? = some r) :
    arena.value? id = r.value? := by simp [value?, h]

theorem parent?_of_record {r : Record} (h : arena.records[id]? = some r) :
    arena.parent? id = r.parent? := by simp [parent?, h]

theorem key_of_record {r : Record} (h : arena.records[id]? = some r) : arena.key id = r.key := by
  simp [key, h]

/-! ## Following a path -/

theorem Shows.step (h : arena.Shows id c) (s : Path.Step) :
    arena.step? id s = some (arena.step id s) ∧ arena.GrowsTo (arena.step id s).1 ∧
      (arena.step id s).1.Shows (arena.step id s).2 (c.step s) := by
  obtain ⟨r, hr, -, hvalue, hparent⟩ := h.exists_record
  cases s with
  | parent =>
    simp only [step?, Arena.step, hr, Option.map_some, parent?_of_record hr, Chain.step]
    refine ⟨trivial, .refl arena, ?_⟩
    rcases hparent with ⟨hnone, hroot⟩ | ⟨parent, d, hsome, habove, hd⟩
    · rw [hnone, hroot]; exact h
    · rw [hsome, habove]; exact hd
  | key name =>
    simp only [step?, Arena.step, hr, Option.map_some, value?_of_record hr, hvalue, Chain.step]
    exact ⟨trivial, growsTo_push arena name _ (some id), h.push name _⟩

theorem Shows.follow (steps : List Path.Step) (h : arena.Shows id c) :
    let reached := steps.foldl (fun (arena, id) s => arena.step id s) (arena, id)
    steps.foldlM (fun (arena, id) s => arena.step? id s) (arena, id) = some reached ∧
      arena.GrowsTo reached.1 ∧ reached.1.Shows reached.2 (steps.foldl Chain.step c) := by
  induction steps generalizing arena id c with
  | nil => exact ⟨rfl, .refl arena, h⟩
  | cons s steps ih =>
    obtain ⟨hstep, hgrow, hshows⟩ := h.step s
    obtain ⟨hrest, hgrow', hshows'⟩ := ih hshows
    refine ⟨?_, hgrow.trans hgrow', hshows'⟩
    simp only [List.foldlM_cons, hstep]
    exact hrest

/-- A path is followed within the arena, and leads to the context of the chain it leads to. -/
theorem Shows.resolve (h : arena.Shows id c) (path : String) :
    arena.resolve? id path = some (arena.resolve id path) ∧
      arena.GrowsTo (arena.resolve id path).1 ∧
      (arena.resolve id path).1.Shows (arena.resolve id path).2 (c.resolve path) :=
  h.follow (Path.steps path)

end Arena

/-! ## Three renderers side by side -/

/-- From every arena that `base` has grown to: the checked part does not fail and does the same as
    the part itself, that only adds records, and the writer has the same outcome. -/
def Agrees (base : Arena) (a : Action) (k : Checked) (w : Writer) : Prop :=
  ∀ p : Progress, base.GrowsTo p.arena →
    k p = some (a p) ∧ p.arena.GrowsTo (a p).1.arena ∧ w p.output = ⟨(a p).1.output, (a p).2⟩

section Agrees

variable {base : Arena} {id : Nat} {c : Chain} {a b : Action} {k l : Checked}
  {v w : Writer}

theorem agrees_skip : Agrees base .skip (.lift .skip) .skip :=
  fun p _ => ⟨rfl, .refl p.arena, rfl⟩

theorem agrees_fail (e : Error) :
    Agrees base (.fail e) (.lift (.fail e)) (.fail e) :=
  fun p _ => ⟨rfl, .refl p.arena, rfl⟩

theorem agrees_write (text : String) :
    Agrees base (.write text) (.lift (.write text)) (.write text) :=
  fun p _ => ⟨rfl, .refl p.arena, rfl⟩

theorem Agrees.andThen (ha : Agrees base a k w) (hb : Agrees base b l v) :
    Agrees base (a.andThen b) (k.andThen l) (w.andThen v) := by
  intro p hp
  obtain ⟨hk, hgrow, hw⟩ := ha p hp
  simp only [Action.andThen, Checked.andThen, Writer.andThen, hk, hw, Option.bind_some]
  match hap : a p with
  | (q, some e) =>
    rw [hap] at hgrow
    exact ⟨rfl, hgrow, rfl⟩
  | (q, none) =>
    rw [hap] at hgrow
    obtain ⟨hl, hgrow', hv⟩ := hb q (hp.trans hgrow)
    exact ⟨hl, hgrow.trans hgrow', hv⟩

theorem Agrees.ite {condition : Prop} [Decidable condition] (ha : Agrees base a k w)
    (hb : Agrees base b l v) :
    Agrees base (if condition then a else b) (if condition then k else l)
      (if condition then w else v) := by
  split
  · exact ha
  · exact hb

theorem Agrees.resolve {path : String} {next : Nat → Action} {knext : Nat → Checked}
    (h : base.Shows id c)
    (hnext : ∀ later id, base.GrowsTo later → later.Shows id (c.resolve path) →
      Agrees later (next id) (knext id) w) :
    Agrees base (.resolve id path next) (.resolve id path knext) w := by
  intro p hp
  obtain ⟨hsome, hgrow, hshows⟩ := (h.mono hp).resolve path
  obtain ⟨hk, hgrow', hw⟩ := hnext _ _ (hp.trans hgrow) hshows
    ⟨(p.arena.resolve id path).1, p.output⟩ (.refl _)
  refine ⟨?_, hgrow.trans hgrow', hw⟩
  rw [Checked.resolve, hsome]
  exact hk

theorem Agrees.withValue {next : Option Value → Action} {knext : Option Value → Checked}
    (h : base.Shows id c) (hnext : Agrees base (next c.value?) (knext c.value?) w) :
    Agrees base (.withValue id next) (.withValue id knext) w := by
  intro p hp
  obtain ⟨r, hr, -, hvalue, -⟩ := (h.mono hp).exists_record
  simp only [Action.withValue, Checked.withValue, Checked.withRecord, Arena.value?_of_record hr, hr,
    Option.bind_some, hvalue]
  exact hnext p hp

/-- The elements of a collection, each in a context of its own below the collection's. -/
theorem Agrees.forElements {each : Nat → Action} {keach : Nat → Checked}
    {weach : Chain → Writer} (h : base.Shows id c)
    (heach : ∀ later id d, base.GrowsTo later → later.Shows id d →
      Agrees later (each id) (keach id) (weach d)) (index : Nat) (items : List Value) :
    Agrees base (.forElements id each index items) (.forElements id keach index items)
      (c.elements weach index items) := by
  induction items generalizing index with
  | nil => exact agrees_skip
  | cons item items ih =>
    refine Agrees.andThen (fun p hp => ?_) (ih (index + 1))
    have hgrow := p.arena.growsTo_push ("[" ++ toString index ++ "]") (some item) (some id)
    obtain ⟨hk, hgrow', hw⟩ := heach _ _ _ (hp.trans hgrow) ((h.mono hp).push _ _)
      ⟨(p.arena.element id index item).1, p.output⟩ (.refl _)
    exact ⟨hk, hgrow.trans hgrow', hw⟩

/-- Sequences and maps have elements, and nothing else does. -/
theorem Agrees.loop {each : Nat → Action} {keach : Nat → Checked} {weach : Chain → Writer}
    (h : base.Shows id c)
    (heach : ∀ later id d, base.GrowsTo later → later.Shows id d →
      Agrees later (each id) (keach id) (weach d)) (path : String) (v : Value) :
    Agrees base
      (match v.elements? with
        | some items => .forElements id each 0 items
        | none => .fail (.scalarUsedAsCollection path (some v.kind)))
      (match v.elements? with
        | some items => .forElements id keach 0 items
        | none => .lift (.fail (.scalarUsedAsCollection path (some v.kind))))
      (c.loop path weach v) := by
  cases v with
  | seq items => exact Agrees.forElements h heach 0 items
  | map entries => exact Agrees.forElements h heach 0 (entries.map (·.2))
  | _ => exact agrees_fail _

/-! ## Custom tags -/

/-- Numbers that show chains, one by one: the tag's own context and those it has obtained. -/
def Arena.ShowsAll (arena : Arena) (slots : List Nat) (own : Chain) (obtained : List Chain) :
    Prop :=
  List.Forall₂ arena.Shows slots (own :: obtained)

theorem Arena.ShowsAll.mono {later : Arena} {slots : List Nat} {own : Chain}
    {obtained : List Chain} (h : base.ShowsAll slots own obtained) (hgrow : base.GrowsTo later) :
    later.ShowsAll slots own obtained :=
  List.Forall₂.imp (fun _ _ hid => hid.mono hgrow) h

theorem Arena.ShowsAll.concat {slots : List Nat} {own : Chain} {obtained : List Chain}
    (h : base.ShowsAll slots own obtained) (hid : base.Shows id c) :
    base.ShowsAll (slots ++ [id]) own (obtained ++ [c]) :=
  List.rel_append h (.cons hid .nil)

theorem Arena.ShowsAll.slot {slots : List Nat} {own : Chain} {obtained : List Chain}
    (h : base.ShowsAll slots own obtained) (n : Nat) :
    base.Shows (Action.slot slots n) (Chain.slot own obtained n) := by
  obtain ⟨hlen, hget⟩ := List.forall₂_iff_get.1 h
  obtain ⟨first, rest, rfl⟩ := List.exists_cons_of_length_eq_add_one hlen
  have hown : base.Shows first own := hget 0 (by simp) (by simp)
  by_cases hn : n < (first :: rest).length
  · have hn' : n < (own :: obtained).length := hlen ▸ hn
    simp only [Action.slot, Chain.slot, List.getElem?_eq_getElem hn, List.getElem?_eq_getElem hn',
      Option.getD_some]
    exact hget n hn hn'
  · have hn' : ¬n < (own :: obtained).length := hlen ▸ hn
    simp only [Action.slot, Chain.slot, List.getElem?_eq_none (Nat.le_of_not_lt hn),
      List.getElem?_eq_none (Nat.le_of_not_lt hn'), Option.getD_none, List.headD_cons]
    exact hown

/-- What a custom tag does is the same in both kinds of context. -/
theorem agrees_inspect (i : Inspection) {base : Arena} {slots : List Nat} {own : Chain}
    {obtained : List Chain} (h : base.ShowsAll slots own obtained) :
    Agrees base (.inspect slots i) (.inspect slots i) (Chain.inspect own obtained i) := by
  induction i generalizing base slots obtained with
  | finish => exact agrees_skip
  | fail e => exact agrees_fail e
  | write text next ih => exact (agrees_write text).andThen (ih h)
  | output next ih => exact fun p hp => ih p.output h p hp
  | replace text next ih => exact fun p hp => ih h { p with output := text } hp
  | resolve n path next ih =>
    exact Agrees.resolve (h.slot n) fun later id hgrow hid => ih ((h.mono hgrow).concat hid)
  | parent n next ih =>
    intro p hp
    obtain ⟨r, hr, -, -, hparent⟩ := ((h.slot n).mono hp).exists_record
    simp only [Action.inspect, Checked.inspect, Chain.inspect, Checked.withRecord, hr,
      Option.bind_some, Arena.parent?_of_record hr]
    rcases hparent with ⟨hnone, hroot⟩ | ⟨parent, d, hsome, habove, hd⟩
    · rw [hnone, hroot]
      exact ih false (h.concat (h.slot n)) p hp
    · rw [hsome, habove]
      exact ih true ((h.mono hp).concat hd) p (.refl p.arena)
  | look n next ih =>
    intro p hp
    obtain ⟨r, hr, hkey, hvalue, -⟩ := ((h.slot n).mono hp).exists_record
    simp only [Action.inspect, Checked.inspect, Chain.inspect, Checked.withRecord, hr,
      Option.bind_some, Arena.value?_of_record hr, Arena.key_of_record hr, hkey, hvalue]
    exact ih _ _ h p hp

/-! ## Nodes -/

mutual

theorem agrees_node (settings : Settings) (n : Node) {base : Arena} {id : Nat} {c : Chain}
    (h : base.Shows id c) :
    Agrees base (.node settings n id) (.node settings n id) (Chain.node settings n c) := by
  match n with
  | .content text => exact agrees_write text
  | .value path escaped =>
    rw [Action.node, Checked.node, Chain.node]
    refine Agrees.resolve h fun later id _ hid => Agrees.withValue hid ?_
    match (c.resolve path).value? with
    | none => exact agrees_skip
    | some v => exact agrees_write _
  | .conditional path body =>
    rw [Action.node, Checked.node, Chain.node]
    refine Agrees.resolve h fun later id _ hid => Agrees.withValue hid ?_
    exact Agrees.ite (agrees_nodes settings body hid) agrees_skip
  | .inverted path body =>
    rw [Action.node, Checked.node, Chain.node]
    refine Agrees.resolve h fun later id _ hid => Agrees.withValue hid ?_
    exact Agrees.ite agrees_skip (agrees_nodes settings body hid)
  | .each path body =>
    rw [Action.node, Checked.node, Chain.node]
    refine Agrees.resolve h fun later id _ hid => Agrees.withValue hid ?_
    match (c.resolve path).value? with
    | none => exact agrees_skip
    | some v =>
      have hloop := Agrees.loop hid (fun _ _ _ _ hd => agrees_nodes settings body hd) path v
      exact Agrees.ite hloop agrees_skip
  | .custom path expander =>
    exact agrees_inspect _ (List.Forall₂.cons h .nil)

theorem agrees_nodes (settings : Settings) (ns : List Node) {base : Arena} {id : Nat} {c : Chain}
    (h : base.Shows id c) :
    Agrees base (.nodes settings ns id) (.nodes settings ns id) (Chain.nodes settings ns c) := by
  match ns with
  | [] => exact agrees_skip
  | n :: ns => exact (agrees_node settings n h).andThen (agrees_nodes settings ns h)

end

end Agrees

/-! ## Whole renderings -/

/-- What a rendering leaves is what the renderer over chains leaves. -/
theorem Template.chain_nodes (t : Template) (model : Value) (output : String) :
    Chain.nodes t.options.toSettings t.nodes (.root model) output =
      ⟨(t.renderOnto model output).output, (t.renderOnto model output).error⟩ :=
  (agrees_nodes t.options.toSettings t.nodes (Arena.shows_root model) ⟨.ofModel model, output⟩
    (.refl _)).2.2

theorem Template.outcome_eq (t : Template) (model : Value) :
    t.outcome model = Chain.nodes t.options.toSettings t.nodes (.root model) "" :=
  (t.chain_nodes model "").symm

/-- Rendering over an arena never looks at a record that is not there, and writes what rendering
    over chains writes and ends in the same error, whatever was written before. -/
theorem nodes_refine_chains (settings : Settings) (ns : List Node) (model : Value)
    (output : String) :
    let start : Progress := ⟨.ofModel model, output⟩
    Checked.nodes settings ns 0 start = some (Action.nodes settings ns 0 start) ∧
      Chain.nodes settings ns (.root model) output =
        ⟨(Action.nodes settings ns 0 start).1.output, (Action.nodes settings ns 0 start).2⟩ := by
  intro start
  obtain ⟨hchecked, -, hchain⟩ :=
    agrees_nodes settings ns (Arena.shows_root model) start (.refl start.arena)
  exact ⟨hchecked, hchain⟩

end Stencil
