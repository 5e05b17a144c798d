import Stencil.Proofs.Concatenation
import Stencil.Proofs.Inference
/-
  What a rendering does not look at. If two models have the same under every name of a template's
  shape, the contexts of the two renderings are `Twins`: below the root they have the same values,
  and only at the root may they differ. A value tag there writes nothing for either model, and a
  block is never opened there if its path ends in a key, so the outcomes are the same.
-/

namespace Stencil

/-! ## The names of a shape -/

namespace Shape

mutual

/-- The names of all parts of a shape, however deep they are. -/
def names : Shape → List String
  | node _ children => namesIn children

def namesIn : List (String × Shape) → List String
  | [] => []
  | (name, child) :: rest => name :: (names child ++ namesIn rest)

end

theorem mem_namesIn {entries : List (String × Shape)} {name : String} {child : Shape}
    (h : entries.lookup name = some child) :
    name ∈ namesIn entries ∧ ∀ k ∈ names child, k ∈ namesIn entries := by
  induction entries with
  | nil => simp at h
  | cons e rest ih =>
    obtain ⟨k, s⟩ := e
    rw [Entries.lookup_cons] at h
    rw [namesIn]
    split at h
    · next hname =>
      obtain rfl := Option.some.inj h
      subst hname
      exact ⟨List.mem_cons_self, fun i hi => List.mem_cons_of_mem _ (List.mem_append_left _ hi)⟩
    · obtain ⟨hmem, hsub⟩ := ih h
      exact ⟨List.mem_cons_of_mem _ (List.mem_append_right _ hmem),
        fun i hi => List.mem_cons_of_mem _ (List.mem_append_right _ (hsub i hi))⟩

theorem mem_names_of_at? {s : Shape} {ks : List String} {k : String}
    (h : (s.at? (ks ++ [k])).isSome = true) : k ∈ s.names := by
  induction ks generalizing s with
  | nil =>
    obtain ⟨usage, children⟩ := s
    rw [List.nil_append, at?_cons] at h
    cases hchild : (node usage children).child? k with
    | none => simp [hchild] at h
    | some c => exact (mem_namesIn hchild).1
  | cons j ks ih =>
    obtain ⟨usage, children⟩ := s
    rw [List.cons_append, at?_cons] at h
    cases hchild : (node usage children).child? j with
    | none => simp [hchild] at h
    | some c =>
      rw [hchild, Option.bind_some] at h
      exact (mem_namesIn hchild).2 k (ih h)

/-- Every key of a path that some token uses is a name of the shape. -/
theorem keys_subset_names {ts : List Token} {t : Token} (ht : t ∈ ts) {path : String}
    {use : Usage} (huse : useOf? t = some (path, use)) :
    ∀ name ∈ Path.keys path, name ∈ (ofTokens ts).names := by
  intro name hname
  obtain ⟨ks, rest, hkeys⟩ := List.append_of_mem hname
  have hmentions : mentions (ks ++ [name]) t = true :=
    (mentions_iff huse).2 ⟨rest, by rw [hkeys]; simp⟩
  refine @mem_names_of_at? _ ks name ?_
  rw [isSome_at?_ofTokens ts (by simp), List.any_eq_true]
  exact ⟨t, ht, hmentions⟩

end Shape

/-! ## Contexts of two renderings -/

namespace Chain

/-- Contexts that are reached in the same way from the roots of two models, through the same
    values. -/
inductive Twins (m m' : Value) : Chain → Chain → Prop
  | root : Twins m m' (.root m) (.root m')
  | under {c d : Chain} (h : Twins m m' c d) (key : String) (value? : Option Value) :
      Twins m m' (c.below key value?) (d.below key value?)

section Twins

variable {m m' : Value} {c d : Chain}

theorem root_get? (m : Value) (name : String) :
    (root m).value?.bind (·.get? name) = m.get? name := by
  cases m <;> rfl

theorem Twins.get? (h : Twins m m' c d) {name : String} (hname : m.get? name = m'.get? name) :
    c.value?.bind (·.get? name) = d.value?.bind (·.get? name) := by
  cases h with
  | root => rw [root_get?, root_get?, hname]
  | under => rfl

/-- The root is its own parent in both renderings, and any other context has twins above it. -/
theorem Twins.step (h : Twins m m' c d) (s : Path.Step)
    (hs : ∀ name, s = .key name → m.get? name = m'.get? name) :
    Twins m m' (c.step s) (d.step s) := by
  cases s with
  | parent =>
    cases h with
    | root => exact .root
    | under h => exact h
  | key name =>
    rw [Chain.step, Chain.step, h.get? (hs name rfl)]
    exact .under h name _

theorem Twins.follow (h : Twins m m' c d) (steps : List Path.Step)
    (hsteps : ∀ name, .key name ∈ steps → m.get? name = m'.get? name) :
    Twins m m' (steps.foldl Chain.step c) (steps.foldl Chain.step d) := by
  induction steps generalizing c d with
  | nil => exact h
  | cons s steps ih =>
    have hhead := h.step s fun name hs => hsteps name (hs ▸ List.mem_cons_self)
    exact ih hhead fun name hname => hsteps name (List.mem_cons_of_mem s hname)

theorem Twins.resolve (h : Twins m m' c d) {path : String}
    (hkeys : ∀ name ∈ Path.keys path, m.get? name = m'.get? name) :
    Twins m m' (c.resolve path) (d.resolve path) :=
  h.follow (Path.steps path) fun name hname =>
    hkeys name (List.mem_filterMap.2 ⟨.key name, hname, rfl⟩)

/-- A path that ends in a key leads away from the root, to the same value. -/
theorem Twins.value?_resolve (h : Twins m m' c d) {path name : String}
    (hkeys : ∀ name ∈ Path.keys path, m.get? name = m'.get? name)
    (hlast : (Path.steps path).getLast? = some (.key name)) :
    (c.resolve path).value? = (d.resolve path).value? := by
  obtain ⟨init, hinit⟩ := List.getLast?_eq_some_iff.1 hlast
  have hall : ∀ name, .key name ∈ Path.steps path → m.get? name = m'.get? name :=
    fun name hname => hkeys name (List.mem_filterMap.2 ⟨.key name, hname, rfl⟩)
  rw [hinit] at hall
  have hbefore := h.follow init fun name hname => hall name (List.mem_append_left _ hname)
  have hstep := hbefore.get? (hall name (List.mem_append_right _ (by simp)))
  simp only [Chain.resolve, hinit, List.foldl_append, List.foldl_cons, List.foldl_nil, Chain.step,
    hstep]
  rfl

end Twins

end Chain

/-! ## Rendering in two contexts -/

/-- The token is no expander's, the models have the same under the keys of its path, and if it
    opens a block, its path ends in a key. -/
structure Token.Settled (m m' : Value) (t : Token) : Prop where
  builtIn : ∀ path expander, t ≠ .custom path expander
  keys : ∀ path use, Shape.useOf? t = some (path, use) →
    ∀ name ∈ Path.keys path, m.get? name = m'.get? name
  last : ∀ f, t.opens? = some f → ∃ name, (Path.steps f.path).getLast? = some (.key name)

namespace Chain

variable {settings : Settings} {entries entries' : List (String × Value)} {c d : Chain}

/-- What a value tag writes in a context. -/
def writeValue (settings : Settings) (escaped : Bool) (c : Chain) : Writer :=
  match c.value? with
  | none => .skip
  | some v => .write (Action.valueText settings escaped v)

/-- A map has no text, so at the root a value tag writes nothing for either model. -/
theorem Twins.writeValue_eq (h : Twins (.map entries) (.map entries') c d) (escaped : Bool) :
    writeValue settings escaped c = writeValue settings escaped d := by
  cases h with
  | root => rfl
  | under => rfl

/-- The token of a block leads to twins with the same value. -/
theorem Twins.opened {m m' : Value} (h : Twins m m' c d) {t : Token} {isEach : Bool}
    {path : String} {use : Usage} (ht : t.Settled m m') (hopens : t.opens? = some ⟨isEach, path⟩)
    (huse : Shape.useOf? t = some (path, use)) :
    Twins m m' (c.resolve path) (d.resolve path) ∧
      (c.resolve path).value? = (d.resolve path).value? := by
  obtain ⟨name, hlast⟩ := ht.last _ hopens
  exact ⟨h.resolve (ht.keys _ use huse), h.value?_resolve (ht.keys _ use huse) hlast⟩

mutual

theorem node_twins (n : Node) {c d : Chain}
    (hn : ∀ t ∈ n.tokens, t.Settled (.map entries) (.map entries'))
    (h : Twins (.map entries) (.map entries') c d) : node settings n c = node settings n d := by
  match n with
  | .content text => rw [node, node]
  | .custom path expander =>
    exact absurd rfl ((hn (.custom path expander) (by simp [Node.tokens])).builtIn path expander)
  | .value path escaped =>
    have hkeys : ∀ name ∈ Path.keys path,
        (Value.map entries).get? name = (Value.map entries').get? name := by
      cases escaped
      · exact (hn (.unescaped path) (by simp [Node.tokens])).keys path .scalar rfl
      · exact (hn (.escaped path) (by simp [Node.tokens])).keys path .scalar rfl
    rw [node, node]
    exact (h.resolve hkeys).writeValue_eq escaped
  | .conditional path body =>
    obtain ⟨htwins, hvalue⟩ := h.opened (hn (.sectionOpen path) (by simp [Node.tokens])) rfl rfl
    have hbody := nodes_twins body (fun t ht => hn t (by simp [Node.tokens, ht])) htwins
    rw [node, node, holds, holds, hvalue, hbody]
  | .inverted path body =>
    obtain ⟨htwins, hvalue⟩ := h.opened (hn (.invertedOpen path) (by simp [Node.tokens])) rfl rfl
    have hbody := nodes_twins body (fun t ht => hn t (by simp [Node.tokens, ht])) htwins
    rw [node, node, holds, holds, hvalue, hbody]
  | .each path body =>
    obtain ⟨htwins, hvalue⟩ := h.opened (hn (.eachOpen path) (by simp [Node.tokens])) rfl rfl
    have hbody : ∀ index item,
        nodes settings body ((c.resolve path).element index item) =
          nodes settings body ((d.resolve path).element index item) :=
      fun index item => nodes_twins body (fun t ht => hn t (by simp [Node.tokens, ht]))
        (.under htwins _ _)
    simp only [node, hvalue, loop_congr hbody]

/-- A tree of settled tokens is rendered alike in twin contexts. -/
theorem nodes_twins (ns : List Node) {c d : Chain}
    (hns : ∀ t ∈ Node.tokensAll ns, t.Settled (.map entries) (.map entries'))
    (h : Twins (.map entries) (.map entries') c d) : nodes settings ns c = nodes settings ns d := by
  match ns with
  | [] => rw [nodes, nodes]
  | n :: ns =>
    rw [nodes, nodes, node_twins n (fun t ht => hns t (by simp [Node.tokensAll, ht])) h,
      nodes_twins ns (fun t ht => hns t (by simp [Node.tokensAll, ht])) h]

end

end Chain

/-! ## Templates -/

namespace Template

/-- What a model has under keys that the shape of a template does not name has no influence on what
    is rendered: maps that agree on the names leave the same outcome. The path of every block has to
    end in a key, or else the block could ask whether the root is empty, or run over it. -/
theorem outcome_eq_of_names {text : String} {options : Options} {t : Template} {shape : Shape}
    (hx : options.expanders = []) (hparse : parseWithShape text options = .ok (t, shape))
    (hlast : ∀ tok ∈ (tokenize text options).tokens, ∀ f, tok.opens? = some f →
      ∃ name, (Path.steps f.path).getLast? = some (.key name))
    {entries entries' : List (String × Value)}
    (hagree : ∀ name ∈ shape.names,
      (Value.map entries).get? name = (Value.map entries').get? name) :
    t.outcome (.map entries) = t.outcome (.map entries') := by
  obtain ⟨ht, rfl⟩ := parseWithShape_eq_ok_iff.1 hparse
  obtain ⟨rfl, hrun⟩ := parse_eq_ok_iff_run.1 ht
  have htokens : (tokenize text t.options).tokens = Node.tokensAll t.nodes :=
    congrArg Tokenizer.Run.tokens hrun
  have hsettled : ∀ tok ∈ Node.tokensAll t.nodes,
      tok.Settled (.map entries) (.map entries') := by
    intro tok htok
    refine ⟨fun path e hcustom => ?_, fun path use huse name hname => ?_,
      hlast tok (htokens ▸ htok)⟩
    · have he := expander_mem ht (hcustom ▸ htok)
      rw [hx] at he
      exact absurd he List.not_mem_nil
    · exact hagree name (Shape.keys_subset_names (htokens ▸ htok) huse name hname)
  rw [outcome_eq, outcome_eq, Chain.nodes_twins t.nodes hsettled .root]

/-- Paths that lead up, from inside a loop and past the root, and a tag for the root itself. -/
def climbing : String :=
  "\x7b\x7b#each a.b\x7d\x7d\x7b\x7b../../../c\x7d\x7d" ++
    "\x7b\x7b^../../../../d\x7d\x7d\x7b\x7b../../../\x7d\x7d!\x7b\x7b/../../../../d\x7d\x7d" ++
    "\x7b\x7b/each\x7d\x7d\x7b\x7b.\x7d\x7d"

def climbed (rest : List (String × Value)) : List (String × Value) :=
  [("a", .map [("b", .seq [.int 1, .int 2])]), ("c", .str "x")] ++ rest

theorem outcome_eq_climbing : ∃ t shape, parseWithShape climbing {} = .ok (t, shape) ∧
    t.outcome (.map (climbed [("e", .str "secret")])) = t.outcome (.map (climbed [])) ∧
    t.outcome (.map (climbed [])) = ⟨"x!x!", none⟩ := by
  have hok : (tokenize climbing {}).errors = [] := by decide +kernel
  have hparse := parseWithShape_eq_ok_iff.2 ⟨parse_eq_ok_iff.2 ⟨hok, rfl⟩, rfl⟩
  have hnames : (Shape.ofTokens (tokenize climbing {}).tokens).names = ["a", "b", "c", "d"] := by
    decide +kernel
  have htokens : (tokenize climbing {}).tokens.filterMap Token.opens? =
      [⟨true, "a.b"⟩, ⟨false, "../../../../d"⟩] := by decide +kernel
  refine ⟨_, _, hparse, outcome_eq_of_names rfl hparse (fun tok htok f hf => ?_) ?_,
    by decide +kernel⟩
  · have hmem := List.mem_filterMap.2 ⟨tok, htok, hf⟩
    rw [htokens] at hmem
    simp only [List.mem_cons, List.not_mem_nil, or_false] at hmem
    rcases hmem with rfl | rfl
    · exact ⟨"b", by decide +kernel⟩
    · exact ⟨"d", by decide +kernel⟩
  · rw [hnames]
    simp only [List.forall_mem_cons]
    exact ⟨rfl, rfl, rfl, rfl, List.forall_mem_nil _⟩

end Template

end Stencil
