import Stencil.Proofs.Concatenation
import Stencil.Proofs.Print
/-
  Blocks and the value that they open. A tree whose paths do not lead up is rendered by the value
  of its context alone (`nodes_congr`), so the body of a block is rendered like a template of its
  own against that value. That a text is still the same template between the two tags of a block
  is `parse_block`.
-/

namespace Stencil

open Text

/-! ## Paths that do not lead up -/

/-- The value that keys lead to, one after the other. -/
def Value.reach? (v : Value) (keys : List String) : Option Value :=
  nonNull? (keys.foldlM Value.get? v)

namespace Chain

/-- One key down from a value. -/
def down (value? : Option Value) (name : String) : Option Value :=
  Value.nonNull? (value?.bind (·.get? name))

theorem value?_follow {steps : List Path.Step} (h : .parent ∉ steps) (c : Chain) :
    (steps.foldl step c).value? = (steps.filterMap Path.Step.key?).foldl down c.value? := by
  induction steps generalizing c with
  | nil => rfl
  | cons s steps ih =>
    simp only [List.mem_cons, not_or] at h
    cases s with
    | parent => exact absurd rfl h.1
    | key name => exact ih h.2 _

theorem foldl_down (keys : List String) (value? : Option Value) :
    keys.foldl down (Value.nonNull? value?) =
      Value.nonNull? (value?.bind (keys.foldlM Value.get?)) := by
  -- a null value has nothing below it, so it may be dropped at every key or at the end
  have hnull : ∀ (value? : Option Value) name,
      (Value.nonNull? value?).bind (·.get? name) = value?.bind (·.get? name) := by
    intro value? name
    rcases value? with _ | v
    · rfl
    · cases v <;> rfl
  induction keys generalizing value? with
  | nil => cases value? <;> rfl
  | cons name keys ih =>
    rw [List.foldl_cons, down, hnull, ih]
    cases value? <;> rfl

/-- A path that does not lead up ends at the value that its keys lead to from the model. -/
theorem value?_resolve_root {path : String} (h : .parent ∉ Path.steps path) (model : Value) :
    ((root model).resolve path).value? = model.reach? (Path.keys path) := by
  rw [resolve, value?_follow h, root, foldl_down]
  rfl

theorem value?_root_reach? (model : Value) (keys : List String) :
    (root ((model.reach? keys).getD .null)).value? = model.reach? keys := by
  rw [root, Value.reach?]
  cases keys.foldlM Value.get? model with
  | none => rfl
  | some v => cases v <;> rfl

theorem value?_resolve_congr {path : String} (h : .parent ∉ Path.steps path) {c d : Chain}
    (hvalue : c.value? = d.value?) : (c.resolve path).value? = (d.resolve path).value? := by
  rw [resolve, resolve, value?_follow h, value?_follow h, hvalue]

end Chain

/-! ## Trees that look at one value -/

/-- The path of a tag; text between tags has none. -/
def Token.path? : Token → Option String
  | .content _ => none
  | t => some t.value

/-- The token is no expander's, and its path does not lead up. -/
def Token.Downward (t : Token) : Prop :=
  (∀ path expander, t ≠ .custom path expander) ∧ ∀ path ∈ t.path?, .parent ∉ Path.steps path

namespace Chain

variable {settings : Settings}

/-- Elements of a collection, if each is rendered by its value alone. -/
theorem elements_eq_foldr {c : Chain} {each : Chain → Writer} {alone : Value → Writer}
    (h : ∀ index item, each (c.element index item) = alone item) (index : Nat)
    (items : List Value) :
    c.elements each index items =
      items.foldr (fun item rest => (alone item).andThen rest) .skip := by
  induction items generalizing index with
  | nil => rfl
  | cons item items ih => rw [elements, h, ih, List.foldr_cons]

mutual

theorem node_congr (n : Node) (h : ∀ t ∈ n.tokens, t.Downward) {c d : Chain}
    (hvalue : c.value? = d.value?) : node settings n c = node settings n d := by
  match n with
  | .content text => rw [node, node]
  | .custom path expander =>
    exact absurd rfl ((h (.custom path expander) (by simp [Node.tokens])).1 path expander)
  | .value path escaped =>
    have hpath : .parent ∉ Path.steps path := by
      cases escaped
      · exact (h (.unescaped path) (by simp [Node.tokens])).2 path rfl
      · exact (h (.escaped path) (by simp [Node.tokens])).2 path rfl
    rw [node, node, value?_resolve_congr hpath hvalue]
  | .conditional path body =>
    have hpath := value?_resolve_congr
      ((h (.sectionOpen path) (by simp [Node.tokens])).2 path rfl) hvalue
    have hbody := nodes_congr body (fun t ht => h t (by simp [Node.tokens, ht])) hpath
    rw [node, node, holds, holds, hpath, hbody]
  | .inverted path body =>
    have hpath := value?_resolve_congr
      ((h (.invertedOpen path) (by simp [Node.tokens])).2 path rfl) hvalue
    have hbody := nodes_congr body (fun t ht => h t (by simp [Node.tokens, ht])) hpath
    rw [node, node, holds, holds, hpath, hbody]
  | .each path body =>
    have hpath := value?_resolve_congr
      ((h (.eachOpen path) (by simp [Node.tokens])).2 path rfl) hvalue
    have hbody : ∀ index item,
        nodes settings body ((c.resolve path).element index item) =
          nodes settings body ((d.resolve path).element index item) :=
      fun index item => nodes_congr body (fun t ht => h t (by simp [Node.tokens, ht])) rfl
    simp only [node, hpath, loop_congr hbody]

/-- Of a context, a tree whose paths do not lead up uses the value alone. -/
theorem nodes_congr (ns : List Node) (h : ∀ t ∈ Node.tokensAll ns, t.Downward) {c d : Chain}
    (hvalue : c.value? = d.value?) : nodes settings ns c = nodes settings ns d := by
  match ns with
  | [] => rw [nodes, nodes]
  | n :: ns =>
    rw [nodes, nodes, node_congr n (fun t ht => h t (by simp [Node.tokensAll, ht])) hvalue,
      nodes_congr ns (fun t ht => h t (by simp [Node.tokensAll, ht])) hvalue]

end

end Chain

/-! ## Outcomes in order -/

/-- What parts leave one after the other, up to the first error. -/
def Outcome.inOrder (outcomes : List Outcome) : Outcome := outcomes.foldr .followedBy ⟨"", none⟩

theorem Writer.foldr_andThen {alone : Value → Writer} (h : ∀ v, (alone v).Appends)
    (items : List Value) :
    (items.foldr (fun item rest => (alone item).andThen rest) .skip).Appends ∧
      items.foldr (fun item rest => (alone item).andThen rest) .skip "" =
        .inOrder (items.map fun item => alone item "") := by
  induction items with
  | nil => exact ⟨closed_appends.skip, rfl⟩
  | cons item items ih =>
    refine ⟨closed_appends.andThen (h item) ih.1, ?_⟩
    rw [List.foldr_cons, ih.1.andThen_eq, ih.2]
    rfl

/-! ## A text between the tags of a block -/

/-- The tags of a text that stand outside all of its blocks. -/
def outerTags (text : String) (options : Options) : List Tag :=
  Tokenizer.outerTags options 0 [] (Piece.split text.toList)

namespace Tokenizer

variable {options : Options} {t : Token} {u v : Tag} {f : Frame} {block : List Node → Node}

/-- Pieces that read as nodes do so inside other blocks too, if none of them opens the section
    right around them once more. -/
theorem Reads.beneath {ps : List Piece} {ns : List Node} (h : Reads options ps ns)
    {outer : List Frame} (hfresh : ∀ tag ∈ outerTags options 0 [] ps, ∀ path,
      tag.kind = .sectionOpen path ∨ tag.kind = .invertedOpen path →
        outer.head? ≠ some ⟨false, String.ofList path⟩)
    {scopes : List Scope} (hscopes : frames scopes = outer) (offset : Nat) :
    ∃ left, run options offset scopes ps = ⟨Node.tokensAll ns, [], left⟩ ∧
      frames left = outer := by
  obtain ⟨htokens, hfaults, hleft⟩ := @run_beneath options outer ps 0 [] scopes hscopes hfresh
    (congrArg Run.faults (h 0)) offset
  rw [h 0] at htokens hleft
  refine ⟨(run options offset scopes ps).scopes, ?_, hleft⟩
  calc run options offset scopes ps
      = ⟨(run options offset scopes ps).tokens, (run options offset scopes ps).faults,
          (run options offset scopes ps).scopes⟩ := rfl
    _ = ⟨Node.tokensAll ns, [], (run options offset scopes ps).scopes⟩ := by
        rw [htokens, hfaults]

/-- Pieces that read as nodes read as a block of them between its tags, if none of them opens the
    block's section once more. -/
theorem Reads.enclose {ps : List Piece} {ns : List Node} (h : Reads options ps ns)
    (hx : options.expanders = []) (hrole : Node.role t = .opens block) (hopens : t.opens? = some f)
    (hu : t.piece = .tag u) (hplain : t.Plain) (hv : f.close.piece = .tag v)
    (hclose : f.close.Plain)
    (hfresh : ∀ tag ∈ outerTags options 0 [] ps, ∀ path,
      tag.kind = .sectionOpen path ∨ tag.kind = .invertedOpen path →
        f ≠ ⟨false, String.ofList path⟩) :
    Reads options (.tag u :: (ps ++ [.tag v])) [block ns] := by
  intro offset
  obtain ⟨opened, hopen, hopened⟩ := @step_piece options hx [] _ _ _ hu hplain (by simp)
    (Token.follow?_of_opens hopens) offset
  have hhead : ∀ tag ∈ outerTags options 0 [] ps, ∀ path,
      tag.kind = .sectionOpen path ∨ tag.kind = .invertedOpen path →
        [f].head? ≠ some ⟨false, String.ofList path⟩ := by simpa using hfresh
  obtain ⟨inner, hbody, hinner⟩ := h.beneath hhead hopened (offset + byteSize u.chars)
  obtain ⟨left, hend, hleft⟩ := @step_piece options hx inner [] _ _ hv hclose (by simp)
    (by rw [hinner]; exact Token.follow?_of_closes f.closes?_close)
    (offset + byteSize u.chars + byteSize (Piece.flatten ps))
  obtain ⟨g, hg, hblock⟩ := Node.tokens_block hrole
  obtain rfl : f = g := Option.some.inj (hopens.symm.trans hg)
  obtain rfl : left = [] := List.map_eq_nil_iff.1 hleft
  simp only [run, hopen, run_append, hbody, hend, Node.tokensAll, hblock]
  simp

end Tokenizer

namespace Template

variable {options : Options} {a p : String} {s : Template}

/-- An accepted text is accepted between the tags of a block, as the block's body. -/
theorem parse_block (hx : options.expanders = []) (ha : parse a options = .ok s) {t : Token}
    {u v : Tag} {f : Frame} {block : List Node → Node} (hrole : Node.role t = .opens block)
    (hopens : t.opens? = some f) (hu : t.piece = .tag u) (hplain : t.Plain)
    (hv : f.close.piece = .tag v) (hclose : f.close.Plain)
    (hfresh : ∀ tag ∈ outerTags a options, ∀ path,
      tag.kind = .sectionOpen path ∨ tag.kind = .invertedOpen path →
        f ≠ ⟨false, String.ofList path⟩) :
    parse (t.display ++ a ++ f.close.display) options = .ok ⟨[block s.nodes], options⟩ := by
  obtain ⟨-, hreads⟩ := parse_eq_ok_iff_reads.1 ha
  have hsplit : Piece.split (t.display ++ a ++ f.close.display).toList =
      .tag u :: (Piece.split a.toList ++ [.tag v]) := by
    have hnormal : Piece.Normal (.tag u :: (Piece.split a.toList ++ [.tag v])) :=
      ⟨Token.wellFormed_piece hplain hu,
        Piece.normal_concat_tag (Piece.normal_split _) (Token.wellFormed_piece hclose hv)⟩
    rw [← Piece.split_flatten hnormal]
    simp [Token.toList_display, hu, hv, Piece.flatten_split]
  refine parse_eq_ok_iff_reads.2 ⟨rfl, ?_⟩
  rw [hsplit]
  exact hreads.enclose hx hrole hopens hu hplain hv hclose hfresh

theorem downward_nodes (hx : options.expanders = []) (ha : parse a options = .ok s)
    (hdown : ∀ tok ∈ (tokenize a options).tokens, ∀ path ∈ tok.path?,
      .parent ∉ Path.steps path) : ∀ t ∈ Node.tokensAll s.nodes, t.Downward := by
  obtain ⟨-, hrun⟩ := parse_eq_ok_iff_run.1 ha
  have htokens : (tokenize a options).tokens = Node.tokensAll s.nodes :=
    congrArg Tokenizer.Run.tokens hrun
  rw [htokens] at hdown
  refine fun t ht => ⟨fun path e hcustom => ?_, hdown t ht⟩
  have he := expander_mem ha (hcustom ▸ ht)
  rw [hx] at he
  exact absurd he List.not_mem_nil

/-- The body of a block is rendered like the template against the value that the block opens. -/
theorem nodes_resolve (hp : .parent ∉ Path.steps p)
    (hdown : ∀ t ∈ Node.tokensAll s.nodes, t.Downward) (model : Value) :
    Chain.nodes s.options.toSettings s.nodes ((Chain.root model).resolve p) "" =
      s.outcome ((model.reach? (Path.keys p)).getD .null) := by
  rw [outcome_eq]
  refine congrFun (Chain.nodes_congr s.nodes hdown ?_) ""
  rw [Chain.value?_resolve_root hp, Chain.value?_root_reach?]

theorem outcome_conditional (hp : .parent ∉ Path.steps p)
    (hdown : ∀ t ∈ Node.tokensAll s.nodes, t.Downward) (model : Value) :
    outcome ⟨[.conditional p s.nodes], s.options⟩ model =
      if (model.reach? (Path.keys p)).any (·.truthy)
      then s.outcome ((model.reach? (Path.keys p)).getD .null) else ⟨"", none⟩ := by
  rw [outcome_eq, Chain.nodes_singleton, Chain.node, Chain.holds, Chain.value?_resolve_root hp]
  split
  · exact nodes_resolve hp hdown model
  · rfl

theorem outcome_inverted (hp : .parent ∉ Path.steps p)
    (hdown : ∀ t ∈ Node.tokensAll s.nodes, t.Downward) (model : Value) :
    outcome ⟨[.inverted p s.nodes], s.options⟩ model =
      if (model.reach? (Path.keys p)).any (·.truthy) then ⟨"", none⟩
      else s.outcome ((model.reach? (Path.keys p)).getD .null) := by
  rw [outcome_eq, Chain.nodes_singleton, Chain.node, Chain.holds, Chain.value?_resolve_root hp]
  split
  · rfl
  · exact nodes_resolve hp hdown model

theorem outcome_each (hx : options.expanders = []) (ha : parse a options = .ok s)
    (hp : .parent ∉ Path.steps p) (hdown : ∀ t ∈ Node.tokensAll s.nodes, t.Downward)
    (model : Value) :
    outcome ⟨[.each p s.nodes], s.options⟩ model =
      match model.reach? (Path.keys p) with
      | none => ⟨"", none⟩
      | some v =>
        if v.truthy then
          match v with
          | .seq items => .inOrder (items.map s.outcome)
          | .map entries => .inOrder (entries.map fun e => s.outcome e.2)
          | v => ⟨"", some (.scalarUsedAsCollection p (some v.kind))⟩
        else ⟨"", none⟩ := by
  have helement : ∀ (c : Chain) index item,
      Chain.nodes s.options.toSettings s.nodes (c.element index item) =
        Chain.nodes s.options.toSettings s.nodes (.root item) :=
    fun c index item => Chain.nodes_congr s.nodes hdown rfl
  have helements : ∀ (c : Chain) items,
      c.elements (Chain.nodes s.options.toSettings s.nodes) 0 items "" =
        .inOrder (items.map s.outcome) := by
    intro c items
    rw [Chain.elements_eq_foldr (helement c), funext s.outcome_eq]
    exact (Writer.foldr_andThen (fun item => appends_nodes (by simp [hx]) ha (.root item)) items).2
  rw [outcome_eq, Chain.nodes_singleton, Chain.node, Chain.value?_resolve_root hp]
  cases model.reach? (Path.keys p) with
  | none => rfl
  | some v =>
    dsimp only
    split
    · cases v with
      | seq items => exact helements _ items
      | map entries =>
        have hvalues := helements ((Chain.root model).resolve p) (entries.map (·.2))
        rw [List.map_map] at hvalues
        exact hvalues
      | _ => rfl
    · rfl

/-- Between the tags of a block, an accepted text whose paths do not lead up is scoped to the value
    that the block opens. A section renders it against that value if there is one that is truthy,
    an inverted section if there is not, and a loop against each element. -/
theorem block_scoped (hx : options.expanders = []) (ha : parse a options = .ok s)
    (hdown : ∀ tok ∈ (tokenize a options).tokens, ∀ path ∈ tok.path?, .parent ∉ Path.steps path)
    (hvalid : Path.isValid p = true) (hne : p ≠ "") (hp : .parent ∉ Path.steps p) :
    (p ≠ "each" → (∀ tag ∈ outerTags a options,
        tag.kind ≠ .sectionOpen p.toList ∧ tag.kind ≠ .invertedOpen p.toList) →
      ∃ t u, parse ((Token.sectionOpen p).display ++ a ++ (Token.sectionClose p).display)
          options = .ok t ∧
        parse ((Token.invertedOpen p).display ++ a ++ (Token.sectionClose p).display)
          options = .ok u ∧
        ∀ model, let value? := model.reach? (Path.keys p)
          t.outcome model =
            (if value?.any (·.truthy) then s.outcome (value?.getD .null) else ⟨"", none⟩) ∧
          u.outcome model =
            (if value?.any (·.truthy) then ⟨"", none⟩ else s.outcome (value?.getD .null))) ∧
    ∃ t, parse ((Token.eachOpen p).display ++ a ++ (Token.eachClose p).display) options = .ok t ∧
      ∀ model, t.outcome model =
        match model.reach? (Path.keys p) with
        | none => ⟨"", none⟩
        | some v =>
          if v.truthy then
            match v with
            | .seq items => .inOrder (items.map s.outcome)
            | .map entries => .inOrder (entries.map fun e => s.outcome e.2)
            | v => ⟨"", some (.scalarUsedAsCollection p (some v.kind))⟩
          else ⟨"", none⟩ := by
  obtain ⟨rfl, -⟩ := parse_eq_ok_iff_reads.1 ha
  have hdownward := downward_nodes hx ha hdown
  refine ⟨fun heach houter => ?_, ?_⟩
  · have hfresh : ∀ tag ∈ outerTags a s.options, ∀ path,
        tag.kind = .sectionOpen path ∨ tag.kind = .invertedOpen path →
          (⟨false, p⟩ : Frame) ≠ ⟨false, String.ofList path⟩ := by
      intro tag htag path hkind hframe
      obtain rfl : p = String.ofList path := (Frame.mk.inj hframe).2
      rw [String.toList_ofList] at houter
      exact hkind.elim (houter tag htag).1 (houter tag htag).2
    have hclose : (Frame.mk false p).close.Plain := Node.plain_close (.inr ⟨hvalid, heach⟩)
    have ht := @parse_block s.options a s hx ha (.sectionOpen p) _ _ ⟨false, p⟩ _ rfl rfl rfl
      ⟨hvalid, heach⟩ rfl hclose hfresh
    have hu := @parse_block s.options a s hx ha (.invertedOpen p) _ _ ⟨false, p⟩ _ rfl rfl rfl
      ⟨hvalid, heach⟩ rfl hclose hfresh
    exact ⟨_, _, ht, hu, fun model =>
      ⟨outcome_conditional hp hdownward model, outcome_inverted hp hdownward model⟩⟩
  · have ht := @parse_block s.options a s hx ha (.eachOpen p) _ _ ⟨true, p⟩ _ rfl rfl rfl
      ⟨hvalid, hne⟩ rfl (Node.plain_close (.inl rfl)) (fun _ _ _ _ => by simp)
    exact ⟨_, ht, fun model => outcome_each hx ha hp hdownward model⟩

/-- A section that itself holds a section of `p`, a loop, and a single brace at the end. -/
def scopedBody : String :=
  "\x7b\x7b#q\x7d\x7d\x7b\x7b#p\x7d\x7d\x7b\x7bn\x7d\x7d\x7b\x7b/p\x7d\x7d\x7b\x7b/q\x7d\x7d" ++
    "\x7b\x7b#each r\x7d\x7d+\x7b\x7b/each\x7d\x7d\x7b"

/-- The second element ends the loop over `p` with an error. -/
def scopedElements : List Value :=
  [.map [("q", .map [("p", .map [("n", .int 1)])]), ("r", .map [("a", .int 0), ("b", .null)])],
    .map [("r", .int 7)],
    .map []]

/-- The elements as a sequence and as a map, and a scalar in their place. -/
theorem block_scoped_elements : ∃ t u w,
    parse ((Token.sectionOpen "p").display ++ scopedBody ++ (Token.sectionClose "p").display) {} =
      .ok t ∧
    parse ((Token.invertedOpen "p").display ++ scopedBody ++ (Token.sectionClose "p").display) {} =
      .ok u ∧
    parse ((Token.eachOpen "p").display ++ scopedBody ++ (Token.eachClose "p").display) {} =
      .ok w ∧
    t.outcome (.map [("p", .seq scopedElements)]) = ⟨"\x7b", none⟩ ∧
    u.outcome (.map [("p", .seq scopedElements)]) = ⟨"", none⟩ ∧
    w.outcome (.map [("p", .seq scopedElements)]) =
      ⟨"1++\x7b", some (.scalarUsedAsCollection "r" (some "integer"))⟩ ∧
    w.outcome (.map [("p", .map (["x", "y", "z"].zip scopedElements))]) =
      ⟨"1++\x7b", some (.scalarUsedAsCollection "r" (some "integer"))⟩ ∧
    w.outcome (.map [("p", .str "x")]) =
      ⟨"", some (.scalarUsedAsCollection "p" (some "string"))⟩ := by
  have hbody := parse_eq_ok_iff.2 ⟨(by decide +kernel : (tokenize scopedBody {}).errors = []), rfl⟩
  obtain ⟨hsections, w, hw, heach⟩ := block_scoped rfl hbody (by decide +kernel)
    (by decide +kernel : Path.isValid "p" = true) (by decide) (by decide +kernel)
  obtain ⟨t, u, ht, hu, hsection⟩ := hsections (by decide) (by decide +kernel)
  obtain ⟨hopened, hinverted⟩ := hsection (.map [("p", .seq scopedElements)])
  exact ⟨t, u, w, ht, hu, hw, hopened.trans (by decide +kernel), hinverted.trans (by decide +kernel),
    (heach _).trans (by decide +kernel), (heach _).trans (by decide +kernel),
    (heach _).trans (by decide +kernel)⟩

end Template

end Stencil
