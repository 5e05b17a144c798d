import Stencil.Proofs.Balance
import Stencil.Template
/-
  Trees written back as tokens. `ofTokens_tokensAll`: the tree builder finds a tree again in its
  tokens. `finishes_of_followAll?`: a balanced list of tokens is the tokens of a tree. Together
  they say that on what the tokenizer accepts, building loses nothing, although the builder never
  looks at which block a closing token names.
-/

namespace Stencil

/-- The token that closes a block. -/
def Frame.close (f : Frame) : Token :=
  if f.isEach then .eachClose f.path else .sectionClose f.path

theorem Token.closes?_eq_some_iff {t : Token} {f : Frame} : t.closes? = some f ↔ t = f.close := by
  obtain ⟨_ | _, path⟩ := f <;> cases t <;> simp [Token.closes?, Frame.close]

@[simp] theorem Frame.closes?_close (f : Frame) : f.close.closes? = some f :=
  Token.closes?_eq_some_iff.2 rfl

@[simp] theorem Frame.opens?_close (f : Frame) : f.close.opens? = none := by
  obtain ⟨_ | _, path⟩ := f <;> rfl

namespace Node

/-! ## Writing a tree as tokens -/

mutual

/-- The tokens that a node is made of: its own token, or an opening token, its body and the
    closing token that fits. -/
def tokens : Node → List Token
  | .content text => [.content text]
  | .value path escaped => [if escaped then .escaped path else .unescaped path]
  | .conditional path body => .sectionOpen path :: (tokensAll body ++ [.sectionClose path])
  | .inverted path body => .invertedOpen path :: (tokensAll body ++ [.sectionClose path])
  | .each path body => .eachOpen path :: (tokensAll body ++ [.eachClose path])
  | .custom path expander => [.custom path expander]

def tokensAll : List Node → List Token
  | [] => []
  | n :: ns => tokens n ++ tokensAll ns

end

theorem tokensAll_append (ms ns : List Node) :
    tokensAll (ms ++ ns) = tokensAll ms ++ tokensAll ns := by
  induction ms with
  | nil => rfl
  | cons m ms ih => rw [List.cons_append, tokensAll, tokensAll, ih, List.append_assoc]

/-! ## Roles of tokens -/

theorem tokens_leaf {t : Token} {n : Node} (h : role t = .leaf n) :
    n.tokens = [t] ∧ t.opens? = none ∧ t.closes? = none := by
  cases t <;> simp only [role, Role.leaf.injEq, reduceCtorEq] at h <;> subst h <;>
    simp [tokens, Token.opens?, Token.closes?]

theorem tokens_block {t : Token} {block : List Node → Node} (h : role t = .opens block) :
    ∃ f, t.opens? = some f ∧
      ∀ body, (block body).tokens = t :: (tokensAll body ++ [f.close]) := by
  cases t <;> simp only [role, Role.opens.injEq, reduceCtorEq] at h <;> subst h
  · exact ⟨_, rfl, fun body => by rw [tokens]; rfl⟩
  · exact ⟨_, rfl, fun body => by rw [tokens]; rfl⟩
  · exact ⟨_, rfl, fun body => by rw [tokens]; rfl⟩

theorem closes?_of_role {t : Token} (h : role t = .closes) : ∃ f, t.closes? = some f := by
  cases t <;> simp [role, Token.closes?] at h ⊢

theorem role_close (f : Frame) : role f.close = .closes := by
  obtain ⟨_ | _, path⟩ := f <;> rfl

/-! ## Building from tokens -/

/-- The nodes built from the front of some tokens, and the tokens left. -/
def built (nested : Bool) (ts : List Token) : List Node × List Token :=
  ((build nested ts).nodes, (build nested ts).rest)

theorem built_nil (nested : Bool) : built nested [] = ([], []) := by
  simp [built, build]

theorem built_leaf {t : Token} {n : Node} (h : role t = .leaf n) (nested : Bool)
    (ts : List Token) :
    built nested (t :: ts) = (n :: (built nested ts).1, (built nested ts).2) := by
  simp only [built]
  rw [build]
  simp only [h]

theorem built_opens {t : Token} {block : List Node → Node} (h : role t = .opens block)
    (nested : Bool) (ts : List Token) :
    built nested (t :: ts) =
      (block (built true ts).1 :: (built nested (built true ts).2).1,
        (built nested (built true ts).2).2) := by
  simp only [built]
  rw [build]
  simp only [h]

theorem built_closes {t : Token} (h : role t = .closes) (ts : List Token) :
    built true (t :: ts) = ([], ts) := by
  simp only [built]
  rw [build]
  simp only [h, if_true]

theorem built_skips {t : Token} (h : role t = .closes) (ts : List Token) :
    built false (t :: ts) = built false ts := by
  simp only [built]
  rw [build]
  simp [h]

/-- A block's tokens are built into the block. -/
theorem built_block {t : Token} {f : Frame} {block : List Node → Node}
    (h : role t = .opens block) {body : List Node}
    (hbody : ∀ rest, built true (tokensAll body ++ rest) =
      (body ++ (built true rest).1, (built true rest).2)) (nested : Bool) (rest : List Token) :
    built nested (t :: (tokensAll body ++ [f.close]) ++ rest) =
      (block body :: (built nested rest).1, (built nested rest).2) := by
  have hinner : built true (tokensAll body ++ [f.close] ++ rest) = (body, rest) := by
    rw [List.append_assoc, List.singleton_append, hbody, built_closes (role_close f),
      List.append_nil]
  rw [List.cons_append, built_opens h, hinner]

mutual

/-- The builder finds a node in its tokens, whatever follows them. -/
theorem built_tokens (n : Node) (nested : Bool) (rest : List Token) :
    built nested (n.tokens ++ rest) = (n :: (built nested rest).1, (built nested rest).2) := by
  match n with
  | .content text => exact built_leaf rfl nested rest
  | .value path true => exact built_leaf rfl nested rest
  | .value path false => exact built_leaf rfl nested rest
  | .custom path expander => exact built_leaf rfl nested rest
  | .conditional path body =>
    exact built_block (t := .sectionOpen path) (f := ⟨false, path⟩) rfl
      (built_tokensAll body true) nested rest
  | .inverted path body =>
    exact built_block (t := .invertedOpen path) (f := ⟨false, path⟩) rfl
      (built_tokensAll body true) nested rest
  | .each path body =>
    exact built_block (t := .eachOpen path) (f := ⟨true, path⟩) rfl
      (built_tokensAll body true) nested rest

theorem built_tokensAll (ns : List Node) (nested : Bool) (rest : List Token) :
    built nested (tokensAll ns ++ rest) =
      (ns ++ (built nested rest).1, (built nested rest).2) := by
  match ns with
  | [] => rfl
  | n :: ns =>
    rw [tokensAll, List.append_assoc, built_tokens n, built_tokensAll ns]
    rfl

end

/-- The tree builder finds a tree again in its tokens. -/
theorem ofTokens_tokensAll (ns : List Node) : ofTokens (tokensAll ns) = ns := by
  have h := built_tokensAll ns false []
  rw [List.append_nil, built_nil, List.append_nil] at h
  exact congrArg Prod.fst h

/-! ## Balanced tokens are a tree's -/

/-- Tokens that end some open blocks, innermost first: nodes and the closing token of each block,
    and then nodes. -/
def Finishes : List Frame → List Token → Prop
  | [], ts => ∃ ns, ts = tokensAll ns
  | f :: outer, ts => ∃ ns rest, ts = tokensAll ns ++ f.close :: rest ∧ Finishes outer rest

theorem Finishes.cons_node {fs : List Frame} {ts : List Token} (n : Node) (h : Finishes fs ts) :
    Finishes fs (n.tokens ++ ts) := by
  cases fs with
  | nil =>
    obtain ⟨ns, rfl⟩ := h
    exact ⟨n :: ns, rfl⟩
  | cons f outer =>
    obtain ⟨ns, rest, rfl, hrest⟩ := h
    exact ⟨n :: ns, rest, by rw [tokensAll, List.append_assoc], hrest⟩

/-- Tokens after which no block is open finish all blocks that were open before them. -/
theorem finishes_of_followAll? {fs : List Frame} {ts : List Token}
    (h : Token.followAll? fs ts = some []) : Finishes fs ts := by
  induction ts generalizing fs with
  | nil =>
    obtain rfl : fs = [] := by simpa using h
    exact ⟨[], rfl⟩
  | cons t ts ih =>
    rw [Token.followAll?_cons, Option.bind_eq_some_iff] at h
    obtain ⟨gs, ht, hts⟩ := h
    match hrole : role t with
    -- a leaf goes in front of the innermost block's nodes
    | .leaf n =>
      obtain ⟨hn, hopens, hcloses⟩ := tokens_leaf hrole
      obtain rfl : fs = gs := by
        rw [Token.follow?_of_leaf hopens hcloses] at ht
        exact Option.some.inj ht
      have hfin := (ih hts).cons_node n
      rwa [hn] at hfin
    | .opens block =>
      obtain ⟨f, hopens, hblock⟩ := tokens_block hrole
      rw [Token.follow?_of_opens hopens] at ht
      obtain rfl := Option.some.inj ht
      -- the rest finishes the new block first, and that block becomes one node
      obtain ⟨body, rest, rfl, hrest⟩ := ih hts
      have hfin := hrest.cons_node (block body)
      rw [hblock, List.cons_append, List.append_assoc] at hfin
      exact hfin
    | .closes =>
      obtain ⟨f, hcloses⟩ := closes?_of_role hrole
      simp only [Token.follow?, hcloses, Option.ite_none_right_eq_some] at ht
      obtain ⟨hhead, hgs⟩ := ht
      obtain ⟨outer, rfl⟩ := List.head?_eq_some_iff.1 hhead
      obtain rfl := Option.some.inj hgs
      exact ⟨[], ts, by rw [Token.closes?_eq_some_iff.1 hcloses]; rfl, ih hts⟩

/-- Balanced tokens are those that trees are written as. -/
theorem exists_tokensAll {ts : List Token} (h : Token.followAll? [] ts = some []) :
    ∃ ns, ts = tokensAll ns := finishes_of_followAll? h

end Node

/-! ## Accepted templates -/

namespace Template

/-- A template is accepted exactly when its text has no errors. -/
theorem parse_eq_ok_iff {text : String} {options : Options} {t : Template} :
    parse text options = .ok t ↔ (tokenize text options).errors = [] ∧
      t = ⟨Node.ofTokens (tokenize text options).tokens, options⟩ := by
  unfold parse tokens
  dsimp only
  split
  · next h => simp [h, bind, Except.bind, pure, Except.pure, eq_comm]
  · next h => simp [h, bind, Except.bind]

/-- A template is accepted exactly when the run over its pieces leaves no fault and no open block,
    and then its tree is the one that the run's tokens are written from. -/
theorem parse_eq_ok_iff_run {text : String} {options : Options} {t : Template} :
    parse text options = .ok t ↔ t.options = options ∧
      tokenizerRun text options = ⟨Node.tokensAll t.nodes, [], []⟩ := by
  rw [parse_eq_ok_iff, errors_eq_nil_iff]
  constructor
  · rintro ⟨⟨hfaults, hscopes⟩, rfl⟩
    have hfollow := @follow_tokenize text options (by simp [hfaults])
    rw [hscopes, frames_nil] at hfollow
    obtain ⟨ns, hns⟩ := Node.exists_tokensAll hfollow
    refine ⟨rfl, ?_⟩
    rw [hns, Node.ofTokens_tokensAll, ← hns, ← hfaults, ← hscopes]
    rfl
  · rintro ⟨rfl, hrun⟩
    have htokens : (tokenize text t.options).tokens = Node.tokensAll t.nodes :=
      congrArg Tokenizer.Run.tokens hrun
    rw [hrun, htokens, Node.ofTokens_tokensAll]
    exact ⟨⟨rfl, rfl⟩, rfl⟩

/-- The tree of an accepted template, written back as tokens, is the tokens of its text. -/
theorem tokensAll_parse {text : String} {options : Options} {t : Template}
    (h : parse text options = .ok t) :
    Node.tokensAll t.nodes = (tokenize text options).tokens := by
  obtain ⟨hok, rfl⟩ := parse_eq_ok_iff.1 h
  obtain ⟨hfaults, hscopes⟩ := errors_eq_nil_iff.1 hok
  have hfollow := @follow_tokenize text options (by simp [hfaults])
  rw [hscopes, frames_nil] at hfollow
  obtain ⟨ns, hns⟩ := Node.exists_tokensAll hfollow
  rw [hns, Node.ofTokens_tokensAll]

/-- An `each` block around a section that is begun twice. -/
def reopened : String :=
  "\x7b\x7b#each a\x7d\x7d\x7b\x7b#b\x7d\x7dx\x7b\x7b^b\x7d\x7d\x7by\x7b\x7b/b\x7d\x7d" ++
    "\x7b\x7b/each\x7d\x7d"

theorem tokensAll_parse_reopened :
    ∃ t, parse reopened {} = .ok t ∧
      Node.tokensAll t.nodes = [.eachOpen "a", .sectionOpen "b", .content "x", .sectionClose "b",
        .invertedOpen "b", .content "\x7by", .sectionClose "b", .eachClose "a"] := by
  have hok : (tokenize reopened {}).errors = [] := by decide +kernel
  have h := parse_eq_ok_iff.2 ⟨hok, rfl⟩
  exact ⟨_, h, (tokensAll_parse h).trans (by with_unfolding_all rfl)⟩

end Template

end Stencil
