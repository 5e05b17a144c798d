import Mathlib.Data.List.Chain
import Stencil.Proofs.Scoping
/-
  Sections whose tag is repeated. The tag of the innermost section, once more, ends its body and
  begins another one. So a chain of branches under one closing tag has the tokens of the same
  branches each closed by itself (`reads_chainPieces`, `reads_apartPieces`), and exactly those are
  rendered whose sigil fits the value of the path (`nodes_blocks`).
-/

namespace Stencil

open Text

/-! ## Branches -/

/-- One body of a section, for a value that is there and truthy or for one that is not. -/
structure Branch where
  inverted : Bool
  body : String

namespace Branch

/-- The token that begins the branch in a section of `p`. -/
def opening (p : String) (b : Branch) : Token :=
  if b.inverted then .invertedOpen p else .sectionOpen p

/-- All branches in one section: each tag but the first ends the branch before it. -/
def chained (p : String) (bs : List Branch) : String :=
  String.join (bs.map fun b => (b.opening p).display ++ b.body) ++ (Token.sectionClose p).display

/-- Every branch in a section of its own. -/
def apart (p : String) (bs : List Branch) : String :=
  String.join (bs.map fun b =>
    (b.opening p).display ++ b.body ++ (Token.sectionClose p).display)

/-- The tree of the body alone. -/
def nodes (options : Options) (b : Branch) : List Node :=
  Node.ofTokens (tokenize b.body options).tokens

/-- The branch as a block of its own. -/
def block (options : Options) (p : String) (b : Branch) : Node :=
  if b.inverted then .inverted p (b.nodes options) else .conditional p (b.nodes options)

/-- The body is accepted alone, and outside its own blocks no tag begins a section of `p`. -/
structure Fits (options : Options) (p : String) (b : Branch) : Prop where
  ok : (tokenize b.body options).errors = []
  fresh : ∀ tag ∈ outerTags b.body options,
    tag.kind ≠ .sectionOpen p.toList ∧ tag.kind ≠ .invertedOpen p.toList

/-- The bodies of two branches can stand on both sides of a tag: one opening brace before it and
    one closing brace behind it would make it a tag of three braces. -/
def Joinable (b c : Branch) : Prop :=
  ¬(['{'] <:+ b.body.toList ∧ ['}'] <+: c.body.toList)

instance (b c : Branch) : Decidable (b.Joinable c) := inferInstanceAs (Decidable (¬_))

/-! ## Tags of branches -/

/-- The tag that begins the branch. -/
def tag (p : String) (b : Branch) : Tag := ⟨false, (if b.inverted then '^' else '#') :: p.toList⟩

/-- The tag that ends a section of `p`. -/
def closing (p : String) : Tag := ⟨false, '/' :: p.toList⟩

section Tags

variable {p : String} (b : Branch)

theorem piece_opening : (b.opening p).piece = .tag (b.tag p) := by
  obtain ⟨_ | _, body⟩ := b <;> rfl

theorem opens?_opening : (b.opening p).opens? = some ⟨false, p⟩ := by
  obtain ⟨_ | _, body⟩ := b <;> rfl

theorem plain_opening (hvalid : Path.isValid p = true) (heach : p ≠ "each") :
    (b.opening p).Plain := by
  obtain ⟨_ | _, body⟩ := b <;> exact ⟨hvalid, heach⟩

theorem role_opening (options : Options) :
    ∃ block, Node.role (b.opening p) = .opens block ∧
      b.block options p = block (b.nodes options) := by
  obtain ⟨_ | _, body⟩ := b <;> exact ⟨_, rfl, rfl⟩

theorem tokens_block (options : Options) :
    (b.block options p).tokens =
      b.opening p :: (Node.tokensAll (b.nodes options) ++ [.sectionClose p]) := by
  obtain ⟨_ | _, body⟩ := b <;> simp [block, opening, Node.tokens]

theorem wellFormed_tag (hvalid : Path.isValid p = true) : (b.tag p).WellFormed := by
  refine Tag.wellFormed_sigil ?_ hvalid
  split <;> decide

theorem toList_opening : (b.opening p).display.toList = (b.tag p).chars := by
  rw [Token.toList_display, piece_opening, Piece.chars]

end Tags

theorem wellFormed_closing {p : String} (hvalid : Path.isValid p = true) :
    (closing p).WellFormed := Tag.wellFormed_sigil (by decide) hvalid

theorem toList_closing (p : String) :
    (Token.sectionClose p).display.toList = (closing p).chars := Token.toList_display _

/-! ## The pieces of a chain -/

/-- The pieces of a chain of branches; without a branch, only the closing tag. -/
def chainPieces (p : String) : List Branch → List Piece
  | [] => [.tag (closing p)]
  | b :: bs => .tag (b.tag p) :: (Piece.split b.body.toList ++ chainPieces p bs)

/-- The pieces of branches apart. -/
def apartPieces (p : String) : List Branch → List Piece
  | [] => []
  | b :: bs =>
    .tag (b.tag p) :: (Piece.split b.body.toList ++ .tag (closing p) :: apartPieces p bs)

theorem flatten_chainPieces (p : String) (bs : List Branch) :
    Piece.flatten (chainPieces p bs) = (chained p bs).toList := by
  induction bs with
  | nil =>
    simp only [chainPieces, chained, List.map_nil, String.join_nil, String.toList_append,
      toList_closing, Piece.flatten_cons, Piece.flatten_nil, Piece.chars, List.append_nil]
    rfl
  | cons b bs ih =>
    rw [chainPieces, Piece.flatten_cons, Piece.flatten_append, ih, Piece.flatten_split, chained,
      chained, List.map_cons, String.join_cons]
    simp only [String.toList_append, toList_opening, Piece.chars, List.append_assoc]

theorem flatten_apartPieces (p : String) (bs : List Branch) :
    Piece.flatten (apartPieces p bs) = (apart p bs).toList := by
  induction bs with
  | nil => rfl
  | cons b bs ih =>
    rw [apartPieces, Piece.flatten_cons, Piece.flatten_append, Piece.flatten_cons, ih,
      Piece.flatten_split, apart, apart, List.map_cons, String.join_cons]
    simp only [String.toList_append, toList_opening, toList_closing, Piece.chars,
      List.append_assoc]

/-- Pieces that begin with a closing brace have it from a text before their first tag. -/
theorem closing_prefix {cs tail : List Char} {t : Tag} {ps : List Piece}
    (h : cs ++ Piece.flatten (.tag t :: ps) = '}' :: tail) : ['}'] <+: cs := by
  cases cs with
  | nil => exact absurd h (Piece.flatten_tag_ne t ps tail)
  | cons c cs =>
    obtain ⟨rfl, -⟩ := List.cons.inj h
    exact ⟨cs, rfl⟩

theorem chainPieces_eq_cons (p : String) (bs : List Branch) :
    ∃ t ps, chainPieces p bs = .tag t :: ps := by
  cases bs with
  | nil => exact ⟨_, _, rfl⟩
  | cons b bs => exact ⟨_, _, rfl⟩

section Sections

variable {options : Options} {p : String} {bs : List Branch}

theorem normal_chainPieces (hvalid : Path.isValid p = true)
    (hjoins : bs.IsChain Joinable) : Piece.Normal (chainPieces p bs) := by
  induction bs with
  | nil => exact ⟨wellFormed_closing hvalid, trivial⟩
  | cons b bs ih =>
    have hrest := ih hjoins.tail
    refine ⟨b.wellFormed_tag hvalid, ?_⟩
    cases bs with
    | nil =>
      exact Piece.normal_concat_tag (Piece.normal_split _) (wellFormed_closing hvalid)
    | cons c bs =>
      refine Piece.normal_insert_tag (Piece.normal_split _) hrest.1 hrest.2 ?_
      intro hopening tail hflatten
      obtain ⟨t, ps, hps⟩ := chainPieces_eq_cons p bs
      rw [Piece.flatten_append, Piece.flatten_split, hps] at hflatten
      rw [Piece.flatten_split] at hopening
      exact (List.isChain_cons_cons.1 hjoins).1 ⟨hopening, closing_prefix hflatten⟩

theorem normal_apartPieces (hvalid : Path.isValid p = true)
    (bs : List Branch) : Piece.Normal (apartPieces p bs) := by
  induction bs with
  | nil => exact trivial
  | cons b bs ih =>
    refine ⟨b.wellFormed_tag hvalid, ?_⟩
    refine Piece.normal_insert_tag (Piece.normal_split _) (wellFormed_closing hvalid) ih ?_
    intro _ tail
    cases bs with
    | nil => exact nofun
    | cons c bs => exact Piece.flatten_tag_ne _ _ tail

/-! ## Reading a chain -/

theorem Fits.reads {b : Branch} (h : b.Fits options p) :
    Tokenizer.Reads options (Piece.split b.body.toList) (b.nodes options) :=
  (Template.parse_eq_ok_iff_reads.1 (Template.parse_eq_ok_iff.2 ⟨h.ok, rfl⟩)).2

theorem Fits.frame_ne {b : Branch} (h : b.Fits options p) :
    ∀ tag ∈ outerTags b.body options, ∀ path,
      tag.kind = .sectionOpen path ∨ tag.kind = .invertedOpen path →
        (⟨false, p⟩ : Frame) ≠ ⟨false, String.ofList path⟩ := by
  intro tag htag path hkind hframe
  obtain rfl : p = String.ofList path := (Frame.mk.inj hframe).2
  have hfresh := h.fresh tag htag
  rw [String.toList_ofList] at hfresh
  exact hkind.elim hfresh.1 hfresh.2

/-- Inside the section the body reads as it does alone. -/
theorem Fits.beneath {b : Branch} (h : b.Fits options p) {scopes : List Scope}
    (hscopes : frames scopes = [⟨false, p⟩]) (offset : Nat) :
    ∃ left, Tokenizer.run options offset scopes (Piece.split b.body.toList) =
      ⟨Node.tokensAll (b.nodes options), [], left⟩ ∧ frames left = [⟨false, p⟩] := by
  have hhead : ∀ tag ∈ outerTags b.body options, ∀ path,
      tag.kind = .sectionOpen path ∨ tag.kind = .invertedOpen path →
        [(⟨false, p⟩ : Frame)].head? ≠ some ⟨false, String.ofList path⟩ := by
    simpa using h.frame_ne
  exact h.reads.beneath hhead hscopes offset

/-- The tag of a branch right inside the section ends what is before it and begins the branch. -/
theorem step_tag (hx : options.expanders = []) (hvalid : Path.isValid p = true)
    (heach : p ≠ "each") {scopes : List Scope} (hscopes : frames scopes = [⟨false, p⟩])
    (b : Branch) (offset : Nat) :
    Tokenizer.step options scopes offset (b.tag p) =
      ⟨scopes, [.sectionClose p, b.opening p], none⟩ := by
  have hin : Tokenizer.inSection scopes p = true := by
    rw [Tokenizer.inSection_iff, hscopes]
    rfl
  rw [Tokenizer.step_of_no_expanders hx]
  obtain ⟨_ | _, body⟩ := b
  · have hkind : (tag p ⟨false, body⟩).kind = .sectionOpen p.toList :=
      Tag.kind_sectionOpen hvalid heach
    simp [hkind, Tokenizer.builtIn, Tokenizer.openSection, hin, opening,
      Tokenizer.pathFault_of_isValid hvalid]
  · have hkind : (tag p ⟨true, body⟩).kind = .invertedOpen p.toList :=
      Tag.kind_invertedOpen hvalid
    simp [hkind, Tokenizer.builtIn, Tokenizer.openSection, hin, opening,
      Tokenizer.pathFault_of_isValid hvalid]

/-- Right inside the section, the rest of a chain ends the branch that has begun and then reads as
    its own branches do apart. -/
theorem run_chainPieces (hx : options.expanders = []) (hvalid : Path.isValid p = true)
    (heach : p ≠ "each") (hbs : ∀ b ∈ bs, b.Fits options p) {scopes : List Scope}
    (hscopes : frames scopes = [⟨false, p⟩]) (offset : Nat) :
    Tokenizer.run options offset scopes (chainPieces p bs) =
      ⟨.sectionClose p :: Node.tokensAll (bs.map (block options p)), [], []⟩ := by
  induction bs generalizing scopes offset with
  | nil =>
    have hplain : (Token.sectionClose p).Plain := ⟨hvalid, heach⟩
    obtain ⟨left, hend, hleft⟩ := @Tokenizer.step_piece options hx scopes [] _ (closing p) rfl
      hplain nofun (by rw [hscopes]; exact Token.follow?_of_closes rfl) offset
    obtain rfl : left = [] := List.map_eq_nil_iff.1 hleft
    simp only [chainPieces, Tokenizer.run, hend]
    rfl
  | cons b bs ih =>
    have hstep := step_tag hx hvalid heach hscopes b offset
    obtain ⟨inner, hbody, hinner⟩ :=
      (hbs b List.mem_cons_self).beneath hscopes (offset + byteSize (b.tag p).chars)
    have hrest := ih (fun c hc => hbs c (List.mem_cons_of_mem b hc)) hinner
    simp only [chainPieces, Tokenizer.run, hstep, Tokenizer.run_append, hbody, hrest,
      List.map_cons, Node.tokensAll, tokens_block]
    simp

/-- A chain reads as its branches, each a block of its own. -/
theorem reads_chainPieces (hx : options.expanders = []) (hvalid : Path.isValid p = true)
    (heach : p ≠ "each") (hbs : ∀ b ∈ bs, b.Fits options p) (hne : bs ≠ []) :
    Tokenizer.Reads options (chainPieces p bs) (bs.map (block options p)) := by
  obtain ⟨b, bs, rfl⟩ := List.exists_cons_of_ne_nil hne
  intro offset
  have hb := hbs b List.mem_cons_self
  obtain ⟨opened, hopen, hopened⟩ := @Tokenizer.step_piece options hx [] _ _ _ b.piece_opening
    (b.plain_opening hvalid heach) (by simp) (Token.follow?_of_opens b.opens?_opening) offset
  obtain ⟨inner, hbody, hinner⟩ := hb.beneath hopened (offset + byteSize (b.tag p).chars)
  have hrest := run_chainPieces hx hvalid heach (fun c hc => hbs c (List.mem_cons_of_mem b hc))
    hinner
  simp only [chainPieces, Tokenizer.run, hopen, Tokenizer.run_append, hbody, hrest,
    List.map_cons, Node.tokensAll, tokens_block]
  simp

theorem reads_apartPieces (hx : options.expanders = []) (hvalid : Path.isValid p = true)
    (heach : p ≠ "each") (hbs : ∀ b ∈ bs, b.Fits options p) :
    Tokenizer.Reads options (apartPieces p bs) (bs.map (block options p)) := by
  induction bs with
  | nil => exact fun _ => rfl
  | cons b bs ih =>
    have hb := hbs b List.mem_cons_self
    obtain ⟨make, hrole, hblock⟩ := b.role_opening (p := p) options
    have hfirst := hb.reads.enclose (f := ⟨false, p⟩) (v := closing p) hx hrole b.opens?_opening
      b.piece_opening (b.plain_opening hvalid heach) rfl ⟨hvalid, heach⟩ hb.frame_ne
    have hrest := ih fun c hc => hbs c (List.mem_cons_of_mem b hc)
    have hall := hfirst.append hrest
    rw [← hblock] at hall
    simpa [apartPieces] using hall

/-! ## Rendering branches -/

/-- Of branches in a row, those are rendered whose sigil fits the value. -/
theorem nodes_blocks (settings : Settings) (bs : List Branch) (c : Chain) :
    Chain.nodes settings (bs.map (block options p)) c =
      Chain.nodes settings ((bs.filter (·.inverted != (c.resolve p).holds)).flatMap
        (nodes options)) (c.resolve p) := by
  induction bs with
  | nil => rfl
  | cons b bs ih =>
    obtain ⟨_ | _, body⟩ := b <;> cases hholds : (c.resolve p).holds <;>
      simp [Chain.nodes, Chain.node, block, hholds, ih, Chain.nodes_append, Writer.skip_andThen]

theorem split_chained (hvalid : Path.isValid p = true)
    (hjoins : bs.IsChain Joinable) : Piece.split (chained p bs).toList = chainPieces p bs := by
  rw [← flatten_chainPieces]
  exact Piece.split_flatten (normal_chainPieces hvalid hjoins)

theorem split_apart (hvalid : Path.isValid p = true) (bs : List Branch) :
    Piece.split (apart p bs).toList = apartPieces p bs := by
  rw [← flatten_apartPieces]
  exact Piece.split_flatten (normal_apartPieces hvalid bs)

/-- Branches in one section are accepted and have the tokens of the same branches each in a section
    of its own, so they are the same template. For every model it renders, in the context of the
    path, the bodies whose sigil fits the value there, and of a section with one branch of either
    kind exactly one. -/
theorem parse_chained (hx : options.expanders = []) (hvalid : Path.isValid p = true)
    (heach : p ≠ "each") (hne : bs ≠ []) (hbs : ∀ b ∈ bs, b.Fits options p)
    (hjoins : bs.IsChain Joinable) :
    tokenize (chained p bs) options = tokenize (apart p bs) options ∧
      Template.parse (chained p bs) options = .ok ⟨bs.map (block options p), options⟩ ∧
      Template.parse (apart p bs) options = .ok ⟨bs.map (block options p), options⟩ ∧
      ∀ model, let c := (Chain.root model).resolve p
        Template.outcome ⟨bs.map (block options p), options⟩ model =
            Chain.nodes options.toSettings
              ((bs.filter (·.inverted != c.holds)).flatMap (nodes options)) c "" ∧
          ∀ a b, bs = [⟨false, a⟩, ⟨true, b⟩] →
            Template.outcome ⟨bs.map (block options p), options⟩ model =
              if c.holds then Chain.nodes options.toSettings (nodes options ⟨false, a⟩) c ""
              else Chain.nodes options.toSettings (nodes options ⟨true, b⟩) c "" := by
  have hchain := reads_chainPieces hx hvalid heach hbs hne
  have hapart := reads_apartPieces hx hvalid heach hbs
  rw [← split_chained hvalid hjoins] at hchain
  rw [← split_apart hvalid] at hapart
  have houtcome : ∀ model, Template.outcome ⟨bs.map (block options p), options⟩ model =
      Chain.nodes options.toSettings
        ((bs.filter (·.inverted != ((Chain.root model).resolve p).holds)).flatMap
          (nodes options)) ((Chain.root model).resolve p) "" := by
    intro model
    rw [Template.outcome_eq, nodes_blocks]
  refine ⟨?_, Template.parse_eq_ok_iff_reads.2 ⟨rfl, hchain⟩,
    Template.parse_eq_ok_iff_reads.2 ⟨rfl, hapart⟩, fun model => ⟨houtcome model, ?_⟩⟩
  · rw [tokenize_of_reads hchain, tokenize_of_reads hapart]
  · rintro a b rfl
    rw [houtcome]
    cases ((Chain.root model).resolve p).holds <;> simp

end Sections

/-- Three branches: a section of another path that itself holds one of `p`, with a single brace at
    the end, then nothing, and then text that begins with a brace. -/
def threeBranches : List Branch :=
  [⟨false, "\x7b\x7b#q\x7d\x7d\x7b\x7b#p\x7d\x7dx\x7b\x7b/p\x7d\x7d\x7b\x7b/q\x7d\x7d\x7b"⟩,
    ⟨true, ""⟩, ⟨true, "\x7dé\x7b\x7b../n\x7d\x7d"⟩]

theorem parse_chained_threeBranches :
    chained "p" threeBranches =
        "\x7b\x7b#p\x7d\x7d\x7b\x7b#q\x7d\x7d\x7b\x7b#p\x7d\x7dx" ++
          "\x7b\x7b/p\x7d\x7d\x7b\x7b/q\x7d\x7d\x7b" ++
          "\x7b\x7b^p\x7d\x7d\x7b\x7b^p\x7d\x7d\x7dé\x7b\x7b../n\x7d\x7d\x7b\x7b/p\x7d\x7d" ∧
      ∃ t, Template.parse (chained "p" threeBranches) {} = .ok t ∧
        Template.parse (apart "p" threeBranches) {} = .ok t ∧
        t.outcome (.map [("p", .map [("q", .map [("p", .bool true)])]), ("n", .int 5)]) =
          ⟨"x\x7b", none⟩ ∧
        t.outcome (.map [("n", .int 5)]) = ⟨"\x7dé5", none⟩ := by
  have hok : ∀ b ∈ threeBranches, (tokenize b.body {}).errors = [] := by decide +kernel
  have hfresh : ∀ b ∈ threeBranches, ∀ tag ∈ outerTags b.body {},
      tag.kind ≠ .sectionOpen "p".toList ∧ tag.kind ≠ .invertedOpen "p".toList := by
    decide +kernel
  obtain ⟨-, hchained, hapart, houtcome⟩ := @parse_chained {} "p" threeBranches rfl
    (by decide +kernel) (by decide) (by decide) (fun b hb => ⟨hok b hb, hfresh b hb⟩)
    (by decide +kernel)
  exact ⟨by decide +kernel, _, hchained, hapart, (houtcome _).1.trans (by decide +kernel),
    (houtcome _).1.trans (by decide +kernel)⟩

end Branch

end Stencil
