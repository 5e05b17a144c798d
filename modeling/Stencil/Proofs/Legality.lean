import Stencil.Proofs.Locality
import Stencil.Proofs.Print
/-
  What an accepted template is sure to be. A run without faults vouches for each of its tokens
  (`Token.Sound`) and for how they are nested (`Token.Accepted`, kept by every move); the tree that
  is written as such tokens is `Node.Legal` at every depth. The expanders are of no consequence:
  whatever tags they claim, the other tags keep to the same rules.
-/

namespace Stencil

/-! ## Open blocks of a run -/

/-- No section stands right inside a section of the same path. -/
def Apart : List Frame → Prop
  | [] => True
  | f :: fs => (f.isEach = false → fs.head? ≠ some f) ∧ Apart fs

namespace Tokenizer

theorem apart_move {scopes : List Scope} {offset : Nat} {e : Effect} (h : Move scopes offset e)
    (hapart : Apart (frames scopes)) : Apart (frames e.scopes) := by
  cases h with
  | custom | comment | value | refuse | reopen => exact hapart
  | openEach | openNothing => exact ⟨nofun, hapart⟩
  | openSection ht hin => exact ⟨fun _ => hin, hapart⟩
  | closeEach hin => subst hin; exact hapart.2
  | closeSection hpath hin => subst hin; exact hapart.2

/-- A section named `each` stays open for good. -/
theorem section_each_move {scopes : List Scope} {offset : Nat} {e : Effect}
    (h : Move scopes offset e) (heach : ⟨false, "each"⟩ ∈ frames scopes) :
    ⟨false, "each"⟩ ∈ frames e.scopes := by
  cases h with
  | custom | comment | value | refuse | reopen => exact heach
  | openEach | openNothing | openSection => exact List.mem_cons_of_mem _ heach
  | closeEach hin =>
    subst hin
    rcases List.mem_cons.1 heach with heq | hmem
    · cases heq
    · exact hmem
  | closeSection hpath hin =>
    subst hin
    rcases List.mem_cons.1 heach with heq | hmem
    · exact absurd (congrArg Frame.path heq).symm hpath
    · exact hmem

theorem section_each_run (options : Options) (offset : Nat) (scopes : List Scope)
    (ps : List Piece) (h : ⟨false, "each"⟩ ∈ frames scopes) :
    ⟨false, "each"⟩ ∈ frames (run options offset scopes ps).scopes := by
  induction ps generalizing offset scopes with
  | nil => exact h
  | cons p ps ih =>
    cases p with
    | text cs => exact ih _ _ h
    | tag t => exact ih _ _ (section_each_move (move_step options scopes offset t) h)

theorem isValid_of_pathFault {path : String} (h : pathFault path = none) :
    Path.isValid path = true := by
  cases hvalid : Path.isValid path with
  | true => rfl
  | false => simp [pathFault, hvalid] at h

end Tokenizer

/-! ## Expanders of a run -/

theorem Options.mem_of_claim? {options : Options} {precedence : Precedence} {tag path : String}
    {e : Expander} (h : options.claim? precedence tag = some (path, e)) :
    e ∈ options.expanders := by
  obtain ⟨f, hf, hexpand⟩ := List.exists_of_findSome?_eq_some h
  obtain ⟨q, -, hpair⟩ := Option.map_eq_some_iff.1 hexpand
  obtain rfl : f = e := (Prod.mk.inj hpair).2
  exact (List.mem_filter.1 hf).1

namespace Tokenizer

theorem mem_of_claim? {options : Options} {t : Tag} {path : String} {e : Expander}
    (h : claim? options t = some (path, e)) : e ∈ options.expanders := by
  unfold claim? at h
  rcases Option.or_eq_some_iff.1 h with h | ⟨-, h⟩
  · exact Options.mem_of_claim? h
  · split at h
    · rcases Option.or_eq_some_iff.1 h with h | ⟨-, h⟩
      · exact Options.mem_of_claim? h
      · exact Options.mem_of_claim? h
    · simp at h

theorem custom_not_mem_builtIn (scopes : List Scope) (offset : Nat) (kind : Tag.Kind)
    (path : String) (expander : Expander) :
    .custom path expander ∉ (builtIn scopes offset kind).tokens := by
  cases kind <;> simp only [builtIn, openEach, closeEach, openSection, closeSection]
  all_goals first | split <;> simp | simp

/-- Custom tokens come from the expanders that the template is read with. -/
theorem expander_mem_run {options : Options} {path : String} {e : Expander} (offset : Nat)
    (scopes : List Scope) (ps : List Piece)
    (h : .custom path e ∈ (run options offset scopes ps).tokens) : e ∈ options.expanders := by
  induction ps generalizing offset scopes with
  | nil => simp [run] at h
  | cons p ps ih =>
    cases p with
    | text cs =>
      rcases List.mem_cons.1 h with heq | h
      · cases heq
      · exact ih _ _ h
    | tag t =>
      rcases List.mem_append.1 h with h | h
      · unfold step at h
        split at h
        · next hclaim =>
          cases List.mem_singleton.1 h
          exact mem_of_claim? hclaim
        · exact absurd h (custom_not_mem_builtIn scopes offset t.kind path e)
      · exact ih _ _ h

end Tokenizer

/-! ## Accepted tokens -/

namespace Token

/-- What a run without faults vouches for in a token. Text has no tag in it that was missed. -/
def Sound : Token → Prop
  | .content text => text ≠ "" ∧ tagSpans text = []
  | .escaped path | .unescaped path => Path.isValid path = true
  | .eachOpen path => Path.isValid path = true ∧ path ≠ ""
  | .sectionOpen path | .invertedOpen path | .sectionClose path =>
    Path.isValid path = true ∧ path ≠ "each"
  | .eachClose _ | .custom _ _ => True

/-- Sound tokens with the open blocks before and after them, where no section is opened right
    inside itself. -/
inductive Accepted : List Frame → List Token → List Frame → Prop where
  | nil (fs : List Frame) : Accepted fs [] fs
  | cons {fs gs hs : List Frame} {t : Token} {ts : List Token} (hsound : t.Sound)
      (hfresh : ∀ f, t.opens? = some f → f.isEach = false → fs.head? ≠ some f)
      (hfollow : follow? fs t = some gs) (hrest : Accepted gs ts hs) : Accepted fs (t :: ts) hs

theorem Accepted.append {fs gs hs : List Frame} {ts us : List Token} (h : Accepted fs ts gs)
    (h' : Accepted gs us hs) : Accepted fs (ts ++ us) hs := by
  induction h with
  | nil => exact h'
  | cons hsound hfresh hfollow _ ih => exact .cons hsound hfresh hfollow (ih h')

/-- A token that opens no block is accepted wherever it fits. -/
theorem Accepted.cons_of_opens_none {fs gs hs : List Frame} {t : Token} {ts : List Token}
    (hsound : t.Sound) (hopens : t.opens? = none) (hfollow : follow? fs t = some gs)
    (hrest : Accepted gs ts hs) : Accepted fs (t :: ts) hs := by
  refine .cons hsound (fun f hf => ?_) hfollow hrest
  rw [hopens] at hf
  exact absurd hf nofun

theorem Accepted.sound {fs gs : List Frame} {ts : List Token} (h : Accepted fs ts gs) :
    ∀ t ∈ ts, t.Sound := by
  induction h with
  | nil => simp
  | cons hsound _ _ _ ih =>
    intro t ht
    rcases List.mem_cons.1 ht with rfl | ht
    · exact hsound
    · exact ih t ht

/-- A section's token, inside any other block than the same section. -/
theorem accepted_section {t : Token} {path : String} {fs : List Frame}
    (ht : t = .sectionOpen path ∨ t = .invertedOpen path) (hvalid : Path.isValid path = true)
    (hpath : path ≠ "each") (hfresh : fs.head? ≠ some ⟨false, path⟩) :
    Accepted fs [t] (⟨false, path⟩ :: fs) := by
  have hopens := opens?_section ht
  have hsound : t.Sound := by
    rcases ht with rfl | rfl <;> exact ⟨hvalid, hpath⟩
  refine .cons hsound (fun f hf _ => ?_) (follow?_of_opens hopens) (.nil _)
  obtain rfl := Option.some.inj (hopens.symm.trans hf)
  exact hfresh

end Token

namespace Tokenizer

open Token (Accepted)

/-- The tokens of a tag without a fault are accepted inside the blocks open before it. -/
theorem accepted_move {scopes : List Scope} {offset : Nat} {e : Effect} (h : Move scopes offset e)
    (hfault : e.fault = none) (hapart : Apart (frames scopes))
    (heach : ⟨false, "each"⟩ ∉ frames e.scopes) :
    Accepted (frames scopes) e.tokens (frames e.scopes) := by
  cases h with
  | custom path expander => exact .cons_of_opens_none trivial rfl rfl (.nil _)
  | comment => exact .nil _
  | value ht =>
    have hvalid := isValid_of_pathFault hfault
    rcases ht with rfl | rfl <;> exact .cons_of_opens_none hvalid rfl rfl (.nil _)
  | openEach hpath =>
    refine .cons ⟨isValid_of_pathFault hfault, hpath⟩ (fun f hf h => ?_) rfl (.nil _)
    obtain rfl := Option.some.inj hf
    simp at h
  | openNothing => simp at hfault
  | @openSection t path ht hin =>
    have hpath : path ≠ "each" := by
      rintro rfl
      exact heach List.mem_cons_self
    exact Token.accepted_section ht (isValid_of_pathFault hfault) hpath hin
  | @reopen t path first outer ht hin =>
    subst hin
    have hvalid := isValid_of_pathFault hfault
    have hpath : path ≠ "each" := by
      rintro rfl
      exact heach List.mem_cons_self
    -- here the section is closed, and the block around it has another path
    have hopen := Token.accepted_section ht hvalid hpath (hapart.1 rfl)
    exact .cons_of_opens_none ⟨hvalid, hpath⟩ rfl (Token.follow?_of_closes rfl) hopen
  | closeEach hin =>
    subst hin
    exact .cons_of_opens_none trivial rfl (Token.follow?_of_closes rfl) (.nil _)
  | closeSection hpath hin =>
    subst hin
    exact .cons_of_opens_none ⟨isValid_of_pathFault hfault, hpath⟩ rfl
      (Token.follow?_of_closes rfl) (.nil _)
  | refuse => simp at hfault

/-- The text between two tags is sound: it is what the scanner has left. -/
theorem sound_content {cs : List Char} {ps : List Piece} (h : Piece.Normal (.text cs :: ps)) :
    (Token.content (String.ofList cs)).Sound := by
  obtain ⟨hcs, hclear, -, -⟩ := h
  have halone : Piece.Normal [.text cs] :=
    ⟨hcs, Piece.Clear.of_append (Piece.flatten ps) hclear, nofun, trivial⟩
  have hsplit : Piece.split cs = [.text cs] := by simpa [Piece.chars] using Piece.split_flatten halone
  refine ⟨fun hempty => hcs ?_, ?_⟩
  · rw [← String.toList_ofList (l := cs), hempty]
    rfl
  · rw [tagSpans, String.toList_ofList, hsplit]
    rfl

/-- The tokens of a run without faults are accepted, if it leaves no section named `each` open. -/
theorem accepted_run {options : Options} (offset : Nat) (scopes : List Scope) (ps : List Piece)
    (hps : Piece.Normal ps) (hapart : Apart (frames scopes))
    (hfaults : (run options offset scopes ps).faults = [])
    (heach : ⟨false, "each"⟩ ∉ frames (run options offset scopes ps).scopes) :
    Accepted (frames scopes) (run options offset scopes ps).tokens
      (frames (run options offset scopes ps).scopes) := by
  induction ps generalizing offset scopes with
  | nil => exact .nil _
  | cons p ps ih =>
    cases p with
    | text cs =>
      have hrest := ih _ _ hps.2.2.2 hapart hfaults heach
      exact .cons_of_opens_none (sound_content hps) rfl rfl hrest
    | tag t =>
      have hmove := move_step options scopes offset t
      obtain ⟨hfault, hrestFaults⟩ := faults_run_tag_eq_nil.1 hfaults
      have htag := accepted_move hmove hfault hapart
        (fun h => heach (section_each_run options _ _ ps h))
      exact htag.append (ih _ _ hps.2 (apart_move hmove hapart) hrestFaults heach)

end Tokenizer

/-! ## Legal trees -/

namespace Node

open Token (Accepted)

mutual

/-- What every accepted template guarantees of a node and of all the nodes inside it. -/
def Legal : Node → Prop
  | .content text => text ≠ "" ∧ tagSpans text = []
  | .value path _ => Path.isValid path = true
  | .conditional path body | .inverted path body =>
    Path.isValid path = true ∧ path ≠ "each" ∧ (∀ n ∈ body, n.sectionPath? ≠ some path) ∧
      LegalAll body
  | .each path body => Path.isValid path = true ∧ path ≠ "" ∧ LegalAll body
  | .custom _ _ => True

def LegalAll : List Node → Prop
  | [] => True
  | n :: ns => n.Legal ∧ LegalAll ns

end

theorem legalAll_iff {ns : List Node} : LegalAll ns ↔ ∀ n ∈ ns, n.Legal := by
  induction ns with
  | nil => simp [LegalAll]
  | cons n ns ih => rw [LegalAll, ih, List.forall_mem_cons]

/-- A legal node that can stand inside some blocks: it opens no section right inside itself. -/
structure Fits (fs : List Frame) (n : Node) : Prop where
  legal : n.Legal
  fresh : ∀ path, n.sectionPath? = some path → fs.head? ≠ some ⟨false, path⟩

theorem fits_section {fs : List Frame} {path : String} {body : List Node} {n : Node}
    (hn : n = .conditional path body ∨ n = .inverted path body)
    (hpath : Path.isValid path = true ∧ path ≠ "each") (hfresh : fs.head? ≠ some ⟨false, path⟩)
    (hbody : ∀ m ∈ body, Fits (⟨false, path⟩ :: fs) m) : Fits fs n := by
  have hinner : ∀ m ∈ body, m.sectionPath? ≠ some path :=
    fun m hm heq => (hbody m hm).fresh path heq rfl
  have hall : LegalAll body := legalAll_iff.2 fun m hm => (hbody m hm).legal
  rcases hn with rfl | rfl
  all_goals
    refine ⟨⟨hpath.1, hpath.2, hinner, hall⟩, fun p hp => ?_⟩
    obtain rfl := Option.some.inj hp
    exact hfresh

/-! ## From accepted tokens to a legal tree -/

theorem accepted_leaf {t : Token} {fs gs : List Frame} {rest : List Token}
    (hopens : t.opens? = none) (hcloses : t.closes? = none)
    (h : Accepted fs ([t] ++ rest) gs) : t.Sound ∧ Accepted fs rest gs := by
  cases h with
  | cons hsound _ hfollow hrest =>
    rw [Token.follow?_of_leaf hopens hcloses] at hfollow
    obtain rfl := Option.some.inj hfollow
    exact ⟨hsound, hrest⟩

/-- A block's tokens: the one that opens it, and inside the block its body and the one that closes
    it, with the rest behind. -/
theorem accepted_block {t : Token} {f : Frame} {fs gs : List Frame} {body : List Node}
    {rest : List Token} (hopens : t.opens? = some f)
    (h : Accepted fs (t :: (tokensAll body ++ [f.close]) ++ rest) gs) :
    t.Sound ∧ (f.isEach = false → fs.head? ≠ some f) ∧
      Accepted (f :: fs) (tokensAll body ++ (f.close :: rest)) gs := by
  rw [List.cons_append, List.append_assoc, List.singleton_append] at h
  cases h with
  | cons hsound hfresh hfollow hrest =>
    rw [Token.follow?_of_opens hopens] at hfollow
    obtain rfl := Option.some.inj hfollow
    exact ⟨hsound, hfresh f hopens, hrest⟩

theorem accepted_close {f : Frame} {fs gs : List Frame} {rest : List Token}
    (h : Accepted (f :: fs) (f.close :: rest) gs) : Accepted fs rest gs := by
  cases h with
  | cons _ _ hfollow hrest =>
    rw [Token.follow?_of_closes f.closes?_close] at hfollow
    obtain rfl := Option.some.inj hfollow
    exact hrest

mutual

/-- A node whose tokens are accepted in some blocks fits there, and so are the tokens behind it. -/
theorem fits_of_accepted (n : Node) {fs gs : List Frame} {rest : List Token}
    (h : Accepted fs (n.tokens ++ rest) gs) : Fits fs n ∧ Accepted fs rest gs := by
  match n with
  | .content text =>
    obtain ⟨hsound, hrest⟩ := accepted_leaf rfl rfl h
    exact ⟨⟨hsound, nofun⟩, hrest⟩
  | .value path true =>
    obtain ⟨hsound, hrest⟩ := @accepted_leaf (.escaped path) _ _ _ rfl rfl h
    exact ⟨⟨hsound, nofun⟩, hrest⟩
  | .value path false =>
    obtain ⟨hsound, hrest⟩ := @accepted_leaf (.unescaped path) _ _ _ rfl rfl h
    exact ⟨⟨hsound, nofun⟩, hrest⟩
  | .custom path expander =>
    obtain ⟨-, hrest⟩ := accepted_leaf rfl rfl h
    exact ⟨⟨trivial, nofun⟩, hrest⟩
  | .conditional path body =>
    obtain ⟨hsound, hfresh, hinner⟩ :=
      @accepted_block (.sectionOpen path) ⟨false, path⟩ _ _ _ _ rfl h
    obtain ⟨hbody, hclose⟩ := fitsAll_of_accepted body hinner
    exact ⟨fits_section (.inl rfl) hsound (hfresh rfl) hbody, accepted_close hclose⟩
  | .inverted path body =>
    obtain ⟨hsound, hfresh, hinner⟩ :=
      @accepted_block (.invertedOpen path) ⟨false, path⟩ _ _ _ _ rfl h
    obtain ⟨hbody, hclose⟩ := fitsAll_of_accepted body hinner
    exact ⟨fits_section (.inr rfl) hsound (hfresh rfl) hbody, accepted_close hclose⟩
  | .each path body =>
    obtain ⟨hsound, -, hinner⟩ := @accepted_block (.eachOpen path) ⟨true, path⟩ _ _ _ _ rfl h
    obtain ⟨hbody, hclose⟩ := fitsAll_of_accepted body hinner
    have hall : LegalAll body := legalAll_iff.2 fun m hm => (hbody m hm).legal
    exact ⟨⟨⟨hsound.1, hsound.2, hall⟩, nofun⟩, accepted_close hclose⟩

theorem fitsAll_of_accepted (ns : List Node) {fs gs : List Frame} {rest : List Token}
    (h : Accepted fs (tokensAll ns ++ rest) gs) :
    (∀ n ∈ ns, Fits fs n) ∧ Accepted fs rest gs := by
  match ns with
  | [] => exact ⟨by simp, h⟩
  | n :: ns =>
    rw [tokensAll, List.append_assoc] at h
    obtain ⟨hn, hns⟩ := fits_of_accepted n h
    obtain ⟨hall, hrest⟩ := fitsAll_of_accepted ns hns
    exact ⟨List.forall_mem_cons.2 ⟨hn, hall⟩, hrest⟩

end

end Node

namespace Template

/-- The tokens of an accepted template are accepted. -/
theorem accepted_parse {text : String} {options : Options} {t : Template}
    (h : parse text options = .ok t) : Token.Accepted [] (Node.tokensAll t.nodes) [] := by
  obtain ⟨-, hrun⟩ := parse_eq_ok_iff_run.1 h
  rw [tokenizerRun] at hrun
  have haccepted := @Tokenizer.accepted_run options 0 [] _ (Piece.normal_split text.toList) trivial
    (by rw [hrun]) (by rw [hrun]; simp)
  rwa [hrun] at haccepted

/-- Every tree that comes from a text is legal, whatever expanders it was read with. -/
theorem legal_parse {text : String} {options : Options} {t : Template}
    (h : parse text options = .ok t) : Node.LegalAll t.nodes := by
  have haccepted := accepted_parse h
  rw [← List.append_nil (Node.tokensAll t.nodes)] at haccepted
  exact Node.legalAll_iff.2 fun n hn => ((Node.fitsAll_of_accepted t.nodes haccepted).1 n hn).legal

/-- Takes one tag, which without it would close a block that is not open. -/
def claimsClose : Expander where
  id := 0
  name := "Close"
  precedence := .high
  expand tag := if tag = "\x7b\x7b/c\x7d\x7d" then some "../" else none
  render _ _ := .finish

/-- A section that is begun twice inside an `each` block, with a tag that the expander takes. -/
def claimed : String :=
  "\x7b\x7b#each a\x7d\x7d\x7b\x7b#b\x7d\x7dx\x7b\x7b/c\x7d\x7d" ++
    "\x7b\x7b^b\x7d\x7d\x7b\x7b\x7b\x7b.\x7d\x7d\x7b\x7b/b\x7d\x7d\x7b\x7b/each\x7d\x7d"

theorem legal_parse_claimed :
    ∃ t, parse claimed { expanders := [claimsClose] } = .ok t ∧
      t.nodes = [.each "a" [.conditional "b" [.content "x", .custom "../" claimsClose],
        .inverted "b" [.content "\x7b\x7b", .value "." true]]] ∧ Node.LegalAll t.nodes := by
  have hok : (tokenize claimed { expanders := [claimsClose] }).errors = [] := by decide +kernel
  have h := parse_eq_ok_iff.2 ⟨hok, rfl⟩
  exact ⟨_, h, by with_unfolding_all rfl, legal_parse h⟩

end Template

end Stencil
