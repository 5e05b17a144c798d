import Stencil.Proofs.Legality
/-
  Showing the tokens of an accepted template. The shown text may have more tags than the template
  and other braces, but it is read as the same tokens: `legible_run` carries the open blocks
  along, `replaces_run` the braces.
-/

namespace Stencil

/-! ## Legible tokens of a run -/

theorem Token.Accepted.legible {fs gs : List Frame} {ts : List Token} (h : Accepted fs ts gs)
    (hplain : ∀ t ∈ ts, t.Plain) : Legible fs ts gs := by
  induction h with
  | nil => exact .nil _
  | cons _ hfresh hfollow _ ih =>
    have hrest := ih fun t ht => hplain t (List.mem_cons_of_mem _ ht)
    exact .cons (hplain _ List.mem_cons_self) hfresh hfollow hrest

/-- A sound token is plain, unless it is custom or an empty value. -/
theorem Token.Sound.plain {t : Token} (h : t.Sound)
    (hcustom : ∀ path expander, t ≠ .custom path expander)
    (hvalue : t ≠ .escaped "" ∧ t ≠ .unescaped "") : t.Plain := by
  cases t with
  | content | eachClose => exact trivial
  | escaped path => exact ⟨h, fun hpath => hvalue.1 (by rw [hpath])⟩
  | unescaped path => exact ⟨h, fun hpath => hvalue.2 (by rw [hpath])⟩
  | sectionOpen | invertedOpen | sectionClose | eachOpen => exact h
  | custom path expander => exact absurd rfl (hcustom path expander)

namespace Tokenizer

/-- The tokens of a run without faults are legible, if it leaves no section named `each` open. -/
theorem legible_run {options : Options} (hx : options.expanders = []) (offset : Nat)
    (scopes : List Scope) (ps : List Piece) (hps : Piece.Normal ps)
    (hapart : Apart (frames scopes)) (hfaults : (run options offset scopes ps).faults = [])
    (heach : ⟨false, "each"⟩ ∉ frames (run options offset scopes ps).scopes)
    (hvalue : ∀ t ∈ (run options offset scopes ps).tokens, t ≠ .escaped "" ∧ t ≠ .unescaped "") :
    Token.Legible (frames scopes) (run options offset scopes ps).tokens
      (frames (run options offset scopes ps).scopes) := by
  have haccepted := accepted_run offset scopes ps hps hapart hfaults heach
  refine haccepted.legible fun t ht => (haccepted.sound t ht).plain ?_ (hvalue t ht)
  rintro path expander rfl
  have hmem := expander_mem_run offset scopes ps ht
  rw [hx] at hmem
  exact absurd hmem List.not_mem_nil

/-! ## Braces of a run -/

/-- A tag's tokens are shown as tags. -/
theorem piece_move {scopes : List Scope} {offset : Nat} {e : Effect} (h : Move scopes offset e)
    {t : Token} (ht : t ∈ e.tokens) (hplain : t.Plain) : ∃ u, t.piece = .tag u := by
  have hsection : ∀ {t : Token} {path : String}, t = .sectionOpen path ∨ t = .invertedOpen path →
      ∃ u, t.piece = .tag u := by
    rintro _ path (rfl | rfl) <;> exact ⟨_, rfl⟩
  cases h with
  | custom =>
    obtain rfl := List.mem_singleton.1 ht
    exact hplain.elim
  | comment | openNothing | refuse => simp at ht
  | value hvalue =>
    obtain rfl := List.mem_singleton.1 ht
    rcases hvalue with rfl | rfl <;> exact ⟨_, rfl⟩
  | openEach | closeEach | closeSection =>
    obtain rfl := List.mem_singleton.1 ht
    exact ⟨_, rfl⟩
  | openSection hopen =>
    obtain rfl := List.mem_singleton.1 ht
    exact hsection hopen
  | reopen hopen =>
    rcases List.mem_cons.1 ht with rfl | ht
    · exact ⟨_, rfl⟩
    · obtain rfl := List.mem_singleton.1 ht
      exact hsection hopen

/-- Only a comment has neither a fault nor a token. -/
theorem tokens_ne_nil {scopes : List Scope} {offset : Nat} {kind : Tag.Kind}
    (hkind : kind ≠ .comment) (hfault : (builtIn scopes offset kind).fault = none) :
    (builtIn scopes offset kind).tokens ≠ [] := by
  cases kind <;>
    simp only [builtIn, openEach, closeEach, openSection, closeSection] at hfault ⊢
  case comment => exact absurd rfl hkind
  all_goals first | split at hfault <;> simp_all | simp

/-- A tag of three braces is shown with three braces. -/
theorem tokens_triple (scopes : List Scope) (offset : Nat) {t : Tag} (h : t.triple = true) :
    ∃ path, (builtIn scopes offset t.kind).tokens = [.unescaped path] := by
  simp only [Tag.kind, h, if_true, builtIn]
  exact ⟨_, rfl⟩

/-- Tokens that are all shown as tags are shown as tags that can be read. -/
theorem exists_tags {ts : List Token} (hplain : ∀ t ∈ ts, t.Plain)
    (htags : ∀ t ∈ ts, ∃ u, t.piece = .tag u) :
    ∃ us : List Tag, ts.map Token.piece = us.map .tag ∧ ∀ u ∈ us, u.WellFormed := by
  induction ts with
  | nil => exact ⟨[], rfl, by simp⟩
  | cons t ts ih =>
    obtain ⟨us, hus, hwf⟩ := ih (fun x hx => hplain x (List.mem_cons_of_mem t hx))
      (fun x hx => htags x (List.mem_cons_of_mem t hx))
    obtain ⟨u, hu⟩ := htags t List.mem_cons_self
    refine ⟨u :: us, by simp [hu, hus], fun v hv => ?_⟩
    rcases List.mem_cons.1 hv with rfl | hv
    · exact Token.wellFormed_piece (hplain t List.mem_cons_self) hu
    · exact hwf v hv

/-- A tag without a fault that is no comment is shown as one tag or more. -/
theorem shown_step {options : Options} (hx : options.expanders = []) {scopes : List Scope}
    {offset : Nat} {t : Tag} (hkind : t.kind ≠ .comment)
    (hfault : (step options scopes offset t).fault = none)
    (hplain : ∀ x ∈ (step options scopes offset t).tokens, x.Plain) :
    ∃ u us, (step options scopes offset t).tokens.map Token.piece = (u :: us).map .tag ∧
      (∀ v ∈ u :: us, v.WellFormed) ∧ (t.triple = true → u.triple = true) := by
  obtain ⟨us, hus, hwf⟩ := exists_tags hplain
    (fun x hx => piece_move (move_step options scopes offset t) hx (hplain x hx))
  rw [step_of_no_expanders hx] at hus hfault ⊢
  cases us with
  | nil => exact absurd (List.map_eq_nil_iff.1 hus) (tokens_ne_nil hkind hfault)
  | cons u us =>
    refine ⟨u, us, hus, hwf, fun htriple => ?_⟩
    obtain ⟨path, hpath⟩ := tokens_triple scopes offset htriple
    rw [hpath] at hus
    obtain rfl : (⟨true, path.toList⟩ : Tag) = u := Piece.tag.inj (List.cons.inj hus).1
    rfl

/-- The pieces that a run's tokens are shown as can stand in place of the run's own. -/
theorem replaces_run {options : Options} (hx : options.expanders = []) (offset : Nat)
    (scopes : List Scope) (ps : List Piece) (hps : Piece.Normal ps)
    (hkind : ∀ t, .tag t ∈ ps → t.kind ≠ .comment)
    (hfaults : (run options offset scopes ps).faults = [])
    (hplain : ∀ x ∈ (run options offset scopes ps).tokens, x.Plain) :
    Piece.Replaces ((run options offset scopes ps).tokens.map Token.piece) ps := by
  induction ps generalizing offset scopes with
  | nil => exact .nil
  | cons p ps ih =>
    have hkind' : ∀ t, .tag t ∈ ps → t.kind ≠ .comment :=
      fun t ht => hkind t (List.mem_cons_of_mem p ht)
    cases p with
    | text cs =>
      have hrest := ih _ _ hps.2.2.2 hkind' hfaults
        (fun x hx => hplain x (List.mem_cons_of_mem _ hx))
      have htext := hrest.text hps
      simpa only [run, List.map_cons, Token.piece, String.toList_ofList] using htext
    | tag t =>
      obtain ⟨hfault, hrestFaults⟩ := faults_run_tag_eq_nil.1 hfaults
      have hrest := ih _ _ hps.2 hkind' hrestFaults
        (fun x hx => hplain x (List.mem_append_right _ hx))
      obtain ⟨u, us, hus, hwf, htriple⟩ := shown_step hx (hkind t List.mem_cons_self) hfault
        (fun x hx => hplain x (List.mem_append_left _ hx))
      simp only [run, List.map_append, hus]
      exact hrest.tags hps.1 hwf htriple

end Tokenizer

/-- The tokens of an accepted template without expanders, comments and empty value tags, shown
    one after the other, are read as the same tokens. -/
theorem tokenize_shown (template : String) (options : Options) (hx : options.expanders = [])
    (hok : (tokenize template options).errors = [])
    (hcomment : ∀ t, .tag t ∈ Piece.split template.toList → t.kind ≠ .comment)
    (hvalue : ∀ t ∈ (tokenize template options).tokens, t ≠ .escaped "" ∧ t ≠ .unescaped "") :
    (tokenize (String.join ((tokenize template options).tokens.map Token.display))
        options).errors = [] ∧
      (tokenize (String.join ((tokenize template options).tokens.map Token.display))
        options).tokens = (tokenize template options).tokens := by
  obtain ⟨hfaults, hscopes⟩ := errors_eq_nil_iff.1 hok
  have hlegible : Token.Legible [] (tokenize template options).tokens [] := by
    have hrun := Tokenizer.legible_run hx 0 [] (Piece.split template.toList)
      (Piece.normal_split template.toList) trivial hfaults
      (by rw [← tokenizerRun, hscopes]; simp) hvalue
    rwa [← tokenizerRun, hscopes] at hrun
  have hreplaces := Tokenizer.replaces_run hx 0 [] _ (Piece.normal_split template.toList) hcomment
    hfaults hlegible.plain
  rw [tokenize_join_display hx hlegible hreplaces.normal]
  exact ⟨rfl, rfl⟩

/-- Braces beside tags, padded tags, an ampersand and a section that is begun twice. -/
def strayBraces : String :=
  "\x7b \x7b\x7b a \x7d\x7d\x7d\x7b\x7b# b \x7d\x7d\x7b\x7b&c\x7d\x7d\x7d\x7b\x7b^b\x7d\x7d" ++
    "\x7b\x7b\x7b#each ../d\x7d\x7d\x7b\x7b/ each \x7d\x7d\x7b\x7b/b\x7d\x7d"

theorem tokenize_shown_strayBraces :
    ((tokenize strayBraces {}).errors = [] ∧
      (∀ t, .tag t ∈ Piece.split strayBraces.toList → t.kind ≠ .comment) ∧
      ∀ t ∈ (tokenize strayBraces {}).tokens, t ≠ .escaped "" ∧ t ≠ .unescaped "") ∧
    (tokenize (String.join ((tokenize strayBraces {}).tokens.map Token.display)) {}).tokens =
      [.content "\x7b ", .escaped "a", .content "\x7d", .sectionOpen "b", .unescaped "c",
        .content "\x7d", .sectionClose "b", .invertedOpen "b", .content "\x7b", .eachOpen "../d",
        .eachClose "../d", .sectionClose "b"] := by
  have hok : (tokenize strayBraces {}).errors = [] := by decide +kernel
  have hcomment : ∀ t, .tag t ∈ Piece.split strayBraces.toList → t.kind ≠ .comment := by
    have hall : (Piece.split strayBraces.toList).all (fun p => match p with
        | .tag t => decide (t.kind ≠ .comment)
        | .text _ => true) = true := by decide +kernel
    exact fun t ht => of_decide_eq_true (List.all_eq_true.1 hall _ ht)
  have htokens : (tokenize strayBraces {}).tokens =
      [.content "\x7b ", .escaped "a", .content "\x7d", .sectionOpen "b", .unescaped "c",
        .content "\x7d", .sectionClose "b", .invertedOpen "b", .content "\x7b", .eachOpen "../d",
        .eachClose "../d", .sectionClose "b"] := by with_unfolding_all rfl
  have hvalue : ∀ t ∈ (tokenize strayBraces {}).tokens, t ≠ .escaped "" ∧ t ≠ .unescaped "" := by
    rw [htokens]
    simp
  exact ⟨⟨hok, hcomment, hvalue⟩,
    (tokenize_shown strayBraces {} rfl hok hcomment hvalue).2.trans htokens⟩

end Stencil
