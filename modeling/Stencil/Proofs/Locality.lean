import Stencil.Proofs.Forest
import Stencil.Proofs.Pieces
/-
  The front end is local. A text can be cut in two wherever no tag is cut (`split_append`), a tag
  can be written between two texts (`split_insert_tag`), and the tokenizer looks at no block below
  those that the text itself has opened (`run_beneath`). So pieces that read as a tree do so
  wherever they stand (`Reads`).
-/

namespace Stencil

open Text

/-! ## Sizes -/

namespace Text

theorem utf8ByteSize_eq (s : String) : s.utf8ByteSize = byteSize s.toList := by
  have h : ∀ cs : List Char, (String.ofList cs).utf8ByteSize = byteSize cs := by
    intro cs
    induction cs with
    | nil => rfl
    | cons c cs ih =>
      rw [String.ofList_cons, String.utf8ByteSize_append, String.utf8ByteSize_singleton, ih,
        byteSize_cons]
  rw [← h, String.ofList_toList]

theorem byteSize_pos {cs : List Char} (h : cs ≠ []) : 0 < byteSize cs := by
  obtain ⟨c, cs, rfl⟩ := List.exists_cons_of_ne_nil h
  have := c.utf8Size_pos
  rw [byteSize_cons]
  omega

end Text

/-! ## Cutting a text in two -/

namespace Piece

/-- The byte ranges of the tags among some pieces of which the first starts at byte `offset`. -/
def spans (offset : Nat) : List Piece → List (Nat × Nat)
  | [] => []
  | .text cs :: ps => spans (offset + byteSize cs) ps
  | .tag t :: ps => (offset, offset + byteSize t.chars) :: spans (offset + byteSize t.chars) ps

/-- Pieces at whose place no tag is cut are pieces of both halves, but for a text that the cut
    goes through. -/
theorem exists_cut (ps : List Piece) {offset : Nat} {cs ds : List Char}
    (hflat : flatten ps = cs ++ ds)
    (hspans : ∀ s ∈ spans offset ps,
      ¬(s.1 < offset + byteSize cs ∧ offset + byteSize cs < s.2)) :
    (∃ qs rs, ps = qs ++ rs ∧ flatten qs = cs ∧ flatten rs = ds) ∨
      ∃ qs a b rs, ps = qs ++ .text (a ++ b) :: rs ∧ a ≠ [] ∧ b ≠ [] ∧
        flatten qs ++ a = cs ∧ b ++ flatten rs = ds := by
  induction ps generalizing offset cs with
  | nil =>
    obtain ⟨rfl, rfl⟩ := List.append_eq_nil_iff.1 hflat.symm
    exact .inl ⟨[], [], rfl, rfl, rfl⟩
  | cons p ps ih =>
    rw [flatten_cons] at hflat
    have hrest : ∀ s ∈ spans (offset + byteSize p.chars) ps, s ∈ spans offset (p :: ps) := by
      cases p with
      | text xs => exact fun s hs => hs
      | tag t => exact fun s hs => List.mem_cons_of_mem _ hs
    rcases List.append_eq_append_iff.1 hflat with ⟨x, rfl, hps⟩ | ⟨x, hp, rfl⟩
    · -- the cut is after the first piece
      have hsize : offset + byteSize p.chars + byteSize x =
          offset + byteSize (p.chars ++ x) := by rw [byteSize_append, Nat.add_assoc]
      rcases ih hps (fun s hs => hsize ▸ hspans s (hrest s hs)) with
        ⟨qs, rs, rfl, rfl, rfl⟩ | ⟨qs, a, b, rs, rfl, ha, hb, rfl, rfl⟩
      · exact .inl ⟨p :: qs, rs, rfl, rfl, rfl⟩
      · exact .inr ⟨p :: qs, a, b, rs, rfl, ha, hb, by simp, rfl⟩
    · by_cases hcs : cs = []
      · subst hcs
        exact .inl ⟨[], p :: ps, rfl, rfl, by rw [flatten_cons, hp]; rfl⟩
      by_cases hx : x = []
      · subst hx
        exact .inl ⟨[p], ps, rfl, by simpa using hp, rfl⟩
      -- the cut goes through the first piece, which is then no tag
      cases p with
      | text xs =>
        obtain rfl : xs = cs ++ x := hp
        exact .inr ⟨[], cs, x, ps, rfl, hcs, hx, rfl, rfl⟩
      | tag t =>
        have hleft := byteSize_pos hcs
        have hright := byteSize_pos hx
        have hsize : byteSize t.chars = byteSize cs + byteSize x := by
          rw [← byteSize_append]; exact congrArg byteSize hp
        refine absurd ⟨?_, ?_⟩ (hspans _ List.mem_cons_self)
        · dsimp only
          omega
        · dsimp only
          omega

theorem Normal.of_append_right {ps qs : List Piece} (h : Normal (ps ++ qs)) : Normal qs := by
  induction ps with
  | nil => exact h
  | cons p ps ih =>
    cases p with
    | text cs => exact ih h.2.2.2
    | tag t => exact ih h.2

/-- Normal pieces stay normal if their end is cut off. -/
theorem Normal.cut {ps qs rs : List Piece} (h : Normal (ps ++ qs)) (hrs : Normal rs)
    (hstart : flatten rs <+: flatten qs)
    (hhead : (∀ q ∈ qs.head?, q.isText = false) → ∀ r ∈ rs.head?, r.isText = false) :
    Normal (ps ++ rs) := by
  induction ps with
  | nil => exact hrs
  | cons p ps ih =>
    rw [List.cons_append] at h ⊢
    cases p with
    | tag t => exact ⟨h.1, ih h.2⟩
    | text cs =>
      obtain ⟨hcs, hclear, hnext, hps⟩ := h
      refine ⟨hcs, ?_, ?_, ih hps⟩
      · obtain ⟨more, hmore⟩ := hstart
        refine Clear.of_append more ?_
        rwa [flatten_append, List.append_assoc, hmore, ← flatten_append]
      · cases ps with
        | nil => exact hhead hnext
        | cons p ps => exact hnext

/-- The pieces of a text, where it is cut and no tag is, are those of its two halves, but that a
    text may go through the cut. -/
theorem split_append {cs ds : List Char}
    (h : ∀ s ∈ spans 0 (split (cs ++ ds)), ¬(s.1 < byteSize cs ∧ byteSize cs < s.2)) :
    split (cs ++ ds) = split cs ++ split ds ∨
      ∃ qs a b rs, split cs = qs ++ [.text a] ∧ split ds = .text b :: rs ∧
        split (cs ++ ds) = qs ++ .text (a ++ b) :: rs := by
  have hnormal := normal_split (cs ++ ds)
  have hcut := @exists_cut _ 0 cs ds (flatten_split (cs ++ ds)) (by simpa using h)
  rcases hcut with ⟨qs, rs, heq, rfl, rfl⟩ | ⟨qs, a, b, rs, heq, ha, hb, rfl, rfl⟩
  · rw [heq] at hnormal ⊢
    have hleft : Normal (qs ++ []) := hnormal.cut trivial List.nil_prefix nofun
    rw [List.append_nil] at hleft
    rw [split_flatten hleft, split_flatten hnormal.of_append_right]
    exact .inl rfl
  · rw [heq] at hnormal ⊢
    obtain ⟨-, hclear, hnext, hrs⟩ := hnormal.of_append_right
    obtain ⟨hcleara, hclearb⟩ := clear_append.1 hclear
    have halone : Clear a [] := Clear.of_append (b ++ flatten rs) hcleara
    have hleft : Normal (qs ++ [.text a]) := by
      refine hnormal.cut ⟨ha, halone, nofun, trivial⟩ ?_
        (fun hq => absurd (hq _ rfl) (by simp [isText]))
      exact ⟨b ++ flatten rs, by simp [chars]⟩
    have hright : Normal (.text b :: rs) := ⟨hb, hclearb, hnext, hrs⟩
    have hsplit := split_flatten hleft
    have hsplit' := split_flatten hright
    simp only [flatten_append, flatten_cons, flatten_nil, chars, List.append_nil] at hsplit hsplit'
    exact .inr ⟨qs, a, b, rs, hsplit, hsplit', rfl⟩

/-! ## A tag between two texts -/

theorem clear_insert_tag {cs : List Char} {ps qs : List Piece} {t : Tag} (ht : t.WellFormed)
    (hclear : Clear cs (flatten ps)) (hps : Normal ps) (hnext : ∀ p ∈ ps.head?, p.isText = false)
    (hjoin : ['{'] <:+ cs ++ flatten ps → ∀ tail, flatten qs ≠ '}' :: tail) :
    Clear cs (flatten (ps ++ .tag t :: qs)) := by
  obtain ⟨tcs, htcs⟩ := t.chars_eq_cons
  match ps with
  | [] => exact (clear_tag_iff ht).2 ⟨hclear, fun _ hbrace => hjoin (by simpa using hbrace)⟩
  | .text ds :: ps => exact absurd (hnext _ rfl) (by simp [isText])
  | .tag u :: ps =>
    obtain ⟨hcs, hends⟩ := (clear_tag_iff hps.1).1 hclear
    rw [List.cons_append, flatten_cons]
    refine (clear_tag_iff hps.1).2 ⟨hcs, fun htriple hbrace tail heq => ?_⟩
    rw [flatten_append, flatten_cons, chars, htcs] at heq
    cases hrest : flatten ps with
    | nil => rw [hrest] at heq; simp at heq
    | cons c rest =>
      rw [hrest] at heq
      obtain ⟨rfl, -⟩ := List.cons.inj heq
      exact hends htriple hbrace rest hrest

/-- The braces of a tag between two texts do not run together with them, unless one opens right
    before it and one closes right behind it. -/
theorem normal_insert_tag {ps qs : List Piece} {t : Tag} (hps : Normal ps) (ht : t.WellFormed)
    (hqs : Normal qs) (hjoin : ['{'] <:+ flatten ps → ∀ tail, flatten qs ≠ '}' :: tail) :
    Normal (ps ++ .tag t :: qs) := by
  induction ps with
  | nil => exact ⟨ht, hqs⟩
  | cons p ps ih =>
    have hjoin' : ['{'] <:+ flatten ps → ∀ tail, flatten qs ≠ '}' :: tail :=
      fun hbrace => hjoin (hbrace.trans (List.suffix_append p.chars (flatten ps)))
    rw [List.cons_append]
    cases p with
    | tag u => exact ⟨hps.1, ih hps.2 hjoin'⟩
    | text cs =>
      obtain ⟨hcs, hclear, hnext, hrest⟩ := hps
      refine ⟨hcs, clear_insert_tag ht hclear hrest hnext hjoin, ?_, ih hrest hjoin'⟩
      cases ps with
      | nil => exact fun q hq => by obtain rfl := Option.some.inj hq; rfl
      | cons p ps => exact hnext

theorem split_insert_tag {cs ds : List Char} {t : Tag} (ht : t.WellFormed)
    (hjoin : ['{'] <:+ cs → ∀ tail, ds ≠ '}' :: tail) :
    split (cs ++ (t.chars ++ ds)) = split cs ++ .tag t :: split ds := by
  have hnormal : Normal (split cs ++ .tag t :: split ds) :=
    normal_insert_tag (normal_split cs) ht (normal_split ds) (by simpa only [flatten_split])
  have hsplit := split_flatten hnormal
  rwa [flatten_append, flatten_cons, flatten_split, flatten_split] at hsplit

/-- The braces of a tag behind a text do not run together with it. -/
theorem normal_concat_tag {ps : List Piece} {t : Tag} (hps : Normal ps) (ht : t.WellFormed) :
    Normal (ps ++ [.tag t]) :=
  normal_insert_tag hps ht trivial fun _ _ => (List.cons_ne_nil _ _).symm

end Piece

/-- The byte ranges of the tags of a text. -/
def tagSpans (text : String) : List (Nat × Nat) := Piece.spans 0 (Piece.split text.toList)

/-! ## Runs one after the other -/

namespace Tokenizer

theorem run_append (options : Options) (offset : Nat) (scopes : List Scope) (ps qs : List Piece) :
    let r := run options offset scopes ps
    let s := run options (offset + byteSize (Piece.flatten ps)) r.scopes qs
    run options offset scopes (ps ++ qs) = ⟨r.tokens ++ s.tokens, r.faults ++ s.faults, s.scopes⟩ := by
  induction ps generalizing offset scopes with
  | nil => rfl
  | cons p ps ih =>
    cases p with
    | text cs =>
      simp only [List.cons_append, run, ih, Piece.flatten_cons, Piece.chars, byteSize_append,
        Nat.add_assoc]
    | tag t =>
      simp only [List.cons_append, run, ih, Piece.flatten_cons, Piece.chars, byteSize_append,
        Nat.add_assoc, List.append_assoc]

/-! ## Blocks beneath -/

/-- The second effect is the first one with more blocks open beneath its own. -/
structure Lifts (outer : List Frame) (e lower : Effect) : Prop where
  tokens : lower.tokens = e.tokens
  fault : lower.fault = e.fault
  frames : frames lower.scopes = frames e.scopes ++ outer

section Lifts

variable {outer : List Frame} {scopes lower : List Scope}

theorem inSection_beneath {path : String} (hframes : frames lower = frames scopes ++ outer)
    (hfresh : scopes = [] → outer.head? ≠ some ⟨false, path⟩) :
    inSection lower path = inSection scopes path := by
  rw [Bool.eq_iff_iff, inSection_iff, inSection_iff, hframes]
  cases scopes with
  | nil => simpa using hfresh rfl
  | cons s scopes => simp

theorem openEach_beneath (hframes : frames lower = frames scopes ++ outer) (offset offset' : Nat)
    (path : String) : Lifts outer (openEach scopes offset path) (openEach lower offset' path) := by
  unfold openEach
  split
  · exact ⟨rfl, rfl, by simp [hframes]⟩
  · exact ⟨rfl, rfl, by simp [hframes]⟩

theorem openSection_beneath {path : String} (hframes : frames lower = frames scopes ++ outer)
    (hfresh : scopes = [] → outer.head? ≠ some ⟨false, path⟩) (offset offset' : Nat) (t : Token) :
    Lifts outer (openSection scopes offset path t) (openSection lower offset' path t) := by
  unfold openSection
  rw [inSection_beneath hframes hfresh]
  split
  · exact ⟨rfl, rfl, hframes⟩
  · exact ⟨rfl, rfl, by simp [hframes]⟩

/-- A closing tag that fits finds its block on top, whatever is beneath. -/
theorem closeEach_beneath (hframes : frames lower = frames scopes ++ outer)
    (hok : (closeEach scopes).fault = none) : Lifts outer (closeEach scopes) (closeEach lower) := by
  match scopes, hok with
  | ⟨true, path, offset⟩ :: rest, _ =>
    match lower, hframes with
    | ⟨true, path', offset'⟩ :: lower, hframes =>
      obtain ⟨hpath, hrest⟩ := List.cons.inj hframes
      obtain rfl : path' = path := (Frame.mk.inj hpath).2
      exact ⟨rfl, rfl, hrest⟩

theorem closeSection_beneath {path : String} (hframes : frames lower = frames scopes ++ outer)
    (hok : (closeSection scopes path).fault = none) :
    Lifts outer (closeSection scopes path) (closeSection lower path) := by
  unfold closeSection at hok ⊢
  split at hok
  · next hin =>
    obtain ⟨offset, rest, rfl⟩ := exists_of_inSection hin
    have hin' : inSection lower path = true :=
      (inSection_beneath hframes (fun h => absurd h (by simp))).trans hin
    obtain ⟨offset', lower, rfl⟩ := exists_of_inSection hin'
    rw [if_pos hin, if_pos hin']
    exact ⟨rfl, rfl, (List.cons.inj hframes).2⟩
  · simp at hok

theorem builtIn_beneath {kind : Tag.Kind} {offset : Nat}
    (hframes : frames lower = frames scopes ++ outer)
    (hfresh : scopes = [] → ∀ path, kind = .sectionOpen path ∨ kind = .invertedOpen path →
      outer.head? ≠ some ⟨false, String.ofList path⟩)
    (hok : (builtIn scopes offset kind).fault = none) (offset' : Nat) :
    Lifts outer (builtIn scopes offset kind) (builtIn lower offset' kind) := by
  cases kind with
  | eachOpen path => exact openEach_beneath hframes offset offset' _
  | eachClose => exact closeEach_beneath hframes hok
  | sectionOpen path =>
    exact openSection_beneath hframes (fun h => hfresh h path (.inl rfl)) offset offset' _
  | invertedOpen path =>
    exact openSection_beneath hframes (fun h => hfresh h path (.inr rfl)) offset offset' _
  | sectionClose path => exact closeSection_beneath hframes hok
  | unescaped path => exact ⟨rfl, rfl, hframes⟩
  | comment => exact ⟨rfl, rfl, hframes⟩
  | plain path => exact ⟨rfl, rfl, hframes⟩

theorem step_beneath {options : Options} {t : Tag} {offset : Nat}
    (hframes : frames lower = frames scopes ++ outer)
    (hfresh : scopes = [] → ∀ path, t.kind = .sectionOpen path ∨ t.kind = .invertedOpen path →
      outer.head? ≠ some ⟨false, String.ofList path⟩)
    (hok : (step options scopes offset t).fault = none) (offset' : Nat) :
    Lifts outer (step options scopes offset t) (step options lower offset' t) := by
  unfold step at hok ⊢
  split at hok
  · exact ⟨rfl, rfl, hframes⟩
  · exact builtIn_beneath hframes hfresh hok offset'

end Lifts

/-- The tags among some pieces that stand outside all blocks. -/
def outerTags (options : Options) (offset : Nat) (scopes : List Scope) : List Piece → List Tag
  | [] => []
  | .text cs :: rest => outerTags options (offset + byteSize cs) scopes rest
  | .tag t :: rest =>
    (if scopes = [] then [t] else []) ++
      outerTags options (offset + byteSize t.chars) (step options scopes offset t).scopes rest

/-- A run without faults goes the same way with more blocks open beneath, unless a tag outside its
    own blocks opens the section right beneath once more. -/
theorem run_beneath {options : Options} {outer : List Frame} (ps : List Piece) {offset : Nat}
    {scopes lower : List Scope} (hframes : frames lower = frames scopes ++ outer)
    (hfresh : ∀ t ∈ outerTags options offset scopes ps, ∀ path,
      t.kind = .sectionOpen path ∨ t.kind = .invertedOpen path →
        outer.head? ≠ some ⟨false, String.ofList path⟩)
    (hok : (run options offset scopes ps).faults = []) (offset' : Nat) :
    (run options offset' lower ps).tokens = (run options offset scopes ps).tokens ∧
      (run options offset' lower ps).faults = [] ∧
      frames (run options offset' lower ps).scopes =
        frames (run options offset scopes ps).scopes ++ outer := by
  induction ps generalizing offset offset' scopes lower with
  | nil => exact ⟨rfl, rfl, hframes⟩
  | cons p ps ih =>
    cases p with
    | text cs =>
      obtain ⟨htokens, hfaults, hscopes⟩ := ih hframes hfresh hok (offset' + byteSize cs)
      exact ⟨by simp only [run, htokens], hfaults, hscopes⟩
    | tag t =>
      obtain ⟨hfault, hrest⟩ := faults_run_tag_eq_nil.1 hok
      have hstep := step_beneath hframes
        (fun hempty => hfresh t (by simp [outerTags, hempty])) hfault offset'
      obtain ⟨htokens, hfaults, hscopes⟩ := ih hstep.frames
        (fun u hu => hfresh u (List.mem_append_right _ hu)) hrest (offset' + byteSize t.chars)
      refine ⟨?_, ?_, hscopes⟩
      · simp only [run, hstep.tokens, htokens]
      · simp only [run, hstep.fault, hfault, hfaults]
        rfl

/-! ## Pieces that read as a tree -/

/-- Outside all blocks the pieces read as the nodes, wherever they stand, without a fault. -/
def Reads (options : Options) (ps : List Piece) (ns : List Node) : Prop :=
  ∀ offset, run options offset [] ps = ⟨Node.tokensAll ns, [], []⟩

theorem reads_of_run {options : Options} {ps : List Piece} {offset : Nat}
    (hfaults : (run options offset [] ps).faults = [])
    (hscopes : (run options offset [] ps).scopes = []) : ∃ ns, Reads options ps ns := by
  have hfollow := follow_run options offset [] ps (by simp [hfaults])
  rw [hscopes] at hfollow
  obtain ⟨ns, hns⟩ := Node.exists_tokensAll hfollow
  refine ⟨ns, fun offset' => ?_⟩
  obtain ⟨htokens, hfaults', hscopes'⟩ :=
    @run_beneath options [] ps offset [] [] rfl (by simp) hfaults offset'
  have hempty : (run options offset' [] ps).scopes = [] := by
    rw [hscopes] at hscopes'
    exact List.map_eq_nil_iff.1 hscopes'
  calc run options offset' [] ps
      = ⟨(run options offset' [] ps).tokens, (run options offset' [] ps).faults,
          (run options offset' [] ps).scopes⟩ := rfl
    _ = ⟨Node.tokensAll ns, [], []⟩ := by rw [htokens, hns, hfaults', hempty]

theorem Reads.unique {options : Options} {ps : List Piece} {ms ns : List Node}
    (hm : Reads options ps ms) (hn : Reads options ps ns) : ms = ns := by
  have htokens := congrArg Run.tokens ((hm 0).symm.trans (hn 0))
  rw [← Node.ofTokens_tokensAll ms, ← Node.ofTokens_tokensAll ns]
  exact congrArg Node.ofTokens htokens

theorem Reads.append {options : Options} {ps qs : List Piece} {ms ns : List Node}
    (hm : Reads options ps ms) (hn : Reads options qs ns) :
    Reads options (ps ++ qs) (ms ++ ns) := by
  intro offset
  rw [run_append, hm, hn, Node.tokensAll_append]
  rfl

/-- A text at either end is no part of what the other pieces read as. -/
theorem Reads.init {options : Options} {ps : List Piece} {cs : List Char} {ns : List Node}
    (h : Reads options (ps ++ [.text cs]) ns) : ∃ ms, Reads options ps ms := by
  have hrun := (run_append options 0 [] ps [.text cs]).symm.trans (h 0)
  refine @reads_of_run options ps 0 ?_ (congrArg Run.scopes hrun)
  exact (List.append_eq_nil_iff.1 (congrArg Run.faults hrun)).1

theorem Reads.tail {options : Options} {ps : List Piece} {cs : List Char} {ns : List Node}
    (h : Reads options (.text cs :: ps) ns) : ∃ ms, Reads options ps ms :=
  reads_of_run (congrArg Run.faults (h 0)) (congrArg Run.scopes (h 0))

theorem reads_text (options : Options) (cs : List Char) :
    Reads options [.text cs] [.content (String.ofList cs)] := fun _ => rfl

end Tokenizer

/-- A template is accepted exactly when its pieces read as its tree. -/
theorem Template.parse_eq_ok_iff_reads {text : String} {options : Options} {t : Template} :
    parse text options = .ok t ↔ t.options = options ∧
      Tokenizer.Reads options (Piece.split text.toList) t.nodes := by
  rw [parse_eq_ok_iff_run]
  refine and_congr_right fun _ => ⟨fun hrun => ?_, fun hreads => hreads 0⟩
  obtain ⟨ns, hns⟩ := Tokenizer.reads_of_run (congrArg Tokenizer.Run.faults hrun)
    (congrArg Tokenizer.Run.scopes hrun)
  have htokens : Node.tokensAll ns = Node.tokensAll t.nodes :=
    congrArg Tokenizer.Run.tokens ((hns 0).symm.trans hrun)
  rwa [← Node.ofTokens_tokensAll t.nodes, ← htokens, Node.ofTokens_tokensAll]

/-- A text whose pieces read as some nodes has their tokens and no errors. -/
theorem tokenize_of_reads {text : String} {options : Options} {ns : List Node}
    (h : Tokenizer.Reads options (Piece.split text.toList) ns) :
    tokenize text options = ⟨Node.tokensAll ns, []⟩ := by
  simp only [tokenize, h 0, List.map_nil, List.append_nil]

end Stencil
