import Stencil.Proofs.Print
import Stencil.Proofs.Redisplay
import Stencil.Proofs.Locality
/-
  Templates with blocks left open. The tree builder closes every block where the tokens end, and
  the tokenizer reports the blocks that are open there; `parse_closed` says that both mean the
  same: a text that lacks nothing but closing tags, with those tags written behind it in the order
  of the report, is accepted and has the tree that was built without them.
-/

namespace Stencil

open Text

/-! ## Closing tokens at the end -/

namespace Node

/-- Closing tokens behind some tokens change no node, and those that close nothing are left. -/
theorem built_append_closes (nested : Bool) (ts : List Token) {cs : List Token}
    (hcs : ∀ t ∈ cs, role t = .closes) :
    ∃ ds, ds <:+ cs ∧
      built nested (ts ++ cs) = ((built nested ts).1, (built nested ts).2 ++ ds) := by
  induction nested, ts using build.induct generalizing cs with
  | case1 nested =>
    rw [List.nil_append, built_nil]
    cases nested with
    | false =>
      refine ⟨[], List.nil_suffix, ?_⟩
      induction cs with
      | nil => exact built_nil false
      | cons c cs ih =>
        rw [built_skips (hcs c List.mem_cons_self)]
        exact ih (fun t ht => hcs t (List.mem_cons_of_mem c ht))
    | true =>
      cases cs with
      | nil => exact ⟨[], List.nil_suffix, built_nil true⟩
      | cons c cs => exact ⟨cs, List.suffix_cons c cs, built_closes (hcs c List.mem_cons_self) cs⟩
  | case2 nested t ts node hrole ih =>
    obtain ⟨ds, hds, heq⟩ := ih hcs
    exact ⟨ds, hds, by rw [List.cons_append, built_leaf hrole, built_leaf hrole, heq]⟩
  | case3 nested t ts block hrole _ ihbody ihrest =>
    -- what the body leaves of the closing tokens comes after the rest of the block
    obtain ⟨ds, hds, hbody⟩ := ihbody hcs
    obtain ⟨es, hes, hrest⟩ := ihrest (fun t ht => hcs t (hds.subset ht))
    refine ⟨es, hes.trans hds, ?_⟩
    rw [List.cons_append, built_opens hrole, built_opens hrole, hbody]
    exact congrArg (fun r => (block (built true ts).1 :: r.1, r.2)) hrest
  | case4 t ts hrole =>
    exact ⟨cs, List.suffix_rfl, by rw [List.cons_append, built_closes hrole, built_closes hrole]⟩
  | case5 nested t ts hrole hnested ih =>
    obtain rfl : nested = false := by simpa using hnested
    obtain ⟨ds, hds, heq⟩ := ih hcs
    exact ⟨ds, hds, by rw [List.cons_append, built_skips hrole, built_skips hrole, heq]⟩

/-- The end of the tokens closes every block: closing tokens there add nothing. -/
theorem ofTokens_append_closes (ts : List Token) {cs : List Token}
    (hcs : ∀ t ∈ cs, role t = .closes) : ofTokens (ts ++ cs) = ofTokens ts := by
  obtain ⟨ds, -, heq⟩ := built_append_closes false ts hcs
  exact congrArg Prod.fst heq

end Node

/-! ## Blocks left open -/

/-- The tag opens the block. -/
def Tag.Opens (t : Tag) (s : Scope) : Prop :=
  if s.isEach then t.kind = .eachOpen s.path.toList
  else t.kind = .sectionOpen s.path.toList ∨ t.kind = .invertedOpen s.path.toList

namespace Tokenizer

/-- A block that is open after a tag was open before it, or this tag has opened it. -/
theorem opened_step (options : Options) (scopes : List Scope) (offset : Nat) (t : Tag) :
    ∀ s ∈ (step options scopes offset t).scopes, s ∈ scopes ∨ s.offset = offset ∧ t.Opens s := by
  have hsection : ∀ path token, t.kind = .sectionOpen path ∨ t.kind = .invertedOpen path →
      ∀ s ∈ (openSection scopes offset (String.ofList path) token).scopes,
        s ∈ scopes ∨ s.offset = offset ∧ t.Opens s := by
    intro path token hkind s hs
    unfold openSection at hs
    split at hs
    · exact .inl hs
    · rcases List.mem_cons.1 hs with rfl | hs
      · exact .inr ⟨rfl, by simpa [Tag.Opens, String.toList_ofList] using hkind⟩
      · exact .inl hs
  intro s hs
  unfold step at hs
  split at hs
  · exact .inl hs
  · cases hkind : t.kind with
    | eachOpen path =>
      rw [hkind] at hs
      simp only [builtIn, openEach] at hs
      have hcons : s ∈ (⟨true, String.ofList path, offset⟩ : Scope) :: scopes := by
        split at hs <;> exact hs
      rcases List.mem_cons.1 hcons with rfl | hmem
      · exact .inr ⟨rfl, by simpa [Tag.Opens, String.toList_ofList] using hkind⟩
      · exact .inl hmem
    | sectionOpen path =>
      rw [hkind] at hs
      exact hsection path _ (.inl hkind) s hs
    | invertedOpen path =>
      rw [hkind] at hs
      exact hsection path _ (.inr hkind) s hs
    | eachClose =>
      rw [hkind] at hs
      simp only [builtIn, closeEach] at hs
      split at hs
      · exact .inl (List.mem_cons_of_mem _ hs)
      · exact .inl hs
    | sectionClose path =>
      rw [hkind] at hs
      simp only [builtIn, closeSection] at hs
      split at hs
      · exact .inl (List.mem_of_mem_tail hs)
      · exact .inl hs
    | unescaped path | comment | plain path =>
      rw [hkind] at hs
      exact .inl hs

/-- A block that is open after some pieces was open before them, or a tag among them has opened
    it at the place that the block remembers. -/
theorem opened_run (options : Options) (offset : Nat) (scopes : List Scope) (ps : List Piece) :
    ∀ s ∈ (run options offset scopes ps).scopes, s ∈ scopes ∨
      ∃ before t after, ps = before ++ .tag t :: after ∧
        s.offset = offset + byteSize (Piece.flatten before) ∧ t.Opens s := by
  induction ps generalizing offset scopes with
  | nil => exact fun s hs => .inl hs
  | cons p ps ih =>
    intro s hs
    cases p with
    | text cs =>
      rcases ih _ _ s hs with hs | ⟨before, t, after, rfl, hoffset, hopens⟩
      · exact .inl hs
      · refine .inr ⟨.text cs :: before, t, after, rfl, ?_, hopens⟩
        rw [hoffset, Piece.flatten_cons, byteSize_append, Piece.chars, Nat.add_assoc]
    | tag u =>
      rcases ih _ _ s hs with hs | ⟨before, t, after, rfl, hoffset, hopens⟩
      · rcases opened_step options scopes offset u s hs with hs | ⟨hoffset, hopens⟩
        · exact .inl hs
        · exact .inr ⟨[], u, ps, rfl, by simpa using hoffset, hopens⟩
      · refine .inr ⟨.tag u :: before, t, after, rfl, ?_, hopens⟩
        rw [hoffset, Piece.flatten_cons, byteSize_append, Piece.chars, Nat.add_assoc]

theorem isValid_move {scopes : List Scope} {offset : Nat} {e : Effect} (h : Move scopes offset e)
    (hfault : e.fault = none) (hvalid : ∀ s ∈ scopes, Path.isValid s.path = true) :
    ∀ s ∈ e.scopes, Path.isValid s.path = true := by
  have hpush : ∀ {isEach path}, pathFault path = none →
      ∀ s ∈ (⟨isEach, path, offset⟩ : Scope) :: scopes, Path.isValid s.path = true := by
    intro isEach path hpath s hs
    rcases List.mem_cons.1 hs with rfl | hs
    · exact isValid_of_pathFault hpath
    · exact hvalid s hs
  cases h with
  | custom | comment | value | refuse | reopen => exact hvalid
  | openEach => exact hpush hfault
  | openSection => exact hpush hfault
  | openNothing => simp at hfault
  | closeEach hin => subst hin; exact fun s hs => hvalid s (List.mem_cons_of_mem _ hs)
  | closeSection hpath hin => subst hin; exact fun s hs => hvalid s (List.mem_cons_of_mem _ hs)

/-- The blocks that a run without faults leaves open have valid paths. -/
theorem isValid_run {options : Options} {offset : Nat} {scopes : List Scope} (ps : List Piece)
    (hfaults : (run options offset scopes ps).faults = [])
    (hvalid : ∀ s ∈ scopes, Path.isValid s.path = true) :
    ∀ s ∈ (run options offset scopes ps).scopes, Path.isValid s.path = true := by
  induction ps generalizing offset scopes with
  | nil => exact hvalid
  | cons p ps ih =>
    cases p with
    | text cs => exact ih hfaults hvalid
    | tag t =>
      obtain ⟨hfault, hrest⟩ := faults_run_tag_eq_nil.1 hfaults
      exact ih hrest (isValid_move (move_step options scopes offset t) hfault hvalid)

end Tokenizer

/-! ## Writing the closing tags -/

/-- The closing tags of some open blocks, one after the other, end them all. -/
theorem legible_closes {fs : List Frame} (h : ∀ f ∈ fs, f.close.Plain) :
    Token.Legible fs (fs.map Frame.close) [] := by
  induction fs with
  | nil => exact .nil []
  | cons f fs ih =>
    have hrest := ih fun g hg => h g (List.mem_cons_of_mem f hg)
    exact .close (h f List.mem_cons_self) hrest

theorem Piece.normal_append_tags {ps : List Piece} {us : List Tag} (hps : Normal ps)
    (hus : ∀ u ∈ us, u.WellFormed) : Normal (ps ++ us.map .tag) := by
  induction us generalizing ps with
  | nil => rwa [List.map_nil, List.append_nil]
  | cons u us ih =>
    have hfirst := normal_concat_tag hps (hus u List.mem_cons_self)
    have hall := ih hfirst fun v hv => hus v (List.mem_cons_of_mem u hv)
    rwa [List.append_assoc] at hall

/-- Tags that are written behind a text are read there, whatever the text ends in. -/
theorem split_append_display (text : String) {ts : List Token} (hplain : ∀ t ∈ ts, t.Plain)
    (htags : ∀ t ∈ ts, ∃ u, t.piece = .tag u) :
    Piece.split (text ++ String.join (ts.map Token.display)).toList =
      Piece.split text.toList ++ ts.map Token.piece := by
  obtain ⟨us, hus, hwf⟩ := Tokenizer.exists_tags hplain htags
  have hnormal := Piece.normal_append_tags (Piece.normal_split text.toList) hwf
  rw [hus, ← Piece.split_flatten hnormal, Piece.flatten_append, Piece.flatten_split, ← hus,
    String.toList_append, Token.toList_join_display]

/-! ## The repaired template -/

/-- The tag that closes a block, as it is written. -/
def Scope.closingTag (s : Scope) : String :=
  if s.isEach then "\x7b\x7b/each\x7d\x7d" else "\x7b\x7b/" ++ s.path ++ "\x7d\x7d"

theorem Scope.closingTag_eq_display (s : Scope) : s.closingTag = s.frame.close.display := by
  obtain ⟨_ | _, path, offset⟩ := s <;> rfl

/-- The blocks that a text leaves open, innermost first. -/
def unclosed (text : String) (options : Options) : List Scope := (tokenizerRun text options).scopes

/-- The report of a block that is never closed. -/
def Scope.report (text : String) (options : Options) (s : Scope) : ParseError :=
  ⟨options.sourceName, (LineTable.ofText text).place s.offset, .unclosedBlock s.path⟩

/-- The report of a fault at a byte offset. -/
def reportAt (text : String) (options : Options) (offset : Nat) (fault : Fault) : ParseError :=
  ⟨options.sourceName, (LineTable.ofText text).place offset, fault⟩

/-- Reports of faults come first, and then those of blocks left open. -/
theorem tokenize_eq (text : String) (options : Options) :
    tokenize text options = ⟨(tokenizerRun text options).tokens,
      (tokenizerRun text options).faults.map (fun f => reportAt text options f.1 f.2) ++
        (unclosed text options).map (Scope.report text options)⟩ := by
  simp only [tokenize, unclosed, tokenizerRun, List.map_append, List.map_map]
  rfl

/-- If there is nothing but unclosed blocks to report, no tag is at fault. -/
theorem faults_eq_nil_of_unclosed {text : String} {options : Options}
    (h : ∀ e ∈ (tokenize text options).errors, ∃ path, e.fault = .unclosedBlock path) :
    (tokenizerRun text options).faults = [] := by
  rw [List.eq_nil_iff_forall_not_mem]
  intro f hf
  have hmem : f.2 ∈ (tokenize text options).errors.map (·.fault) := by
    rw [faults_tokenize]
    exact List.mem_append_left _ (List.mem_map_of_mem hf)
  obtain ⟨e, he, hfault⟩ := List.mem_map.1 hmem
  obtain ⟨path, hpath⟩ := h e he
  have hnone := Tokenizer.unclosed?_run options 0 [] _ f hf
  rw [← hfault, hpath] at hnone
  exact absurd hnone (by simp [Fault.unclosed?])

theorem errors_eq_reports {text : String} {options : Options}
    (h : (tokenizerRun text options).faults = []) :
    (tokenize text options).errors = (unclosed text options).map (Scope.report text options) := by
  rw [tokenize_eq, h, List.map_nil, List.nil_append]

/-- The closing tags of the blocks left open, innermost first. -/
def closingTags (text : String) (options : Options) : String :=
  String.join ((unclosed text options).map Scope.closingTag)

/-- Behind the text, the closing tags of its open blocks are read as what they are, and nothing is
    open after them. -/
theorem run_closed {text : String} {options : Options} (hx : options.expanders = [])
    (hfaults : (tokenizerRun text options).faults = [])
    (hplain : ∀ s ∈ unclosed text options, s.frame.close.Plain) :
    tokenizerRun (text ++ closingTags text options) options =
      ⟨(tokenizerRun text options).tokens ++ (frames (unclosed text options)).map Frame.close,
        [], []⟩ := by
  have hlegible : Token.Legible (frames (unclosed text options))
      ((frames (unclosed text options)).map Frame.close) [] := by
    refine legible_closes fun f hf => ?_
    obtain ⟨s, hs, rfl⟩ := List.mem_map.1 hf
    exact hplain s hs
  have hshown : (unclosed text options).map Scope.closingTag =
      ((frames (unclosed text options)).map Frame.close).map Token.display := by
    simp only [frames, List.map_map]
    exact List.map_congr_left fun s _ => s.closingTag_eq_display
  have htags : ∀ t ∈ (frames (unclosed text options)).map Frame.close, ∃ u, t.piece = .tag u := by
    intro t ht
    obtain ⟨f, -, rfl⟩ := List.mem_map.1 ht
    exact Node.piece_close f
  obtain ⟨left, hends, hleft⟩ := Tokenizer.run_pieces hx hlegible
    (0 + byteSize (Piece.flatten (Piece.split text.toList)))
  obtain rfl : left = [] := List.map_eq_nil_iff.1 hleft
  rw [tokenizerRun, closingTags, hshown, split_append_display text hlegible.plain htags,
    Tokenizer.run_append, ← tokenizerRun, ← unclosed, hends, hfaults]
  rfl

namespace Template

/-- A text whose only errors are blocks left open, with the closing tag of each behind it in the
    order of the report, is accepted, and its tree is the one that the tokens of the text alone
    are built into. A section named `each` is left out, since no tag closes it. -/
theorem parse_closed {text : String} {options : Options} (hx : options.expanders = [])
    (honly : ∀ e ∈ (tokenize text options).errors, ∃ path, e.fault = .unclosedBlock path)
    (heach : ∀ s ∈ unclosed text options, s.isEach = false → s.path ≠ "each") :
    (tokenize text options).errors = (unclosed text options).map (Scope.report text options) ∧
      (∀ s ∈ unclosed text options, ∃ before t after,
        Piece.split text.toList = before ++ .tag t :: after ∧
          s.offset = byteSize (Piece.flatten before) ∧ t.Opens s) ∧
      (tokenize (text ++ closingTags text options) options).errors = [] ∧
      parse (text ++ closingTags text options) options =
        .ok ⟨Node.ofTokens (tokenize text options).tokens, options⟩ := by
  have hfaults := faults_eq_nil_of_unclosed honly
  have hplain : ∀ s ∈ unclosed text options, s.frame.close.Plain := by
    intro s hs
    have hvalid := Tokenizer.isValid_run _ hfaults (by simp) s hs
    apply Node.plain_close
    cases hkind : s.isEach with
    | true => exact .inl hkind
    | false => exact .inr ⟨hvalid, heach s hs hkind⟩
  have hrun := run_closed hx hfaults hplain
  have hok := errors_eq_nil_iff.2 ⟨congrArg Tokenizer.Run.faults hrun,
    congrArg Tokenizer.Run.scopes hrun⟩
  refine ⟨errors_eq_reports hfaults, fun s hs => ?_, hok, parse_eq_ok_iff.2 ⟨hok, ?_⟩⟩
  · rcases Tokenizer.opened_run options 0 [] _ s hs with hs | hs
    · exact absurd hs List.not_mem_nil
    · simpa using hs
  · have hcloses : ∀ t ∈ (frames (unclosed text options)).map Frame.close,
        Node.role t = .closes := by
      intro t ht
      obtain ⟨f, -, rfl⟩ := List.mem_map.1 ht
      exact Node.role_close f
    have htokens : (tokenize (text ++ closingTags text options) options).tokens =
        (tokenize text options).tokens ++ (frames (unclosed text options)).map Frame.close :=
      congrArg Tokenizer.Run.tokens hrun
    rw [htokens, Node.ofTokens_append_closes _ hcloses]

/-- A loop and a section that are left open, and a tag that breaks off. -/
def breaksOff : String :=
  "\x7b\x7b#each a\x7d\x7dx\x7b\x7b^b\x7d\x7d\x7b\x7bc\x7d\x7d \x7b\x7bd\x7d\x7b"

theorem parse_closed_breaksOff :
    closingTags breaksOff {} = "\x7b\x7b/b\x7d\x7d\x7b\x7b/each\x7d\x7d" ∧
      parse (breaksOff ++ "\x7b\x7b/b\x7d\x7d\x7b\x7b/each\x7d\x7d") {} = .ok ⟨[.each "a"
        [.content "x", .inverted "b" [.value "c" true, .content " \x7b\x7bd\x7d\x7b"]]], {}⟩ := by
  have hclosing : closingTags breaksOff {} = "\x7b\x7b/b\x7d\x7d\x7b\x7b/each\x7d\x7d" := by
    decide +kernel
  have hfaults : (tokenize breaksOff {}).errors.map (·.fault) =
      [.unclosedBlock "b", .unclosedBlock "a"] := by decide +kernel
  have honly : ∀ e ∈ (tokenize breaksOff {}).errors, ∃ path, e.fault = .unclosedBlock path := by
    intro e he
    have hmem := List.mem_map_of_mem (f := fun e : ParseError => e.fault) he
    rw [hfaults] at hmem
    simp only [List.mem_cons, List.not_mem_nil, or_false] at hmem
    rcases hmem with h | h
    · exact ⟨_, h⟩
    · exact ⟨_, h⟩
  obtain ⟨-, -, -, hparse⟩ := @parse_closed breaksOff {} rfl honly (by decide +kernel)
  have hnodes : Node.ofTokens (tokenize breaksOff {}).tokens = [.each "a"
      [.content "x", .inverted "b" [.value "c" true, .content " \x7b\x7bd\x7d\x7b"]]] := by
    with_unfolding_all rfl
  rw [hclosing, hnodes] at hparse
  exact ⟨hclosing, hparse⟩

end Template

end Stencil
