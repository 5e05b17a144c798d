import Stencil.Proofs.Reports
/-
  A closing tag behind a text. It ends the innermost open block if that is a section of the tag's
  path; every other error stays as it is, and at its place, since places do not depend on what
  follows them (`Occurrence.place_append`). The one exception is a section named `each`, which no
  tag can end.
-/

namespace Stencil

open Text

/-! ## More text behind a tag -/

namespace Occurrence

variable {text : String}

theorem place_append (o : Occurrence text) (more : String) :
    (LineTable.ofText (text ++ more)).place o.offset = o.place := by
  have hplace := LineTable.place_ofChars (Piece.flatten o.before)
    (o.tag.chars ++ Piece.flatten o.after ++ more.toList)
  rw [← List.append_assoc, ← o.text_eq, ← String.toList_append] at hplace
  exact hplace

theorem reportAt_append (o : Occurrence text) (more : String) (options : Options)
    (fault : Fault) :
    reportAt (text ++ more) options o.offset fault = reportAt text options o.offset fault := by
  rw [reportAt, reportAt, o.place_append, o.place_offset]

end Occurrence

theorem faulty_append (text more : String) (options : Options) :
    ((tokenizerRun text options).faults.map fun f => reportAt (text ++ more) options f.1 f.2) =
      (tokenizerRun text options).faults.map fun f => reportAt text options f.1 f.2 := by
  refine List.map_congr_left fun f hf => ?_
  obtain ⟨o, ho, -⟩ := exists_occurrence_of_fault hf
  rw [ho, o.reportAt_append]

theorem reports_append {text : String} {options : Options} {scopes : List Scope}
    (h : ∀ s ∈ scopes, s ∈ unclosed text options) (more : String) :
    scopes.map (Scope.report (text ++ more) options) =
      scopes.map (Scope.report text options) := by
  refine List.map_congr_left fun s hs => ?_
  obtain ⟨o, ho, -, -⟩ := exists_occurrence_of_unclosed (h s hs)
  have hreport := o.reportAt_append more options (.unclosedBlock s.path)
  rwa [← ho] at hreport

/-- Behind a text comes a new fault. -/
theorem reportAt_end (text more : String) (options : Options) (fault : Fault) :
    reportAt (text ++ more) options (byteSize text.toList) fault =
      ⟨options.sourceName, .behind text.toList, fault⟩ := by
  have hplace := LineTable.place_ofChars text.toList more.toList
  rw [← String.toList_append] at hplace
  rw [reportAt, LineTable.ofText, hplace]

/-! ## The run over a closing tag -/

/-- A closing tag is read behind every text. -/
theorem split_concat_close (text : String) {p : String} (h : Path.isValid p = true) :
    Piece.split (text ++ (Token.sectionClose p).display).toList =
      Piece.split text.toList ++ [.tag ⟨false, '/' :: p.toList⟩] := by
  have hwf : (Tag.mk false ('/' :: p.toList)).WellFormed := Tag.wellFormed_sigil (by decide) h
  have hsplit := @Piece.split_insert_tag text.toList [] _ hwf (fun _ _ => nofun)
  rw [List.append_nil] at hsplit
  have hnil : Piece.split [] = [] := Piece.splitFrom_nil []
  rw [String.toList_append, Token.toList_display, hnil.symm]
  exact hsplit

/-- What a closing tag does right inside a section of its path. -/
theorem Tokenizer.step_close {options : Options} (hx : options.expanders = []) {p : String}
    (h : Path.isValid p = true) (offset first : Nat) (outer : List Scope) :
    step options (⟨false, p, first⟩ :: outer) offset ⟨false, '/' :: p.toList⟩ =
      if p = "each" then ⟨⟨false, p, first⟩ :: outer, [], some .eachCloseWithoutOpen⟩
      else ⟨outer, [.sectionClose p], none⟩ := by
  rw [step_of_no_expanders hx]
  split
  · next heach =>
    subst heach
    have hkind : (Tag.mk false ('/' :: "each".toList)).kind = .eachClose := Tag.kind_eachClose
    rw [hkind]
    rfl
  · next heach =>
    rw [Tag.kind_sectionClose h heach]
    simp [builtIn, closeSection, inSection, pathFault_of_isValid h]

theorem tokenizerRun_close {text p : String} {options : Options} (hx : options.expanders = [])
    (hvalid : Path.isValid p = true) {s : Scope} {outer : List Scope}
    (hscopes : unclosed text options = s :: outer) (hsection : s.isEach = false)
    (hpath : s.path = p) :
    tokenizerRun (text ++ (Token.sectionClose p).display) options =
      if p = "each" then ⟨(tokenizerRun text options).tokens, (tokenizerRun text options).faults ++
        [(byteSize text.toList, .eachCloseWithoutOpen)], unclosed text options⟩
      else ⟨(tokenizerRun text options).tokens ++ [.sectionClose p],
        (tokenizerRun text options).faults, outer⟩ := by
  obtain ⟨isEach, path, first⟩ := s
  obtain rfl : isEach = false := hsection
  obtain rfl : path = p := hpath
  have hstep := Tokenizer.step_close hx hvalid (byteSize text.toList) first outer
  rw [tokenizerRun, split_concat_close text hvalid, Tokenizer.run_append, ← tokenizerRun,
    ← unclosed, hscopes, Piece.flatten_split, Nat.zero_add]
  simp only [Tokenizer.run, hstep]
  split
  · simp
  · simp

/-! ## Closing the innermost section -/

/-- A list in two parts, told apart by a property, is cut at the first element without it. -/
theorem append_eq_append_cons {α : Type} {P : α → Prop} {xs ys before after : List α} {a : α}
    (h : xs ++ ys = before ++ a :: after) (hxs : ∀ x ∈ xs, P x) (hys : ∀ y ∈ ys, ¬P y)
    (hbefore : ∀ x ∈ before, P x) (ha : ¬P a) : xs = before ∧ ys = a :: after := by
  rcases List.append_eq_append_iff.1 h with ⟨zs, rfl, hrest⟩ | ⟨zs, rfl, hrest⟩
  · cases zs with
    | nil => exact ⟨(List.append_nil xs).symm, hrest⟩
    | cons z zs =>
      have hz : z ∈ ys := by rw [hrest]; simp
      exact absurd (hbefore z (by simp)) (hys z hz)
  · cases zs with
    | nil => exact ⟨List.append_nil before, hrest.symm⟩
    | cons z zs =>
      obtain ⟨rfl, -⟩ := List.cons.inj hrest
      exact absurd (hxs a (by simp)) ha

/-- The first block reported as unclosed is the innermost open one. -/
theorem unclosed_eq_cons {text : String} {options : Options} {before after : List ParseError}
    {e : ParseError} (herrors : (tokenize text options).errors = before ++ e :: after)
    (hbefore : ∀ e ∈ before, e.fault.unclosed? = none) (he : e.fault.unclosed? ≠ none) :
    ∃ s outer, unclosed text options = s :: outer ∧
      (tokenizerRun text options).faults.map (fun f => reportAt text options f.1 f.2) = before ∧
      e = s.report text options ∧ after = outer.map (Scope.report text options) := by
  rw [tokenize_eq] at herrors
  have hsingle : ∀ e ∈ (tokenizerRun text options).faults.map
      (fun f => reportAt text options f.1 f.2), e.fault.unclosed? = none := by
    intro e he
    obtain ⟨f, hf, rfl⟩ := List.mem_map.1 he
    exact Tokenizer.unclosed?_run options 0 [] _ f hf
  have hopen : ∀ e ∈ (unclosed text options).map (Scope.report text options),
      ¬e.fault.unclosed? = none := by
    intro e he
    obtain ⟨s, -, rfl⟩ := List.mem_map.1 he
    exact nofun
  obtain ⟨hfaulty, hreports⟩ := append_eq_append_cons herrors hsingle hopen hbefore he
  cases hscopes : unclosed text options with
  | nil =>
    rw [hscopes] at hreports
    exact absurd hreports nofun
  | cons s outer =>
    rw [hscopes] at hreports
    obtain ⟨hfirst, hrest⟩ := List.cons.inj hreports
    exact ⟨s, outer, rfl, hfaulty, hfirst.symm, hrest.symm⟩

/-- The block that is reported at a section's tag is the section. -/
theorem Occurrence.section_of_place_eq {text : String} {options : Options} {s : Scope} {p : String}
    (o : Occurrence text) (hs : s ∈ unclosed text options)
    (hplace : (s.report text options).place = o.place)
    (hkind : o.tag.kind = .sectionOpen p.toList ∨ o.tag.kind = .invertedOpen p.toList) :
    s.isEach = false ∧ s.path = p := by
  obtain ⟨q, -, hreport, hopens⟩ := exists_occurrence_of_unclosed hs
  obtain rfl : q = o := eq_of_place_eq (hreport.symm.trans hplace)
  have hopened : q.tag.kind.opened? = some p.toList := by
    rcases hkind with hkind | hkind <;> rw [hkind] <;> rfl
  refine ⟨?_, String.toList_injective (Option.some.inj (hopens.opened?.symm.trans hopened))⟩
  cases hsection : s.isEach with
  | false => rfl
  | true =>
    rw [Tag.Opens, if_pos hsection] at hopens
    rcases hkind with hkind | hkind <;> rw [hkind] at hopens <;> exact absurd hopens (by simp)

/-- If the first block that is reported as unclosed was opened as a section of `p`, a closing tag
    of `p` behind the text ends it: the token is added, and this one report goes. But a section
    named `each` is not ended by `/each`, which is a fault of its own. -/
theorem tokenize_append_close {text p : String} {options : Options} (hx : options.expanders = [])
    (hvalid : Path.isValid p = true) {before after : List ParseError} {e : ParseError}
    (herrors : (tokenize text options).errors = before ++ e :: after)
    (hbefore : ∀ e ∈ before, e.fault.unclosed? = none) (he : e.fault.unclosed? ≠ none)
    (o : Occurrence text) (hplace : e.place = o.place)
    (hkind : o.tag.kind = .sectionOpen p.toList ∨ o.tag.kind = .invertedOpen p.toList) :
    tokenize (text ++ (Token.sectionClose p).display) options =
      if p = "each" then
        ⟨(tokenize text options).tokens,
          before ++ ⟨options.sourceName, .behind text.toList, .eachCloseWithoutOpen⟩ :: e :: after⟩
      else ⟨(tokenize text options).tokens ++ [.sectionClose p], before ++ after⟩ := by
  obtain ⟨s, outer, hscopes, hfaulty, rfl, rfl⟩ := unclosed_eq_cons herrors hbefore he
  have hs : s ∈ unclosed text options := by rw [hscopes]; exact List.mem_cons_self
  obtain ⟨hsection, hpath⟩ := o.section_of_place_eq hs hplace hkind
  have hrun := tokenizerRun_close hx hvalid hscopes hsection hpath
  have hreports := reports_append (fun t (ht : t ∈ unclosed text options) => ht)
    (Token.sectionClose p).display
  rw [tokenize_eq, unclosed, hrun]
  split
  · rw [List.map_append, faulty_append, hfaulty, hreports, hscopes, List.append_assoc,
      List.map_singleton, reportAt_end]
    rfl
  · rw [faulty_append, hfaulty, reports_append (fun t ht => ?_)]
    · rfl
    · rw [hscopes]
      exact List.mem_cons_of_mem s ht

/-- A path that is not valid, and a section begun twice inside another one, with a closing tag
    that fits neither. -/
def leftOpen : String :=
  "\x7b\x7ba b\x7d\x7d\x7b\x7b#x\x7d\x7d\n" ++
    "\x7b\x7b^../p\x7d\x7dé\x7b\x7b#../p\x7d\x7d\x7b\x7b/x\x7d\x7d\x7b"

theorem tokenize_append_close_leftOpen :
    (tokenize leftOpen {}).errors = [⟨"", ⟨1, 1⟩, .invalidPath "a b"⟩,
        ⟨"", ⟨2, 20⟩, .mismatchedClose "x" (some "../p")⟩,
        ⟨"", ⟨2, 1⟩, .unclosedBlock "../p"⟩, ⟨"", ⟨1, 8⟩, .unclosedBlock "x"⟩] ∧
      (tokenize (leftOpen ++ (Token.sectionClose "../p").display) {}).errors =
        [⟨"", ⟨1, 1⟩, .invalidPath "a b"⟩, ⟨"", ⟨2, 20⟩, .mismatchedClose "x" (some "../p")⟩,
          ⟨"", ⟨1, 8⟩, .unclosedBlock "x"⟩] := by
  have herrors : (tokenize leftOpen {}).errors = [⟨"", ⟨1, 1⟩, .invalidPath "a b"⟩,
      ⟨"", ⟨2, 20⟩, .mismatchedClose "x" (some "../p")⟩,
      ⟨"", ⟨2, 1⟩, .unclosedBlock "../p"⟩, ⟨"", ⟨1, 8⟩, .unclosedBlock "x"⟩] := by
    decide +kernel
  let o : Occurrence leftOpen :=
    { before := [.tag ⟨false, "a b".toList⟩, .tag ⟨false, "#x".toList⟩, .text ['\n']]
      tag := ⟨false, "^../p".toList⟩
      after := [.text ['é'], .tag ⟨false, "#../p".toList⟩, .tag ⟨false, "/x".toList⟩,
        .text ['\x7b']]
      split_eq := by decide +kernel }
  have hclosed := @tokenize_append_close leftOpen "../p" {} rfl (by decide +kernel)
    [⟨"", ⟨1, 1⟩, .invalidPath "a b"⟩, ⟨"", ⟨2, 20⟩, .mismatchedClose "x" (some "../p")⟩]
    [⟨"", ⟨1, 8⟩, .unclosedBlock "x"⟩] _ herrors (by decide) (by decide) o (by decide +kernel)
    (.inr (by decide +kernel))
  rw [if_neg (by decide)] at hclosed
  exact ⟨herrors, congrArg Tokenized.errors hclosed⟩

/-- The one open section is `each`, and its closing tag does not close it. -/
theorem not_closed_each : ∃ o : Occurrence "\x7b\x7b^each\x7d\x7dx",
    o.tag.kind = .invertedOpen "each".toList ∧ Path.isValid "each" = true ∧
      (tokenize "\x7b\x7b^each\x7d\x7dx" {}).errors = [⟨"", o.place, .unclosedBlock "each"⟩] ∧
      (tokenize ("\x7b\x7b^each\x7d\x7dx" ++ (Token.sectionClose "each").display) {}).errors =
        [⟨"", ⟨1, 11⟩, .eachCloseWithoutOpen⟩, ⟨"", o.place, .unclosedBlock "each"⟩] :=
  ⟨⟨[], ⟨false, "^each".toList⟩, [.text ['x']], by decide +kernel⟩, by decide +kernel,
    by decide +kernel, by decide +kernel, by decide +kernel⟩

end Stencil
