import Stencil.Proofs.PathText
/-
  The grammar of valid paths, in three forms. `Grammatical` says what may stand where in a path;
  `admits` is a pass over its words that remembers one word; and `Valid` builds the valid paths from
  their ends, which is what an induction over them follows. All agree with the check
  (`isValid_iff_grammatical`).
-/

namespace Stencil.Path

/-! ## Valid paths, from the end -/

/-- A valid path is made of name characters, of dots with no dot behind them, and of `../`. -/
inductive Valid : List Char → Prop where
  | nil : Valid []
  | name {c : Char} {cs : List Char} (hc : isNameChar c = true) (hcs : Valid cs) : Valid (c :: cs)
  | dot {cs : List Char} (hcs : Valid cs) (hnext : cs.head? ≠ some '.') : Valid ('.' :: cs)
  | parent {cs : List Char} (hcs : Valid cs) : Valid ('.' :: '.' :: '/' :: cs)

/-- The check on the characters of a path. -/
def accepts (cs : List Char) : Bool := (words? cs).any wellFormed

theorem isValid_eq_accepts (path : String) : isValid path = accepts path.toList := by
  unfold isValid accepts
  cases words? path.toList <;> rfl

/-! ## The check, from the left -/

theorem isNameChar_plain {c : Char} (h : isNameChar c = true) : c ≠ '.' ∧ c ≠ '/' := by
  constructor
  · rintro rfl
    exact absurd h (by decide)
  · rintro rfl
    exact absurd h (by decide)

theorem isPathChar_of_isNameChar {c : Char} (h : isNameChar c = true) : isPathChar c = true := by
  simp [isPathChar, h]

/-- A maximal run ends where a character of another kind follows. -/
theorem span_append {α : Type} {p : α → Bool} {run rest : List α} (hrun : ∀ c ∈ run, p c = true)
    (hrest : ∀ c ∈ rest.head?, p c = false) :
    (run ++ rest).takeWhile p = run ∧ (run ++ rest).dropWhile p = rest := by
  rw [List.takeWhile_append_of_pos hrun, List.dropWhile_append_of_pos hrun]
  cases rest with
  | nil => exact ⟨List.append_nil run, rfl⟩
  | cons c rest =>
    have hc : ¬(p c = true) := by simp [hrest c rfl]
    rw [List.takeWhile_cons_of_neg hc, List.dropWhile_cons_of_neg hc]
    exact ⟨List.append_nil run, rfl⟩

theorem words?_dots {cs : List Char} (count : Nat) (h : cs.head? ≠ some '.') :
    words? (List.replicate (count + 1) '.' ++ cs) =
      (words? cs).map (.dots (count + 1) :: ·) := by
  have hdots : ∀ c ∈ List.replicate count '.', decide (c = '.') = true := by
    intro c hc
    rw [List.eq_of_mem_replicate hc]
    rfl
  have hrest : ∀ c ∈ cs.head?, decide (c = '.') = false := by
    intro c hc
    rw [decide_eq_false_iff_not]
    rintro rfl
    exact h hc
  obtain ⟨htake, hdrop⟩ := span_append hdots hrest
  rw [List.replicate_succ, List.cons_append, words?, if_pos rfl, htake, hdrop,
    List.length_replicate]

theorem accepts_slash (cs : List Char) : accepts ('/' :: cs) = false := by
  rw [accepts, words?, if_neg (by decide), if_pos rfl]
  cases words? cs <;> rfl

/-- A name character may stand before any valid path: it is a name or belongs to the name that the
    path begins with. -/
theorem accepts_name {c : Char} (h : isNameChar c = true) (cs : List Char) :
    accepts (c :: cs) = accepts cs := by
  have hname : ∀ {d : Char}, isNameChar d = true → ∀ ds,
      accepts (d :: ds) = accepts (ds.dropWhile isNameChar) := by
    intro d hd ds
    obtain ⟨hdot, hslash⟩ := isNameChar_plain hd
    rw [accepts, words?, if_neg hdot, if_neg hslash, if_pos hd, accepts]
    cases words? (ds.dropWhile isNameChar) <;> rfl
  rw [hname h]
  cases cs with
  | nil => rfl
  | cons d ds =>
    cases hd : isNameChar d with
    | true => rw [List.dropWhile_cons_of_pos hd, hname hd]
    | false => rw [List.dropWhile_cons_of_neg (by simp [hd])]

/-- A dot may stand alone before any valid path. -/
theorem accepts_dot {cs : List Char} (h : cs.head? ≠ some '.') :
    accepts ('.' :: cs) = accepts cs := by
  rw [accepts, show '.' :: cs = List.replicate (0 + 1) '.' ++ cs from rfl, words?_dots 0 h, accepts]
  cases words? cs <;> rfl

theorem accepts_parent (cs : List Char) : accepts ('.' :: '.' :: '/' :: cs) = accepts cs := by
  rw [accepts, show '.' :: '.' :: '/' :: cs = List.replicate (1 + 1) '.' ++ '/' :: cs from rfl,
    words?_dots 1 (by simp), words?, if_neg (by decide), if_pos rfl, accepts]
  cases words? cs <;> rfl

theorem head?_of_words?_slash {cs : List Char} {ws : List Word}
    (h : words? cs = some (.slash :: ws)) : cs.head? = some '/' := by
  unfold words? at h
  split at h
  · simp at h
  · next c cs =>
    split at h
    · simp at h
    · split at h
      · next hslash => rw [hslash, List.head?_cons]
      · split at h
        · simp at h
        · simp at h

/-- Two dots or more are no part of a valid path, but for two before a slash. -/
theorem accepts_dots {cs : List Char} (h : cs.head? ≠ some '/') :
    accepts ('.' :: '.' :: cs) = false := by
  rw [accepts, words?, if_pos rfl, List.takeWhile_cons_of_pos (by simp),
    List.dropWhile_cons_of_pos (by simp), List.length_cons]
  cases hws : words? (cs.dropWhile (· = '.')) with
  | none => rfl
  | some ws =>
    simp only [Option.map_some, Option.any_some]
    unfold wellFormed
    split
    · next heq => simp at heq
    · -- two dots and a slash behind them
      next rest heq =>
      obtain ⟨hcount, rfl⟩ := List.cons.inj heq
      have hlength : (cs.takeWhile (· = '.')).length = 0 := by simpa using hcount
      have hcs : cs.dropWhile (· = '.') = cs := by
        have happend := List.takeWhile_append_dropWhile (p := (decide <| · = '.')) (l := cs)
        rwa [List.length_eq_zero_iff.1 hlength, List.nil_append] at happend
      rw [hcs] at hws
      exact absurd (head?_of_words?_slash hws) h
    · next n rest _ heq =>
      obtain ⟨hcount, -⟩ := List.cons.inj heq
      have hn : n ≠ 1 := by
        have hcount := Word.dots.inj hcount
        omega
      simp [hn]
    · next heq => simp at heq
    · next heq => simp at heq

theorem accepts_other {c : Char} (h : isPathChar c = false) (cs : List Char) :
    accepts (c :: cs) = false := by
  have hdot : c ≠ '.' := by rintro rfl; exact absurd h (by decide)
  have hslash : c ≠ '/' := by rintro rfl; exact absurd h (by decide)
  have hname : isNameChar c ≠ true := fun hname => by simp [isPathChar_of_isNameChar hname] at h
  rw [accepts, words?, if_neg hdot, if_neg hslash, if_neg hname]
  rfl

/-- How a text can begin, where paths are concerned. -/
inductive Start : List Char → Prop where
  | nil : Start []
  | name {c : Char} (hc : isNameChar c = true) (cs : List Char) : Start (c :: cs)
  | dot {cs : List Char} (hnext : cs.head? ≠ some '.') : Start ('.' :: cs)
  | parent (cs : List Char) : Start ('.' :: '.' :: '/' :: cs)
  | dots {cs : List Char} (hnext : cs.head? ≠ some '/') : Start ('.' :: '.' :: cs)
  | slash (cs : List Char) : Start ('/' :: cs)
  | other {c : Char} (hc : isPathChar c = false) (cs : List Char) : Start (c :: cs)

theorem start (cs : List Char) : Start cs := by
  cases cs with
  | nil => exact .nil
  | cons c cs =>
    cases hc : isPathChar c with
    | false => exact .other hc cs
    | true =>
      simp only [isPathChar, Bool.or_eq_true, beq_iff_eq] at hc
      obtain (rfl | rfl) | hname := hc
      · by_cases hnext : cs.head? = some '.'
        · obtain ⟨ds, rfl⟩ := List.head?_eq_some_iff.1 hnext
          by_cases hslash : ds.head? = some '/'
          · obtain ⟨es, rfl⟩ := List.head?_eq_some_iff.1 hslash
            exact .parent es
          · exact .dots hslash
        · exact .dot hnext
      · exact .slash cs
      · exact .name hname cs

/-- The check accepts the valid paths and no others. -/
theorem accepts_iff_valid (cs : List Char) : accepts cs = true ↔ Valid cs := by
  constructor
  · intro h
    cases start cs with
    | nil => exact .nil
    | name hc cs => exact .name hc ((accepts_iff_valid cs).1 ((accepts_name hc cs).symm.trans h))
    | @dot cs hnext =>
      exact .dot ((accepts_iff_valid cs).1 ((accepts_dot hnext).symm.trans h)) hnext
    | parent cs => exact .parent ((accepts_iff_valid cs).1 ((accepts_parent cs).symm.trans h))
    | dots hnext => exact absurd ((accepts_dots hnext).symm.trans h) (by decide)
    | slash cs => exact absurd ((accepts_slash cs).symm.trans h) (by decide)
    | other hc cs => exact absurd ((accepts_other hc cs).symm.trans h) (by decide)
  · intro h
    induction h with
    | nil => simp [accepts, words?, wellFormed]
    | name hc hcs ih => rw [accepts_name hc, ih]
    | dot hcs hnext ih => rw [accepts_dot hnext, ih]
    | parent hcs ih => rw [accepts_parent, ih]
termination_by cs.length

theorem isValid_iff_valid {path : String} : isValid path = true ↔ Valid path.toList := by
  rw [isValid_eq_accepts, accepts_iff_valid]

/-! ## The grammar by what stands where -/

/-- Two dots, and no dot on either side of them. -/
structure DotPair (path before after : List Char) : Prop where
  eq_append : path = before ++ '.' :: '.' :: after
  left : before.getLast? ≠ some '.'
  right : after.head? ≠ some '.'

/-- The letters and digits of names, and the underscore. -/
def InName (c : Char) : Prop :=
  ('A' ≤ c ∧ c ≤ 'Z') ∨ ('a' ≤ c ∧ c ≤ 'z') ∨ ('0' ≤ c ∧ c ≤ '9') ∨ c = '_'

instance : DecidablePred InName := fun _ => inferInstanceAs (Decidable (_ ∨ _))

/-- The characters of paths. -/
def InAlphabet (c : Char) : Prop := c = '.' ∨ c = '/' ∨ InName c

/-- What a path has to look like: three dots stand nowhere together, a slash stands behind two dots
    only, and before a slash only two dots stand alone. -/
structure Grammatical (path : List Char) : Prop where
  alphabet : ∀ c ∈ path, InAlphabet c
  no_three : ¬['.', '.', '.'] <:+: path
  slash : ∀ before after, path = before ++ '/' :: after →
    ∃ front, DotPair path front ('/' :: after)
  pair : ∀ before after, DotPair path before after → after.head? = some '/'

theorem isNameChar_iff {c : Char} : isNameChar c = true ↔ InName c := by
  change ((decide ('A' ≤ c ∧ c ≤ 'Z') || ('a' ≤ c && c ≤ 'z')) || ('0' ≤ c && c ≤ '9') ||
    c == '_') = true ↔ InName c
  simp only [Bool.or_eq_true, Bool.and_eq_true, decide_eq_true_eq, beq_iff_eq, or_assoc, InName]

theorem isPathChar_iff {c : Char} : isPathChar c = true ↔ InAlphabet c := by
  simp only [isPathChar, Bool.or_eq_true, beq_iff_eq, isNameChar_iff, or_assoc, InAlphabet]

section Pairs

variable {c : Char} {cs before after : List Char}

/-- A character before a text is no part of its pairs, unless it and the text's first are dots. -/
theorem dotPair_cons (h : c ≠ '.' ∨ cs.head? ≠ some '.') :
    DotPair (c :: cs) before after ↔ ∃ rest, before = c :: rest ∧ DotPair cs rest after := by
  constructor
  · rintro ⟨heq, hleft, hright⟩
    cases before with
    | nil =>
      obtain ⟨rfl, rfl⟩ := List.cons.inj heq
      simp at h
    | cons d rest =>
      obtain ⟨rfl, rfl⟩ := List.cons.inj heq
      refine ⟨rest, rfl, rfl, fun hlast => hleft ?_, hright⟩
      rw [List.getLast?_cons, hlast]
      rfl
  · rintro ⟨rest, rfl, rfl, hleft, hright⟩
    refine ⟨rfl, ?_, hright⟩
    cases rest with
    | nil => simpa using h
    | cons d rest => simpa using hleft

/-- The two dots of a parent step are a pair, and the others are those of what follows it. -/
theorem dotPair_parent :
    DotPair ('.' :: '.' :: '/' :: cs) before after ↔
      (before = [] ∧ after = '/' :: cs) ∨
        ∃ rest, before = '.' :: '.' :: '/' :: rest ∧ DotPair cs rest after := by
  constructor
  · rintro ⟨heq, hleft, hright⟩
    match before with
    | [] => exact .inl ⟨rfl, (List.cons.inj (List.cons.inj heq).2).2.symm⟩
    | [d] =>
      simp only [List.cons_append, List.cons.injEq] at heq
      exact absurd (congrArg some heq.1.symm) hleft
    | [d, e] =>
      simp only [List.cons_append, List.cons.injEq] at heq
      exact absurd (congrArg some heq.2.1.symm) hleft
    | d :: e :: f :: rest =>
      simp only [List.cons_append, List.cons.injEq] at heq
      obtain ⟨rfl, rfl, rfl, rfl⟩ := heq
      refine .inr ⟨rest, rfl, rfl, fun hlast => hleft ?_, hright⟩
      simp [List.getLast?_cons, hlast]
  · rintro (⟨rfl, rfl⟩ | ⟨rest, rfl, rfl, hleft, hright⟩)
    · exact ⟨rfl, by simp, by simp⟩
    · refine ⟨rfl, ?_, hright⟩
      cases rest with
      | nil => simp
      | cons d rest => simpa using hleft

end Pairs

theorem grammatical_nil : Grammatical [] where
  alphabet := by simp
  no_three := by simp
  slash before after h := by simp at h
  pair before after h := by
    have heq := h.eq_append
    simp at heq

/-- Before a path may stand any character of the alphabet but a slash, and a dot only if none
    follows it. -/
theorem grammatical_cons {c : Char} {cs : List Char} (h : c ≠ '.' ∨ cs.head? ≠ some '.') :
    Grammatical (c :: cs) ↔ InAlphabet c ∧ c ≠ '/' ∧ Grammatical cs := by
  constructor
  · rintro ⟨halphabet, hthree, hslash, hpair⟩
    refine ⟨halphabet c List.mem_cons_self, ?_, ?_, ?_, ?_, ?_⟩
    · rintro rfl
      obtain ⟨front, heq, -, -⟩ := hslash [] cs rfl
      have hlength := congrArg List.length heq
      simp only [List.length_cons, List.length_append] at hlength
      omega
    · exact fun d hd => halphabet d (List.mem_cons_of_mem c hd)
    · exact fun hthrough => hthree (hthrough.trans (List.suffix_cons c cs).isInfix)
    · intro before after heq
      obtain ⟨front, hfront⟩ := hslash (c :: before) after (by rw [heq]; rfl)
      obtain ⟨rest, -, hrest⟩ := (dotPair_cons h).1 hfront
      exact ⟨rest, hrest⟩
    · exact fun before after hbefore =>
        hpair (c :: before) after ((dotPair_cons h).2 ⟨before, rfl, hbefore⟩)
  · rintro ⟨hc, hne, halphabet, hthree, hslash, hpair⟩
    refine ⟨?_, ?_, ?_, ?_⟩
    · simpa using ⟨hc, halphabet⟩
    · intro hthrough
      rcases List.infix_cons_iff.1 hthrough with hfront | hthrough
      · obtain ⟨rest, heq⟩ := hfront
        obtain ⟨rfl, rfl⟩ := List.cons.inj heq
        simp at h
      · exact hthree hthrough
    · intro before after heq
      cases before with
      | nil => exact absurd (List.cons.inj heq).1 hne
      | cons d before =>
        obtain ⟨front, hfront⟩ := hslash before after (List.cons.inj heq).2
        exact ⟨c :: front, (dotPair_cons h).2 ⟨front, rfl, hfront⟩⟩
    · intro before after hbefore
      obtain ⟨rest, -, hrest⟩ := (dotPair_cons h).1 hbefore
      exact hpair rest after hrest

/-- A parent step may stand before any path. -/
theorem grammatical_parent {cs : List Char} :
    Grammatical ('.' :: '.' :: '/' :: cs) ↔ Grammatical cs := by
  constructor
  · rintro ⟨halphabet, hthree, hslash, hpair⟩
    refine ⟨?_, ?_, ?_, ?_⟩
    · exact fun d hd => halphabet d (by simp [hd])
    · exact fun hthrough => hthree (hthrough.trans ⟨['.', '.', '/'], [], by simp⟩)
    · intro before after heq
      obtain ⟨front, hfront⟩ := hslash ('.' :: '.' :: '/' :: before) after (by rw [heq]; rfl)
      rcases dotPair_parent.1 hfront with ⟨rfl, hafter⟩ | ⟨rest, rfl, hrest⟩
      · -- the slash would be the one of the parent step
        obtain ⟨-, hafter⟩ := List.cons.inj hafter
        have hlength := congrArg List.length heq
        rw [hafter] at hlength
        simp only [List.length_cons, List.length_append] at hlength
        omega
      · exact ⟨rest, hrest⟩
    · exact fun before after hbefore => hpair ('.' :: '.' :: '/' :: before) after
        (dotPair_parent.2 (.inr ⟨before, rfl, hbefore⟩))
  · rintro ⟨halphabet, hthree, hslash, hpair⟩
    refine ⟨?_, ?_, ?_, ?_⟩
    · intro d hd
      simp only [List.mem_cons] at hd
      rcases hd with rfl | rfl | rfl | hd
      · exact .inl rfl
      · exact .inl rfl
      · exact .inr (.inl rfl)
      · exact halphabet d hd
    · intro hthrough
      simp [List.infix_cons_iff, List.cons_prefix_cons, hthree] at hthrough
    · intro before after heq
      match before with
      | [] => simp at heq
      | [d] => simp at heq
      | [d, e] =>
        simp only [List.cons_append, List.nil_append, List.cons.injEq] at heq
        obtain ⟨rfl, rfl, -, rfl⟩ := heq
        exact ⟨[], dotPair_parent.2 (.inl ⟨rfl, rfl⟩)⟩
      | d :: e :: f :: before =>
        simp only [List.cons_append, List.cons.injEq] at heq
        obtain ⟨rfl, rfl, rfl, heq⟩ := heq
        obtain ⟨front, hfront⟩ := hslash before after heq
        exact ⟨_, dotPair_parent.2 (.inr ⟨front, rfl, hfront⟩)⟩
    · intro before after hbefore
      rcases dotPair_parent.1 hbefore with ⟨-, rfl⟩ | ⟨rest, -, hrest⟩
      · rfl
      · exact hpair rest after hrest

/-- The valid paths are those that look as the grammar says. -/
theorem valid_iff_grammatical (cs : List Char) : Valid cs ↔ Grammatical cs := by
  constructor
  · intro h
    induction h with
    | nil => exact grammatical_nil
    | name hc hcs ih =>
      obtain ⟨hdot, hslash⟩ := isNameChar_plain hc
      have hchar := isPathChar_iff.1 (isPathChar_of_isNameChar hc)
      exact (grammatical_cons (.inl hdot)).2 ⟨hchar, hslash, ih⟩
    | dot hcs hnext ih => exact (grammatical_cons (.inr hnext)).2 ⟨.inl rfl, by decide, ih⟩
    | parent hcs ih => exact grammatical_parent.2 ih
  · intro h
    cases start cs with
    | nil => exact .nil
    | name hc cs =>
      obtain ⟨-, -, hcs⟩ := (grammatical_cons (.inl (isNameChar_plain hc).1)).1 h
      exact .name hc ((valid_iff_grammatical cs).2 hcs)
    | @dot cs hnext =>
      obtain ⟨-, -, hcs⟩ := (grammatical_cons (.inr hnext)).1 h
      exact .dot ((valid_iff_grammatical cs).2 hcs) hnext
    | parent cs => exact .parent ((valid_iff_grammatical cs).2 (grammatical_parent.1 h))
    | @dots cs hnext =>
      -- a third dot is one too many, and without it the first two are a pair
      by_cases hdot : cs.head? = some '.'
      · obtain ⟨ds, rfl⟩ := List.head?_eq_some_iff.1 hdot
        exact absurd ⟨[], ds, rfl⟩ h.no_three
      · exact absurd (h.pair [] cs ⟨rfl, by simp, hdot⟩) hnext
    | slash cs => exact absurd rfl ((grammatical_cons (.inl (by decide))).1 h).2.1
    | other hc cs =>
      have hchar := isPathChar_iff.2 (h.alphabet _ List.mem_cons_self)
      rw [hc] at hchar
      exact absurd hchar (by decide)
termination_by cs.length

/-! ## The check with one word of memory -/

/-- Whether a word may stand behind another one, or first. -/
def Word.follows (previous : Option Word) : Word → Bool
  | .dots count => count ≤ 2 && previous != some (.dots 2)
  | .slash => previous == some (.dots 2)
  | .name _ => previous != some (.dots 2)

/-- The check as one pass over the words that remembers the last one and stops at the first that
    does not fit. -/
def admits (previous : Option Word) : List Word → Bool
  | [] => previous != some (.dots 2)
  | w :: ws => w.follows previous && admits (some w) ws

/-- A run of dots is not empty. -/
theorem dots_pos_of_words? {cs : List Char} {ws : List Word} (h : words? cs = some ws) :
    .dots 0 ∉ ws := by
  fun_induction words? cs generalizing ws with
  | case1 => simp_all
  | case2 cs ih =>
    obtain ⟨rest, hrest, rfl⟩ := Option.map_eq_some_iff.1 h
    simpa using ih hrest
  | case3 cs _ ih =>
    obtain ⟨rest, hrest, rfl⟩ := Option.map_eq_some_iff.1 h
    simpa using ih hrest
  | case4 c cs _ _ hname ih =>
    obtain ⟨rest, hrest, rfl⟩ := Option.map_eq_some_iff.1 h
    simpa using ih hrest
  | case5 => simp at h

theorem admits_eq_wellFormed {ws : List Word} (h : .dots 0 ∉ ws) {previous : Option Word}
    (hprevious : previous ≠ some (.dots 2)) : admits previous ws = wellFormed ws := by
  fun_induction wellFormed ws generalizing previous with
  | case1 => simpa [admits] using hprevious
  | case2 rest ih =>
    have hrest : admits (some .slash) rest = wellFormed rest := ih (by simp_all) (by simp)
    simp [admits, Word.follows, hprevious, hrest]
  | case3 n rest hslash ih =>
    match n with
    | 0 => simp at h
    | 1 =>
      have hrest : admits (some (.dots 1)) rest = wellFormed rest := ih (by simp_all) (by simp)
      simp [admits, Word.follows, hprevious, hrest]
    | 2 =>
      -- nothing but a slash fits behind two dots
      have hnone : admits (some (.dots 2)) rest = false := by
        match rest with
        | [] => rfl
        | .slash :: rest => exact absurd rfl (hslash rest rfl)
        | .dots m :: rest => simp [admits, Word.follows]
        | .name text :: rest => simp [admits, Word.follows]
      simp [admits, hnone]
    | n + 3 => simp [admits, Word.follows]
  | case4 rest => simp [admits, Word.follows, hprevious]
  | case5 name rest ih =>
    have hrest : admits (some (.name name)) rest = wellFormed rest := ih (by simp_all) (by simp)
    simp [admits, Word.follows, hprevious, hrest]

theorem isValid_eq_admits (path : String) :
    isValid path = (words? path.toList).any (admits none) := by
  rw [isValid_eq_accepts, accepts]
  cases hws : words? path.toList with
  | none => rfl
  | some ws =>
    have hnone : (none : Option Word) ≠ some (.dots 2) := by simp
    exact (admits_eq_wellFormed (dots_pos_of_words? hws) hnone).symm

/-- The check is the pass over the words of the path with one word of memory, and it accepts
    exactly the texts of the grammar: only letters, digits, `_`, `.` and `/`; no three dots
    together; every slash right behind two dots that stand alone, and every two such dots right
    before a slash. -/
theorem isValid_iff_grammatical (path : String) :
    isValid path = (words? path.toList).any (admits none) ∧
      (isValid path = true ↔ Grammatical path.toList) := by
  refine ⟨isValid_eq_admits path, ?_⟩
  rw [isValid_iff_valid, valid_iff_grammatical]

/-- Dots at either end and runs of parent steps are fine; a slash needs its own two dots, and two
    dots their own slash. -/
example : ["", ".", "../.a", ".a.b.", "a../../b"].all isValid = true ∧
    ["..", "a..b", "a/b", ".../", "..//", "é"].any isValid = false := by
  decide +kernel

end Stencil.Path
