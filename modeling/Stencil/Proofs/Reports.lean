import Mathlib.Data.List.Nodup
import Mathlib.Tactic.Choose
import Stencil.Proofs.Places
import Stencil.Proofs.Repair
/-
  The order of a template's errors. An `Occurrence` is a tag where it stands in a text, and the
  place of every error is that of an occurrence. Faults of tags come in the order of the tags
  (`pairwise_faults`). Blocks left open come innermost first, and since a block stays on the stack
  with the offset of the tag that opened it, that is the opposite order (`descends_run`).
-/

namespace Stencil

open Text

/-! ## Tags where they stand -/

/-- A tag in a text, with the pieces on both sides of it. -/
structure Occurrence (text : String) where
  before : List Piece
  tag : Tag
  after : List Piece
  split_eq : Piece.split text.toList = before ++ .tag tag :: after

namespace Occurrence

variable {text : String}

/-- The byte offset of the tag's first brace. -/
def offset (o : Occurrence text) : Nat := byteSize (Piece.flatten o.before)

/-- The place of the tag's first brace. -/
def place (o : Occurrence text) : Place := .behind (Piece.flatten o.before)

theorem text_eq (o : Occurrence text) :
    text.toList = Piece.flatten o.before ++ (o.tag.chars ++ Piece.flatten o.after) := by
  have hflatten := Piece.flatten_split text.toList
  rw [o.split_eq, Piece.flatten_append, Piece.flatten_cons] at hflatten
  exact hflatten.symm

/-- The table of lines finds the place by the offset. -/
theorem place_offset (o : Occurrence text) : (LineTable.ofText text).place o.offset = o.place := by
  have hplace := LineTable.place_ofChars (Piece.flatten o.before)
    (o.tag.chars ++ Piece.flatten o.after)
  rwa [← o.text_eq] at hplace

/-- One tag stands before another one. -/
def Precedes (o q : Occurrence text) : Prop :=
  ∃ between, q.before = o.before ++ .tag o.tag :: between

theorem eq_or_precedes_of_prefix {o q : Occurrence text} (h : o.before <+: q.before) :
    o = q ∨ o.Precedes q := by
  obtain ⟨before, t, after, ho⟩ := o
  obtain ⟨before', t', after', hq⟩ := q
  obtain ⟨between, rfl⟩ := h
  have hrest : .tag t :: after = between ++ .tag t' :: after' := by
    refine List.append_cancel_left (ho.symm.trans (hq.trans ?_))
    rw [List.append_assoc]
  cases between with
  | nil =>
    obtain ⟨htag, rfl⟩ := List.cons.inj hrest
    obtain rfl : t = t' := Piece.tag.inj htag
    left
    simp
  | cons p between =>
    obtain ⟨rfl, -⟩ := List.cons.inj hrest
    exact .inr ⟨between, rfl⟩

/-- Two tags of a text are the same one, or one of them stands before the other. -/
theorem eq_or_precedes (o q : Occurrence text) : o = q ∨ o.Precedes q ∨ q.Precedes o := by
  have ho : o.before <+: Piece.split text.toList := ⟨_, o.split_eq.symm⟩
  have hq : q.before <+: Piece.split text.toList := ⟨_, q.split_eq.symm⟩
  rcases List.prefix_or_prefix_of_prefix ho hq with hprefix | hprefix
  · rcases eq_or_precedes_of_prefix hprefix with heq | hprecedes
    · exact .inl heq
    · exact .inr (.inl hprecedes)
  · rcases eq_or_precedes_of_prefix hprefix with heq | hprecedes
    · exact .inl heq.symm
    · exact .inr (.inr hprecedes)

theorem Precedes.offset_lt {o q : Occurrence text} (h : o.Precedes q) : o.offset < q.offset := by
  obtain ⟨between, hbefore⟩ := h
  have hpos := byteSize_pos o.tag.chars_ne_nil
  rw [offset, offset, hbefore, Piece.flatten_append, byteSize_append, Piece.flatten_cons,
    byteSize_append, Piece.chars]
  omega

theorem Precedes.place_lt {o q : Occurrence text} (h : o.Precedes q) : o.place < q.place := by
  obtain ⟨between, hbefore⟩ := h
  have hbetween : Piece.flatten (.tag o.tag :: between) ≠ [] := by
    rw [Piece.flatten_cons]
    exact List.append_ne_nil_of_left_ne_nil o.tag.chars_ne_nil _
  rw [place, place, hbefore, Piece.flatten_append]
  exact Place.behind_lt_behind _ hbetween

/-- Tags have their places in the order of their offsets. -/
theorem place_lt_of_offset_lt {o q : Occurrence text} (h : o.offset < q.offset) :
    o.place < q.place := by
  rcases o.eq_or_precedes q with rfl | hprecedes | hprecedes
  · omega
  · exact hprecedes.place_lt
  · have hlt := hprecedes.offset_lt
    omega

/-- Two tags never have the same place. -/
theorem eq_of_place_eq {o q : Occurrence text} (h : o.place = q.place) : o = q := by
  rcases o.eq_or_precedes q with heq | hprecedes | hprecedes
  · exact heq
  · have hlt := hprecedes.place_lt
    rw [h] at hlt
    exact absurd hlt q.place.lt_irrefl
  · have hlt := hprecedes.place_lt
    rw [h] at hlt
    exact absurd hlt q.place.lt_irrefl

end Occurrence

/-- The path of the block that a tag opens. -/
def Tag.Kind.opened? : Tag.Kind → Option (List Char)
  | .eachOpen path | .sectionOpen path | .invertedOpen path => some path
  | _ => none

theorem Tag.Opens.opened? {t : Tag} {s : Scope} (h : t.Opens s) :
    t.kind.opened? = some s.path.toList := by
  unfold Tag.Opens at h
  split at h
  · rw [h]; rfl
  · rcases h with h | h <;> rw [h] <;> rfl

namespace Tokenizer

/-! ## The order of faults -/

/-- Every fault stands at the offset of its tag. -/
theorem faulty_run (options : Options) (offset : Nat) (scopes : List Scope) (ps : List Piece) :
    ∀ f ∈ (run options offset scopes ps).faults, ∃ before t after,
      ps = before ++ .tag t :: after ∧ f.1 = offset + byteSize (Piece.flatten before) := by
  induction ps generalizing offset scopes with
  | nil => exact fun f hf => absurd hf List.not_mem_nil
  | cons p ps ih =>
    -- a fault of the rest stands behind the first piece
    have hrest : ∀ scopes', ∀ f ∈ (run options (offset + byteSize p.chars) scopes' ps).faults,
        ∃ before t after, p :: ps = before ++ .tag t :: after ∧
          f.1 = offset + byteSize (Piece.flatten before) := by
      intro scopes' f hf
      obtain ⟨before, t, after, rfl, hoffset⟩ := ih _ _ f hf
      refine ⟨p :: before, t, after, rfl, ?_⟩
      rw [hoffset, Piece.flatten_cons, byteSize_append, Nat.add_assoc]
    intro f hf
    cases p with
    | text cs => exact hrest scopes f hf
    | tag t =>
      rcases List.mem_append.1 hf with hf | hf
      · obtain ⟨fault, -, rfl⟩ := List.mem_map.1 hf
        exact ⟨[], t, ps, rfl, by simp⟩
      · exact hrest _ f hf

/-- A tag has one fault at most, and the faults come in the order of their tags. -/
theorem pairwise_faults (options : Options) (offset : Nat) (scopes : List Scope)
    (ps : List Piece) : (run options offset scopes ps).faults.Pairwise (·.1 < ·.1) := by
  induction ps generalizing offset scopes with
  | nil => exact .nil
  | cons p ps ih =>
    cases p with
    | text cs => exact ih _ _
    | tag t =>
      have hrest := ih (offset + byteSize t.chars) (step options scopes offset t).scopes
      cases hfault : (step options scopes offset t).fault with
      | none =>
        rw [run, hfault]
        exact hrest
      | some fault =>
        rw [run, hfault]
        refine .cons (fun f hf => ?_) hrest
        obtain ⟨before, u, after, -, hoffset⟩ := faulty_run _ _ _ _ f hf
        have hpos := byteSize_pos t.chars_ne_nil
        dsimp only
        omega

/-! ## The order of open blocks -/

/-- A tag opens one block at most, at its own offset, above blocks that were open before it. -/
theorem sublist_move {scopes : List Scope} {offset : Nat} {e : Effect} (h : Move scopes offset e) :
    ∃ s : Scope, s.offset = offset ∧ e.scopes.Sublist (s :: scopes) := by
  cases h with
  | custom | comment | value | refuse | reopen =>
    exact ⟨⟨false, "", offset⟩, rfl, List.sublist_cons_self _ _⟩
  | openEach | openNothing | openSection => exact ⟨_, rfl, List.Sublist.refl _⟩
  | closeEach hin | closeSection hpath hin =>
    subst hin
    refine ⟨⟨false, "", offset⟩, rfl, ?_⟩
    exact (List.sublist_cons_self _ _).trans (List.sublist_cons_self _ _)

/-- The offsets of some open blocks, from the innermost one, go down from what has been read. -/
def Descends (offset : Nat) (scopes : List Scope) : Prop :=
  (offset :: scopes.map (·.offset)).Pairwise (· > ·)

theorem Descends.mono {offset offset' : Nat} {scopes : List Scope} (h : Descends offset scopes)
    (hle : offset ≤ offset') : Descends offset' scopes := by
  obtain ⟨hhead, htail⟩ := List.pairwise_cons.1 h
  refine List.pairwise_cons.2 ⟨fun n hn => ?_, htail⟩
  have hlt := hhead n hn
  omega

theorem Descends.move {offset offset' : Nat} {scopes : List Scope} {e : Effect}
    (h : Descends offset scopes) (hmove : Move scopes offset e) (hlt : offset < offset') :
    Descends offset' e.scopes := by
  obtain ⟨s, rfl, hsublist⟩ := sublist_move hmove
  have hopened : Descends offset' (s :: scopes) := by
    refine List.pairwise_cons.2 ⟨fun n hn => ?_, h⟩
    rcases List.mem_cons.1 hn with rfl | hn
    · exact hlt
    · have hbelow := (List.pairwise_cons.1 h).1 n hn
      omega
  exact hopened.sublist ((hsublist.map _).cons_cons offset')

theorem descends_run (options : Options) {offset : Nat} {scopes : List Scope} (ps : List Piece)
    (h : Descends offset scopes) :
    Descends (offset + byteSize (Piece.flatten ps)) (run options offset scopes ps).scopes := by
  induction ps generalizing offset scopes with
  | nil => exact h
  | cons p ps ih =>
    rw [Piece.flatten_cons, byteSize_append, ← Nat.add_assoc]
    cases p with
    | text cs => exact ih (h.mono (Nat.le_add_right _ _))
    | tag t =>
      have hpos := byteSize_pos t.chars_ne_nil
      exact ih (h.move (move_step options scopes offset t) (Nat.lt_add_of_pos_right hpos))

end Tokenizer

/-! ## The errors of a template -/

theorem Occurrence.place_reportAt {text : String} (o : Occurrence text) (options : Options)
    (fault : Fault) : (reportAt text options o.offset fault).place = o.place := o.place_offset

theorem exists_occurrence_of_fault {text : String} {options : Options} {f : Nat × Fault}
    (hf : f ∈ (tokenizerRun text options).faults) :
    ∃ o : Occurrence text, f.1 = o.offset ∧ (reportAt text options f.1 f.2).place = o.place := by
  obtain ⟨before, t, after, hsplit, hoffset⟩ := Tokenizer.faulty_run options 0 [] _ f hf
  let o : Occurrence text := ⟨before, t, after, hsplit⟩
  have ho : f.1 = o.offset := by rw [hoffset, Nat.zero_add]; rfl
  exact ⟨o, ho, by rw [ho, o.place_reportAt]⟩

theorem exists_occurrence_of_unclosed {text : String} {options : Options} {s : Scope}
    (hs : s ∈ unclosed text options) :
    ∃ o : Occurrence text, s.offset = o.offset ∧ (s.report text options).place = o.place ∧
      o.tag.Opens s := by
  rcases Tokenizer.opened_run options 0 [] _ s hs with
    hnil | ⟨before, t, after, hsplit, hoffset, ht⟩
  · exact absurd hnil List.not_mem_nil
  · let o : Occurrence text := ⟨before, t, after, hsplit⟩
    have ho : s.offset = o.offset := by rw [hoffset, Nat.zero_add]; rfl
    have hplace := o.place_reportAt options (.unclosedBlock s.path)
    rw [← ho] at hplace
    exact ⟨o, ho, hplace, ht⟩

theorem pairwise_faulty (text : String) (options : Options) :
    ((tokenizerRun text options).faults.map fun f => reportAt text options f.1 f.2).Pairwise
      (·.place < ·.place) := by
  refine List.pairwise_map.2 ((Tokenizer.pairwise_faults options 0 [] _).imp_of_mem ?_)
  intro f g hf hg hlt
  obtain ⟨o, ho, hf⟩ := exists_occurrence_of_fault hf
  obtain ⟨q, hq, hg⟩ := exists_occurrence_of_fault hg
  rw [ho, hq] at hlt
  rw [hf, hg]
  exact Occurrence.place_lt_of_offset_lt hlt

theorem pairwise_reports (text : String) (options : Options) :
    ((unclosed text options).map (Scope.report text options)).Pairwise (·.place > ·.place) := by
  have hempty : Tokenizer.Descends 0 [] := List.pairwise_singleton _ _
  have hdescends := Tokenizer.descends_run options (Piece.split text.toList) hempty
  have hoffsets := List.pairwise_map.1 (List.pairwise_cons.1 hdescends).2
  refine List.pairwise_map.2 (hoffsets.imp_of_mem ?_)
  intro s t hs ht hgt
  obtain ⟨o, ho, hs, -⟩ := exists_occurrence_of_unclosed hs
  obtain ⟨q, hq, ht, -⟩ := exists_occurrence_of_unclosed ht
  rw [ho, hq] at hgt
  rw [hs, ht]
  exact Occurrence.place_lt_of_offset_lt hgt

/-- Reports in strict order are told apart by their places. -/
theorem error_eq_of_place_eq {es : List ParseError} (h : es.Pairwise (·.place > ·.place))
    {e e' : ParseError} (he : e ∈ es) (he' : e' ∈ es) (hplace : e.place = e'.place) : e = e' := by
  have hnodup : (es.map (·.place)).Nodup := by
    refine List.pairwise_map.2 (h.imp fun hgt heq => ?_)
    rw [heq] at hgt
    exact Place.lt_irrefl _ hgt
  exact List.inj_on_of_nodup_map hnodup he he' hplace

/-- The errors of a template are first the faults of its tags, in the order of these tags and at
    most one for each, and then its unclosed blocks, the last one opened first. Each error has the
    place of a tag, and an unclosed block that of the tag that opened it, which is not the tag of
    any other. -/
theorem errors_in_order (text : String) (options : Options) :
    ∃ faulty opened : List ParseError, (tokenize text options).errors = faulty ++ opened ∧
      (∀ e ∈ faulty, e.fault.unclosed? = none ∧ ∃ o : Occurrence text, e.place = o.place) ∧
      faulty.Pairwise (·.place < ·.place) ∧ opened.Pairwise (·.place > ·.place) ∧
      ∃ opening : {e // e ∈ opened} → Occurrence text, Function.Injective opening ∧
        ∀ e, e.1.place = (opening e).place ∧ ∃ path, e.1.fault = .unclosedBlock path ∧
          (opening e).tag.kind.opened? = some path.toList := by
  have hopening : ∀ e : {e // e ∈ (unclosed text options).map (Scope.report text options)},
      ∃ o : Occurrence text, e.1.place = o.place ∧ ∃ path, e.1.fault = .unclosedBlock path ∧
        o.tag.kind.opened? = some path.toList := by
    rintro ⟨e, he⟩
    obtain ⟨s, hs, rfl⟩ := List.mem_map.1 he
    obtain ⟨o, -, hplace, hopens⟩ := exists_occurrence_of_unclosed hs
    exact ⟨o, hplace, s.path, rfl, hopens.opened?⟩
  choose opening hplace hpath using hopening
  refine ⟨_, _, congrArg Tokenized.errors (tokenize_eq text options), ?_,
    pairwise_faulty text options, pairwise_reports text options, opening, ?_,
    fun e => ⟨hplace e, hpath e⟩⟩
  · intro e he
    obtain ⟨f, hf, rfl⟩ := List.mem_map.1 he
    obtain ⟨o, -, hplace⟩ := exists_occurrence_of_fault hf
    exact ⟨Tokenizer.unclosed?_run options 0 [] _ f hf, o, hplace⟩
  · intro e e' hsame
    have hequal : e.1.place = e'.1.place := by rw [hplace e, hplace e', hsame]
    exact Subtype.ext (error_eq_of_place_eq (pairwise_reports text options) e.2 e'.2 hequal)

/-- Two blocks left open behind a letter of two bytes, and faults between and behind them. -/
example : (tokenize "é{{#a}}
{{b c}}{{^d}}{{/a}}"
      {}).errors.map (fun e => (e.place, e.fault)) =
    [(⟨2, 1⟩, .invalidPath "b c"), (⟨2, 14⟩, .mismatchedClose "a" (some "d")),
      (⟨2, 8⟩, .unclosedBlock "d"), (⟨1, 2⟩, .unclosedBlock "a")] := by
  decide +kernel

end Stencil
