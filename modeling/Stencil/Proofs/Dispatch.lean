import Stencil.Proofs.Reports
/-
  Which expander a tag goes to. `Claims` says it without a search: a high expander takes any tag,
  and where none does a medium or else a low one takes a tag that has no sigil, each time the first
  that is registered. A claimed tag is to the others what text would be in its place, so the blocks
  and the faults of a template are those of its other tags, read without any expander (`run_muted`).
  All of this asks for the expanders of one precedence at a time, so their order across precedences
  does not matter (`tokenize_dispatch`).
-/

namespace Stencil

open Text

/-! ## The expander of a tag -/

section Claims

variable (expanders : List Expander)

/-- The first expander of a precedence that takes the tag is `e`, and reads `path` from it. -/
def FirstOf (p : Precedence) (tag path : String) (e : Expander) : Prop :=
  ∃ before after, expanders = before ++ e :: after ∧ e.precedence = p ∧ e.expand tag = some path ∧
    ∀ d ∈ before, d.precedence = p → d.expand tag = none

/-- No expander of the precedence takes the tag. -/
def NoneOf (p : Precedence) (tag : String) : Prop :=
  ∀ e ∈ expanders, e.precedence = p → e.expand tag = none

/-- The characters that say what a tag is if they stand right behind its two braces. -/
def Tag.sigils : List Char := ['#', '^', '/', '&', '!']

/-- The tag has two braces on each side, and no sigil behind the first two. -/
def Tag.Bare (t : Tag) : Prop := t.triple = false ∧ ∀ c ∈ t.interior.head?, c ∉ sigils

/-- The tag goes to the expander `e`, which reads `path` from it. -/
inductive Claims (t : Tag) (path : String) (e : Expander) : Prop
  /-- A high expander takes any tag. -/
  | high (hfirst : FirstOf expanders .high t.text path e)
  | medium (hhigh : NoneOf expanders .high t.text) (hbare : t.Bare)
      (hfirst : FirstOf expanders .medium t.text path e)
  | low (hhigh : NoneOf expanders .high t.text) (hbare : t.Bare)
      (hmedium : NoneOf expanders .medium t.text) (hfirst : FirstOf expanders .low t.text path e)

def Claimed (t : Tag) : Prop := ∃ path e, Claims expanders t path e

end Claims

/-- Looking through what passes a test is looking only at what passes it. -/
theorem findSome?_filter {α β : Type} (p : α → Bool) (f : α → Option β) (xs : List α) :
    (xs.filter p).findSome? f = xs.findSome? fun x => if p x then f x else none := by
  induction xs with
  | nil => rfl
  | cons x xs ih =>
    cases hx : p x with
    | true => rw [List.filter_cons_of_pos hx, List.findSome?_cons, List.findSome?_cons, ih, hx]; rfl
    | false => rw [List.filter_cons_of_neg (by simp [hx]), List.findSome?_cons, ih, hx]; rfl

namespace Options

variable {options : Options} {p : Precedence} {tag path : String} {e : Expander}

theorem claim?_eq_some_iff :
    options.claim? p tag = some (path, e) ↔ FirstOf options.expanders p tag path e := by
  unfold claim?
  rw [findSome?_filter, List.findSome?_eq_some_iff]
  constructor
  · rintro ⟨before, d, after, heq, hd, hbefore⟩
    obtain ⟨hp, hd⟩ := Option.ite_none_right_eq_some.1 hd
    obtain ⟨path', hexpand, hpair⟩ := Option.map_eq_some_iff.1 hd
    obtain ⟨rfl, rfl⟩ := Prod.mk.inj hpair
    refine ⟨before, after, heq, of_decide_eq_true hp, hexpand, fun x hx hxp => ?_⟩
    have hnone := hbefore x hx
    rw [decide_eq_true hxp, if_pos rfl] at hnone
    exact Option.map_eq_none_iff.1 hnone
  · rintro ⟨before, after, heq, rfl, hexpand, hbefore⟩
    refine ⟨before, e, after, heq, by simp [hexpand], fun x hx => ?_⟩
    by_cases hxp : x.precedence = e.precedence
    · simp [hbefore x hx hxp]
    · simp [hxp]

theorem claim?_eq_none_iff :
    options.claim? p tag = none ↔ NoneOf options.expanders p tag := by
  unfold claim?
  simp only [List.findSome?_eq_none_iff, List.mem_filter, decide_eq_true_eq, and_imp,
    Option.map_eq_none_iff]
  rfl

end Options

namespace Tag

theorem head?_ne_of_bare {t : Tag} (h : t.Bare) {c : Char} (hc : c ∈ sigils) (rest : List Char) :
    t.interior ≠ c :: rest :=
  fun hcons => h.2 c (by rw [hcons]; rfl) hc

theorem kind_of_bare {t : Tag} (h : t.Bare) : t.kind = .plain (Text.trim t.interior) := by
  have heach : eachPath? t.interior = none := by
    cases hcs : t.interior with
    | nil => rfl
    | cons c cs =>
      refine eachPath?_of_head ?_ cs
      rintro rfl
      exact head?_ne_of_bare h (by simp [sigils]) cs hcs
  unfold kind
  rw [h.1, if_neg Bool.false_ne_true, heach]
  dsimp only
  split
  all_goals first
    | rfl
    | next hcs => exact absurd hcs (head?_ne_of_bare h (by simp [sigils]) _)

theorem bare_of_kind {t : Tag} {path : List Char} (h : t.kind = .plain path) : t.Bare := by
  unfold kind at h
  split at h
  · cases h
  next htriple =>
    split at h
    · cases h
    · split at h
      · split at h <;> cases h
      · cases h
      · cases h
      · cases h
      · cases h
      next hslash hhash hcaret hamp hbang =>
        refine ⟨Bool.eq_false_iff.2 htriple, fun c hc hsigil => ?_⟩
        obtain ⟨cs, hcs⟩ := List.head?_eq_some_iff.1 hc
        simp only [sigils, List.mem_cons, List.not_mem_nil, or_false] at hsigil
        rcases hsigil with rfl | rfl | rfl | rfl | rfl
        · exact hhash cs hcs
        · exact hcaret cs hcs
        · exact hslash cs hcs
        · exact hamp cs hcs
        · exact hbang cs hcs

end Tag

namespace Tokenizer

variable {options : Options} {t : Tag} {path : String} {e : Expander}

theorem claim?_of_bare (h : t.Bare) :
    claim? options t = (options.claim? .high t.text).or
      ((options.claim? .medium t.text).or (options.claim? .low t.text)) := by
  rw [claim?, Tag.kind_of_bare h]

theorem claim?_of_not_bare (h : ¬t.Bare) : claim? options t = options.claim? .high t.text := by
  unfold claim?
  split
  · next hkind => exact absurd (Tag.bare_of_kind hkind) h
  · exact Option.or_none

theorem claim?_eq_some_iff :
    claim? options t = some (path, e) ↔ Claims options.expanders t path e := by
  by_cases hbare : t.Bare
  · rw [claim?_of_bare hbare]
    simp only [Option.or_eq_some_iff, Options.claim?_eq_some_iff, Options.claim?_eq_none_iff]
    constructor
    · rintro (h | ⟨hhigh, h | ⟨hmedium, h⟩⟩)
      · exact .high h
      · exact .medium hhigh hbare h
      · exact .low hhigh hbare hmedium h
    · rintro (h | ⟨hhigh, -, h⟩ | ⟨hhigh, -, hmedium, h⟩)
      · exact .inl h
      · exact .inr ⟨hhigh, .inl h⟩
      · exact .inr ⟨hhigh, .inr ⟨hmedium, h⟩⟩
  · rw [claim?_of_not_bare hbare, Options.claim?_eq_some_iff]
    constructor
    · exact .high
    · rintro (h | ⟨-, hbare', -⟩ | ⟨-, hbare', -, -⟩)
      · exact h
      · exact absurd hbare' hbare
      · exact absurd hbare' hbare

theorem claim?_eq_none_iff : claim? options t = none ↔ ¬Claimed options.expanders t := by
  rw [Option.eq_none_iff_forall_ne_some]
  constructor
  · rintro h ⟨path, e, hclaims⟩
    exact h (path, e) (claim?_eq_some_iff.2 hclaims)
  · rintro h ⟨path, e⟩ hclaim
    exact h ⟨path, e, claim?_eq_some_iff.1 hclaim⟩

theorem step_of_claims (h : Claims options.expanders t path e) (scopes : List Scope)
    (offset : Nat) : step options scopes offset t = ⟨scopes, [.custom path e], none⟩ := by
  rw [step, claim?_eq_some_iff.2 h]

theorem step_of_not_claimed (h : ¬Claimed options.expanders t) (scopes : List Scope)
    (offset : Nat) : step options scopes offset t = builtIn scopes offset t.kind := by
  rw [step, claim?_eq_none_iff.2 h]

theorem custom_mem_step_iff (scopes : List Scope) (offset : Nat) :
    .custom path e ∈ (step options scopes offset t).tokens ↔ Claims options.expanders t path e := by
  constructor
  · intro hmem
    by_cases hclaimed : Claimed options.expanders t
    · obtain ⟨path', e', hclaims⟩ := hclaimed
      rw [step_of_claims hclaims] at hmem
      cases List.mem_singleton.1 hmem
      exact hclaims
    · rw [step_of_not_claimed hclaimed] at hmem
      exact absurd hmem (custom_not_mem_builtIn scopes offset t.kind path e)
  · intro hclaims
    rw [step_of_claims hclaims]
    exact List.mem_singleton_self _

end Tokenizer

instance (expanders : List Expander) (t : Tag) : Decidable (Claimed expanders t) :=
  decidable_of_iff (Tokenizer.claim? { expanders } t ≠ none)
    (Iff.trans (not_congr Tokenizer.claim?_eq_none_iff) not_not)

/-! ## Without the claimed tags -/

/-- The same options with no expanders. -/
def Options.builtInOnly (options : Options) : Options := { options with expanders := [] }

/-- A piece as it is, but for a tag that an expander takes: that one is text. -/
def Piece.muted (expanders : List Expander) : Piece → Piece
  | .text cs => .text cs
  | .tag t => if Claimed expanders t then .text t.chars else .tag t

namespace Tokenizer

/-- A run without its tokens: what is wrong in it, and what it leaves open. -/
theorem run_muted (options : Options) (offset : Nat) (scopes : List Scope) (ps : List Piece) :
    let muted := run options.builtInOnly offset scopes (ps.map (.muted options.expanders))
    (run options offset scopes ps).faults = muted.faults ∧
      (run options offset scopes ps).scopes = muted.scopes := by
  induction ps generalizing offset scopes with
  | nil => exact ⟨rfl, rfl⟩
  | cons p ps ih =>
    cases p with
    | text cs => exact ih (offset + byteSize cs) scopes
    | tag t =>
      by_cases hclaimed : Claimed options.expanders t
      · -- a claimed tag takes as much room as a text in its place, and leaves all else as it is
        obtain ⟨path, e, hclaims⟩ := hclaimed
        obtain ⟨hfaults, hscopes⟩ := ih (offset + byteSize t.chars) scopes
        have hmuted : Piece.muted options.expanders (.tag t) = .text t.chars :=
          if_pos ⟨path, e, hclaims⟩
        rw [List.map_cons, hmuted]
        simp only [run, step_of_claims hclaims]
        exact ⟨hfaults, hscopes⟩
      · have hmuted : Piece.muted options.expanders (.tag t) = .tag t := if_neg hclaimed
        have hstep : step options.builtInOnly scopes offset t = builtIn scopes offset t.kind :=
          step_of_no_expanders rfl scopes offset t
        obtain ⟨hfaults, hscopes⟩ := ih (offset + byteSize t.chars)
          (builtIn scopes offset t.kind).scopes
        rw [List.map_cons, hmuted]
        simp only [run, step_of_not_claimed hclaimed, hstep]
        exact ⟨congrArg _ hfaults, hscopes⟩

/-- A run asks of its options only which expander a tag goes to. -/
theorem run_congr {options other : Options} (h : ∀ t, claim? options t = claim? other t)
    (offset : Nat) (scopes : List Scope) (ps : List Piece) :
    run options offset scopes ps = run other offset scopes ps := by
  induction ps generalizing offset scopes with
  | nil => rfl
  | cons p ps ih =>
    cases p with
    | text cs => rw [run, run, ih]
    | tag t =>
      have hstep : step options scopes offset t = step other scopes offset t := by
        rw [step, step, h]
      rw [run, run, hstep, ih]

end Tokenizer

theorem tokenize_congr {options other : Options}
    (h : ∀ t, Tokenizer.claim? options t = Tokenizer.claim? other t)
    (hname : options.sourceName = other.sourceName) (text : String) :
    tokenize text options = tokenize text other := by
  unfold tokenize
  rw [Tokenizer.run_congr h, hname]

/-- The order of expanders matters only among those of one precedence. -/
theorem Tokenizer.claim?_congr {options other : Options}
    (h : ∀ p, options.expanders.filter (·.precedence = p) =
      other.expanders.filter (·.precedence = p)) (t : Tag) : claim? options t = claim? other t := by
  have hclaim : ∀ p, options.claim? p t.text = other.claim? p t.text := by
    intro p
    unfold Options.claim?
    rw [h p]
  unfold claim?
  rw [hclaim, hclaim, hclaim]

/-! ## Tags where they stand -/

namespace Piece

theorem spans_append (offset : Nat) (ps qs : List Piece) :
    spans offset (ps ++ qs) = spans offset ps ++ spans (offset + byteSize (flatten ps)) qs := by
  induction ps generalizing offset with
  | nil => rfl
  | cons p ps ih =>
    rw [flatten_cons, byteSize_append, ← Nat.add_assoc]
    cases p with
    | text cs => exact ih (offset + byteSize cs)
    | tag t => exact congrArg _ (ih (offset + byteSize t.chars))

theorem mem_spans (offset : Nat) (before : List Piece) (t : Tag) (after : List Piece) :
    (offset + byteSize (flatten before), offset + byteSize (flatten before) + byteSize t.chars) ∈
      spans offset (before ++ .tag t :: after) := by
  rw [spans_append]
  exact List.mem_append_right _ List.mem_cons_self

/-- Every span is that of a tag among the pieces. -/
theorem exists_of_mem_spans {ps : List Piece} {offset : Nat} {s : Nat × Nat}
    (h : s ∈ spans offset ps) : ∃ before t after, ps = before ++ .tag t :: after ∧
      s = (offset + byteSize (flatten before),
        offset + byteSize (flatten before) + byteSize t.chars) := by
  induction ps generalizing offset with
  | nil => exact absurd h List.not_mem_nil
  | cons p ps ih =>
    by_cases hrest : s ∈ spans (offset + byteSize p.chars) ps
    · obtain ⟨before, t, after, rfl, rfl⟩ := ih hrest
      refine ⟨p :: before, t, after, rfl, ?_⟩
      rw [flatten_cons, byteSize_append, Nat.add_assoc offset]
    · cases p with
      | text cs => exact absurd h hrest
      | tag t =>
        obtain rfl := (List.mem_cons.1 h).resolve_right hrest
        exact ⟨[], t, ps, rfl, rfl⟩

end Piece

namespace Occurrence

variable {text : String}

/-- The bytes that the tag takes. -/
def span (o : Occurrence text) : Nat × Nat := (o.offset, o.offset + byteSize o.tag.chars)

theorem mem_tagSpans_iff {s : Nat × Nat} :
    s ∈ tagSpans text ↔ ∃ o : Occurrence text, o.span = s := by
  have hzero : ∀ before, 0 + byteSize (Piece.flatten before) = byteSize (Piece.flatten before) :=
    fun _ => Nat.zero_add _
  constructor
  · intro hs
    obtain ⟨before, t, after, hsplit, rfl⟩ := Piece.exists_of_mem_spans hs
    refine ⟨⟨before, t, after, hsplit⟩, ?_⟩
    rw [hzero]
    rfl
  · rintro ⟨o, rfl⟩
    have hmem := Piece.mem_spans 0 o.before o.tag o.after
    rwa [hzero, ← o.split_eq] at hmem

/-- What the tag does, behind all that stands before it. -/
def effect (o : Occurrence text) (options : Options) : Effect :=
  Tokenizer.step options (Tokenizer.run options 0 [] o.before).scopes o.offset o.tag

/-- The blocks that are open before the tag, if only the unclaimed tags are read, and without
    expanders. -/
def openBlocks (o : Occurrence text) (options : Options) : List Scope :=
  (Tokenizer.run options.builtInOnly 0 [] (o.before.map (.muted options.expanders))).scopes

/-- What becomes of a tag of a template. -/
structure Dispatched (o : Occurrence text) (options : Options) : Prop where
  /-- Its effect is its part of the run, between the pieces before it and those behind it. -/
  run_eq :
    let before := Tokenizer.run options 0 [] o.before
    let after := Tokenizer.run options (o.offset + byteSize o.tag.chars) (o.effect options).scopes
      o.after
    tokenizerRun text options = ⟨before.tokens ++ ((o.effect options).tokens ++ after.tokens),
      before.faults ++ ((o.effect options).fault.toList.map (o.offset, ·) ++ after.faults),
      after.scopes⟩
  custom_iff : ∀ path e, .custom path e ∈ (o.effect options).tokens ↔
    Claims options.expanders o.tag path e
  /-- A claimed tag is a custom token and nothing else. -/
  of_claims : ∀ path e, Claims options.expanders o.tag path e →
    o.effect options = ⟨o.openBlocks options, [.custom path e], none⟩
  /-- Any other tag does what it does without expanders, inside the blocks that such tags opened. -/
  of_not_claimed : ¬Claimed options.expanders o.tag →
    o.effect options = Tokenizer.step options.builtInOnly (o.openBlocks options) o.offset o.tag

theorem dispatched (o : Occurrence text) (options : Options) : o.Dispatched options where
  run_eq := by
    have hoffset : 0 + byteSize (Piece.flatten o.before) = o.offset := Nat.zero_add _
    intro before after
    rw [tokenizerRun, o.split_eq, Tokenizer.run_append, hoffset]
    rfl
  custom_iff path e := Tokenizer.custom_mem_step_iff _ _
  of_claims path e h := by
    rw [effect, Tokenizer.step_of_claims h, (Tokenizer.run_muted options 0 [] o.before).2]
    rfl
  of_not_claimed h := by
    rw [effect, Tokenizer.step_of_not_claimed h, (Tokenizer.run_muted options 0 [] o.before).2,
      Tokenizer.step_of_no_expanders rfl]
    rfl

end Occurrence

/-- The run over a template that takes claimed tags for text and has no expanders. -/
def mutedRun (text : String) (options : Options) : Tokenizer.Run :=
  Tokenizer.run options.builtInOnly 0 []
    ((Piece.split text.toList).map (.muted options.expanders))

/-- The spans of a template hold its tags. Each tag goes to the expander that claims it, as a custom
    token with the path that this one reads; a tag that none claims does what it does without any
    expanders, inside the blocks that are left open by the unclaimed tags before it. The errors are
    those of the unclaimed tags alone. So expanders may be registered in any order that keeps those
    of one precedence in theirs. -/
theorem tokenize_dispatch (text : String) (options : Options) :
    (∀ s, s ∈ tagSpans text ↔ ∃ o : Occurrence text, o.span = s) ∧
      (∀ o : Occurrence text, o.Dispatched options) ∧
      (tokenize text options).errors =
        (mutedRun text options).faults.map (fun f => reportAt text options f.1 f.2) ++
          (mutedRun text options).scopes.map (Scope.report text options) ∧
      ∀ expanders : List Expander,
        (∀ p, expanders.filter (·.precedence = p) = options.expanders.filter (·.precedence = p)) →
          tokenize text { options with expanders } = tokenize text options := by
  refine ⟨fun s => Occurrence.mem_tagSpans_iff, fun o => o.dispatched options, ?_,
    fun expanders h => ?_⟩
  · obtain ⟨hfaults, hscopes⟩ := Tokenizer.run_muted options 0 [] (Piece.split text.toList)
    rw [tokenize_eq, unclosed, tokenizerRun, hfaults, hscopes, mutedRun]
  · have hclaim : ∀ t, Tokenizer.claim? { options with expanders } t = Tokenizer.claim? options t :=
      Tokenizer.claim?_congr h
    exact tokenize_congr hclaim rfl text

/-- Takes one tag, and reads its own name as the path. -/
def taking (tag name : String) (p : Precedence) : Expander where
  id := 0
  name := name
  precedence := p
  expand t := if t = tag then some name else none
  render _ _ := .finish

/-- A section of which the opening tag and the value are taken, the value by two. -/
def takenSection : String := "\x7b\x7b#x\x7d\x7d\x7b\x7by\x7d\x7d\x7b\x7b/x\x7d\x7d"

def takingValue (p : Precedence) (name : String) : Expander := taking "\x7b\x7by\x7d\x7d" name p

def takingOpening : Expander := taking "\x7b\x7b#x\x7d\x7d" "opening" .high

/-- With its opening tag taken, a section is not there for the tag that would close it. -/
theorem tokenize_dispatch_takenSection :
    let low := takingValue .low "late"
    let medium := takingValue .medium "soon"
    let r := tokenize takenSection { expanders := [takingOpening, medium, low] }
    tokenize takenSection { expanders := [low, takingOpening, medium] } = r ∧
      r.tokens = [.custom "opening" takingOpening, .custom "soon" medium] ∧
      r.errors.map (·.fault) = [.mismatchedClose "x" none] := by
  intro low medium r
  obtain ⟨-, -, -, hreorder⟩ :=
    tokenize_dispatch takenSection { expanders := [takingOpening, medium, low] }
  refine ⟨hreorder _ fun p => ?_, by with_unfolding_all rfl, by decide +kernel⟩
  cases p <;> rfl

end Stencil
