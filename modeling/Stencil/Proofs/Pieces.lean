import Stencil.Tag
/-
  Cutting a text into pieces, as the inverse of writing pieces one after the other. A list of
  pieces is `Normal` if the scanner would leave it as it is; `normal_split` and `split_flatten`
  make `split` and `flatten` inverse to each other on such lists. `clear_tag_iff` is what is left
  to check between a stretch of text and the tag after it: only one pattern of braces joins them.
-/

namespace Stencil

open Text

/-! ## Tags at the start of a text -/

namespace Tag

/-- The tags that can be read: something stands inside, and no brace does. -/
structure WellFormed (t : Tag) : Prop where
  ne_nil : t.interior ≠ []
  no_brace : ∀ c ∈ t.interior, isBrace c = false

theorem chars_double (cs : List Char) :
    (Tag.mk false cs).chars = '{' :: '{' :: (cs ++ ['}', '}']) := by
  simp [chars, depth, List.replicate]

theorem chars_triple (cs : List Char) :
    (Tag.mk true cs).chars = '{' :: '{' :: '{' :: (cs ++ ['}', '}', '}']) := by
  simp [chars, depth, List.replicate]

/-- A tag's text begins with two braces and ends with two. -/
theorem chars_eq_cons (t : Tag) : ∃ cs, t.chars = '{' :: '{' :: cs := by
  rcases t with ⟨_ | _, cs⟩
  · exact ⟨_, chars_double cs⟩
  · exact ⟨_, chars_triple cs⟩

theorem chars_ne_nil (t : Tag) : t.chars ≠ [] := by
  obtain ⟨cs, hcs⟩ := t.chars_eq_cons
  rw [hcs]
  exact List.cons_ne_nil _ _

theorem wellFormed_of_read? {triple : Bool} {cs rest : List Char} {t : Tag}
    (h : read? triple cs = some (t, rest)) : t.WellFormed ∧ t.triple = triple := by
  simp only [read?] at h
  split at h
  · simp at h
  · next inside hin =>
    split at h
    · simp at h
    · next rest' hre =>
      split at h
      · simp at h
      · next hne =>
        simp only [Option.some.injEq, Prod.mk.injEq] at h
        obtain ⟨rfl, rfl⟩ := h
        refine ⟨⟨hne, fun c hc => ?_⟩, rfl⟩
        simpa using List.all_eq_true.1 List.all_takeWhile c hc

theorem read?_chars_append {t : Tag} (h : t.WellFormed) (rest : List Char) :
    read? t.triple (t.chars ++ rest) = some (t, rest) := by
  have hall : ∀ c ∈ t.interior, (!isBrace c) = true := fun c hc => by simp [h.no_brace c hc]
  have hin : dropStart? (List.replicate (depth t.triple) '{') (t.chars ++ rest) =
      some (t.interior ++ (List.replicate (depth t.triple) '}' ++ rest)) := by
    rw [chars, List.append_assoc, List.append_assoc, dropStart?_append]
  obtain ⟨n, hn⟩ : ∃ n, depth t.triple = n + 1 := by
    unfold depth; split
    · exact ⟨2, rfl⟩
    · exact ⟨1, rfl⟩
  have htake : (t.interior ++ (List.replicate (depth t.triple) '}' ++ rest)).takeWhile
      (!isBrace ·) = t.interior := by
    rw [List.takeWhile_append_of_pos hall, hn, List.replicate_succ]
    simp [isBrace]
  have hdrop : (t.interior ++ (List.replicate (depth t.triple) '}' ++ rest)).dropWhile
      (!isBrace ·) = List.replicate (depth t.triple) '}' ++ rest := by
    rw [List.dropWhile_append_of_pos hall, hn, List.replicate_succ]
    simp [isBrace]
  simp only [read?, hin, htake, hdrop, dropStart?_append, if_neg h.ne_nil]

theorem read?_false_of_three (cs : List Char) : read? false ('{' :: '{' :: '{' :: cs) = none := by
  simp [read?, depth, List.replicate, dropStart?, isBrace]

/-- A tag is read exactly where a well-formed tag is written. -/
theorem first?_eq_some_iff {cs rest : List Char} {t : Tag} :
    first? cs = some (t, rest) ↔ t.WellFormed ∧ cs = t.chars ++ rest := by
  constructor
  · intro h
    refine ⟨?_, eq_append_of_first? h⟩
    rcases Option.or_eq_some_iff.1 h with h | ⟨_, h⟩ <;> exact (wellFormed_of_read? h).1
  · rintro ⟨ht, rfl⟩
    have hread := read?_chars_append ht rest
    rcases t with ⟨_ | _, cs⟩
    · exact Option.or_eq_some_iff.2 (.inl hread)
    · refine Option.or_eq_some_iff.2 (.inr ⟨?_, hread⟩)
      rw [chars_triple]
      exact read?_false_of_three _

theorem first?_eq_none_iff {cs : List Char} :
    first? cs = none ↔ ∀ t : Tag, t.WellFormed → ∀ rest, cs ≠ t.chars ++ rest := by
  constructor
  · intro h t ht rest hcs
    rw [first?_eq_some_iff.2 ⟨ht, hcs⟩] at h
    exact Option.some_ne_none _ h
  · intro h
    match hr : first? cs with
    | none => rfl
    | some (t, rest) =>
      obtain ⟨ht, hcs⟩ := first?_eq_some_iff.1 hr
      exact absurd hcs (h t ht rest)

end Tag

namespace Piece

/-! ## Text without tags -/

/-- No tag starts within `cs` when `rest` follows it. -/
def Clear (cs rest : List Char) : Prop :=
  ∀ s, s ≠ [] → s <:+ cs → Tag.first? (s ++ rest) = none

theorem clear_nil (rest : List Char) : Clear [] rest :=
  fun _ hs hsuf => absurd (List.suffix_nil.1 hsuf) hs

/-- A stretch of text is clear if its two parts are, the first one with the second after it. -/
theorem clear_append {cs ds rest : List Char} :
    Clear (cs ++ ds) rest ↔ Clear cs (ds ++ rest) ∧ Clear ds rest := by
  constructor
  · intro h
    refine ⟨fun s hs hsuf => ?_, fun s hs hsuf => h s hs (hsuf.trans (List.suffix_append cs ds))⟩
    obtain ⟨p, rfl⟩ := hsuf
    have hboth := h (s ++ ds) (by simp [hs]) ⟨p, by simp⟩
    rwa [List.append_assoc] at hboth
  · rintro ⟨hcs, hds⟩ s hs ⟨p, hp⟩
    rcases List.append_eq_append_iff.1 hp with ⟨t, rfl, rfl⟩ | ⟨t, -, rfl⟩
    · by_cases ht : t = []
      · subst ht
        exact hds ds hs List.suffix_rfl
      · have hboth := hcs t ht (List.suffix_append p t)
        rwa [← List.append_assoc] at hboth
    · exact hds s hs (List.suffix_append t s)

theorem clear_singleton {c : Char} {rest : List Char} :
    Clear [c] rest ↔ Tag.first? (c :: rest) = none := by
  constructor
  · exact fun h => h [c] (by simp) List.suffix_rfl
  · intro h s hs hsuf
    rcases List.suffix_cons_iff.1 hsuf with rfl | hnil
    · exact h
    · exact absurd (List.suffix_nil.1 hnil) hs

/-- Without an opening brace there is no tag, whatever follows. -/
theorem clear_of_no_brace {cs : List Char} (h : ∀ c ∈ cs, Tag.isBrace c = false)
    (rest : List Char) : Clear cs rest := by
  intro s hs hsuf
  rw [Tag.first?_eq_none_iff]
  intro t _ rest' heq
  obtain ⟨c, s, rfl⟩ := List.exists_cons_of_ne_nil hs
  obtain ⟨tail, htail⟩ := t.chars_eq_cons
  rw [htail, List.cons_append, List.cons_append, List.cons.injEq] at heq
  have := h c (hsuf.subset List.mem_cons_self)
  rw [heq.1] at this
  exact absurd this (by decide)

/-- What follows can only add tags. -/
theorem Clear.of_append {cs rest : List Char} (more : List Char)
    (h : Clear cs (rest ++ more)) : Clear cs rest := by
  intro s hs hsuf
  rw [Tag.first?_eq_none_iff]
  intro t ht tail heq
  refine Tag.first?_eq_none_iff.1 (h s hs hsuf) t ht (tail ++ more) ?_
  rw [← List.append_assoc, heq, List.append_assoc]

/-! ## Where text and a tag meet -/

/-- The first character after a tag's opening braces is none, whatever the tag. -/
theorem head_interior {t : Tag} (ht : t.WellFormed) {ending rest : List Char} :
    t.interior ++ ending ≠ '{' :: rest := by
  intro heq
  obtain ⟨c, cs, hcs⟩ := List.exists_cons_of_ne_nil ht.ne_nil
  rw [hcs, List.cons_append, List.cons.injEq] at heq
  have := ht.no_brace c (by rw [hcs]; exact List.mem_cons_self)
  rw [heq.1] at this
  exact absurd this (by decide)

/-- Two interiors with their closing braces: if the texts agree, so do the interiors. -/
theorem interior_inj {t u : Tag} (ht : t.WellFormed) (hu : u.WellFormed) {x y : List Char}
    (h : t.interior ++ '}' :: x = u.interior ++ '}' :: y) : t.interior = u.interior ∧ x = y := by
  have htake : ∀ {v : Tag} (_ : v.WellFormed) (z : List Char),
      (v.interior ++ '}' :: z).takeWhile (!Tag.isBrace ·) = v.interior := by
    intro v hv z
    rw [List.takeWhile_append_of_pos (fun c hc => by simp [hv.no_brace c hc])]
    simp [Tag.isBrace]
  have hint : t.interior = u.interior := by rw [← htake ht x, ← htake hu y, h]
  rw [hint] at h
  exact ⟨hint, (List.cons.inj (List.append_cancel_left h)).2⟩

theorem open_not_mem {t : Tag} (ht : t.WellFormed) {ending : List Char}
    (hend : '{' ∉ ending) : '{' ∉ t.interior ++ ending := by
  intro hmem
  rcases List.mem_append.1 hmem with h | h
  · exact absurd (ht.no_brace _ h) (by decide)
  · exact hend h

/-- A tag that is cut before two opening braces has three of them, and the cut is after the
    first. -/
theorem cut_in_braces {t : Tag} (ht : t.WellFormed) {s v rest tail : List Char} (hs : s ≠ [])
    (hcut : t.chars = s ++ '{' :: v) (hv : v ++ rest = '{' :: tail) :
    s = ['{'] ∧ t.triple = true := by
  have hhead : ∀ {ending}, v = t.interior ++ ending → False := by
    rintro ending rfl
    exact head_interior ht (by simpa using hv)
  have hmem : ∀ {p ending}, '{' ∉ ending → t.interior ++ ending = p ++ '{' :: v → False :=
    fun hend h => open_not_mem ht hend (by rw [h]; simp)
  obtain ⟨c, s, rfl⟩ := List.exists_cons_of_ne_nil hs
  obtain ⟨_ | _, interior⟩ := t
  · rw [Tag.chars_double, List.cons_append, List.cons.injEq] at hcut
    rcases s with _ | ⟨d, s⟩
    · exact (hhead (List.cons.inj hcut.2).2.symm).elim
    · exact (hmem (by decide) (List.cons.inj hcut.2).2).elim
  · rw [Tag.chars_triple, List.cons_append, List.cons.injEq] at hcut
    rcases s with _ | ⟨d, _ | ⟨e, s⟩⟩
    · exact ⟨by rw [← hcut.1], rfl⟩
    · exact (hhead (List.cons.inj (List.cons.inj hcut.2).2).2.symm).elim
    · exact (hmem (by decide) (List.cons.inj (List.cons.inj hcut.2).2).2).elim

/-- A tag that starts in the text before another one and reaches into it has a third brace before
    that one's two, and so has a third behind them. -/
theorem overlap {t u : Tag} (ht : t.WellFormed) (hu : u.WellFormed) {s v rest tail : List Char}
    (hs : s ≠ []) (hv : v ≠ []) (huv : u.chars = s ++ v) (htv : t.chars ++ rest = v ++ tail) :
    s = ['{'] ∧ t.triple = false ∧ rest = '}' :: tail := by
  obtain ⟨c, v, rfl⟩ := List.exists_cons_of_ne_nil hv
  obtain ⟨tcs, htcs⟩ := t.chars_eq_cons
  rw [htcs] at htv
  simp only [List.cons_append, List.cons.injEq] at htv
  obtain ⟨rfl, htv⟩ := htv
  obtain ⟨rfl, htriple⟩ := cut_in_braces hu hs huv htv.symm
  refine ⟨rfl, ?_⟩
  obtain ⟨_, inner⟩ := u
  obtain rfl : _ = true := htriple
  rw [Tag.chars_triple, List.singleton_append, List.cons.injEq, List.cons.injEq] at huv
  obtain ⟨-, -, rfl⟩ := huv
  rw [List.cons_append, List.cons.injEq, List.append_assoc] at htv
  obtain ⟨_ | _, interior⟩ := t
  · rw [Tag.chars_double, List.cons.injEq, List.cons.injEq] at htcs
    obtain ⟨-, -, rfl⟩ := htcs
    have hend := htv.2
    rw [List.append_assoc] at hend
    have hrest := (interior_inj ht hu hend).2
    exact ⟨rfl, (List.cons.inj hrest).2⟩
  · -- two tags of three braces cannot be one brace apart
    rw [Tag.chars_triple, List.cons.injEq, List.cons.injEq] at htcs
    obtain ⟨-, -, rfl⟩ := htcs
    exact absurd htv.2.symm (head_interior hu)

/-- Text stays clear of tags before a tag, unless a brace at its end and a brace after the tag
    make three of the tag's two. -/
theorem clear_tag_iff {cs rest : List Char} {t : Tag} (ht : t.WellFormed) :
    Clear cs (t.chars ++ rest) ↔
      Clear cs [] ∧ (t.triple = false → ['{'] <:+ cs → ∀ tail, rest ≠ '}' :: tail) := by
  constructor
  · intro h
    refine ⟨Clear.of_append (t.chars ++ rest) h, fun htriple hbrace tail hrest => ?_⟩
    have hnone := Tag.first?_eq_none_iff.1 (h ['{'] (by simp) hbrace) ⟨true, t.interior⟩
      ⟨ht.ne_nil, ht.no_brace⟩ tail
    obtain ⟨_, interior⟩ := t
    obtain rfl : _ = false := htriple
    apply hnone
    rw [hrest, Tag.chars_double, Tag.chars_triple]
    simp
  · rintro ⟨hclear, hjoin⟩ s hs hsuf
    rw [Tag.first?_eq_none_iff]
    intro u hu tail heq
    -- a tag `u` at `s` ends with the text, after it or before it
    rcases List.append_eq_append_iff.1 heq with ⟨v, huv, htv⟩ | ⟨v, hsv, -⟩
    · by_cases hv : v = []
      · refine Tag.first?_eq_none_iff.1 (hclear s hs hsuf) u hu [] ?_
        rw [huv, hv]; simp
      · obtain ⟨rfl, htriple, hrest⟩ := overlap ht hu hs hv huv htv
        exact hjoin htriple hsuf tail hrest
    · refine Tag.first?_eq_none_iff.1 (hclear s hs hsuf) u hu v ?_
      rw [List.append_nil]; exact hsv

/-! ## Steps of the scanner -/

theorem splitFrom_nil (gap : List Char) : splitFrom gap [] = ofGap gap := by rw [splitFrom]

theorem splitFrom_tag {t : Tag} (ht : t.WellFormed) (gap rest : List Char) :
    splitFrom gap (t.chars ++ rest) = ofGap gap ++ .tag t :: split rest := by
  obtain ⟨tcs, htcs⟩ := t.chars_eq_cons
  have hfirst : Tag.first? ('{' :: '{' :: (tcs ++ rest)) = some (t, rest) := by
    rw [Tag.first?_eq_some_iff]
    exact ⟨ht, by rw [htcs]; rfl⟩
  rw [htcs, List.cons_append, List.cons_append, splitFrom]
  split
  · next u rest' h =>
    obtain ⟨rfl, rfl⟩ : u = t ∧ rest' = rest := by
      simpa using Option.some.inj (h.symm.trans hfirst)
    rfl
  · next h => exact absurd (h.symm.trans hfirst) (by simp)

theorem splitFrom_cons {c : Char} {cs : List Char} (h : Tag.first? (c :: cs) = none)
    (gap : List Char) : splitFrom gap (c :: cs) = splitFrom (c :: gap) cs := by
  rw [splitFrom]
  split
  · next h' => exact absurd (h.symm.trans h') (by simp)
  · rfl

/-- The scanner takes text that is clear of tags into the gap. -/
theorem splitFrom_clear {cs rest : List Char} (h : Clear cs rest) (gap : List Char) :
    splitFrom gap (cs ++ rest) = splitFrom (cs.reverse ++ gap) rest := by
  induction cs generalizing gap with
  | nil => rfl
  | cons c cs ih =>
    have hc : Tag.first? (c :: (cs ++ rest)) = none := h (c :: cs) (by simp) List.suffix_rfl
    have hcs : Clear cs rest := fun s hs hsuf => h s hs (hsuf.trans (List.suffix_cons c cs))
    rw [List.cons_append, splitFrom_cons hc, ih hcs, List.reverse_cons, List.append_assoc,
      List.singleton_append]

/-! ## Normal pieces -/

/-- The text that pieces were cut from. -/
def flatten (ps : List Piece) : List Char := ps.flatMap chars

@[simp] theorem flatten_nil : flatten [] = [] := rfl

@[simp] theorem flatten_cons (p : Piece) (ps : List Piece) :
    flatten (p :: ps) = p.chars ++ flatten ps := rfl

@[simp] theorem flatten_append (ps qs : List Piece) :
    flatten (ps ++ qs) = flatten ps ++ flatten qs := List.flatMap_append

/-- Pieces that begin with a tag do not begin with a closing brace. -/
theorem flatten_tag_ne (t : Tag) (ps : List Piece) (tail : List Char) :
    flatten (.tag t :: ps) ≠ '}' :: tail := by
  obtain ⟨cs, hcs⟩ := t.chars_eq_cons
  rw [flatten_cons, chars, hcs]
  simp

def isText : Piece → Bool
  | .text _ => true
  | .tag _ => false

/-- Pieces as the scanner makes them: no text is empty, stands beside another text or has a tag
    start in it, and every tag can be read. -/
def Normal : List Piece → Prop
  | [] => True
  | .text cs :: ps =>
    cs ≠ [] ∧ Clear cs (flatten ps) ∧ (∀ p ∈ ps.head?, p.isText = false) ∧ Normal ps
  | .tag t :: ps => t.WellFormed ∧ Normal ps

theorem ofGap_reverse {cs : List Char} (h : cs ≠ []) : ofGap cs.reverse = [.text cs] := by
  obtain ⟨c, gap, hc⟩ := List.exists_cons_of_ne_nil (List.reverse_ne_nil_iff.2 h)
  rw [hc, ofGap, ← hc, List.reverse_reverse]
  simp

/-- Normal pieces are found again in the text they make up. -/
theorem split_flatten {ps : List Piece} (h : Normal ps) : split (flatten ps) = ps := by
  induction ps with
  | nil => exact splitFrom_nil []
  | cons p ps ih =>
    match p, ps, h with
    | .tag t, ps, ⟨ht, hps⟩ =>
      rw [flatten_cons, split, chars, splitFrom_tag ht, ih hps]
      rfl
    | .text cs, [], ⟨hcs, hclear, _, _⟩ =>
      rw [flatten_cons, split, chars, splitFrom_clear hclear, List.append_nil, flatten_nil,
        splitFrom_nil, ofGap_reverse hcs]
    | .text cs, .text ds :: ps, ⟨_, _, hhead, _⟩ => exact absurd (hhead _ rfl) (by simp [isText])
    | .text cs, .tag t :: ps, ⟨hcs, hclear, _, hps⟩ =>
      have ih := ih hps
      rw [flatten_cons, split, chars, splitFrom_tag hps.1] at ih
      have hrest : split (flatten ps) = ps := by simpa [ofGap] using ih
      rw [flatten_cons, split, chars, splitFrom_clear hclear, List.append_nil, flatten_cons, chars,
        splitFrom_tag hps.1, hrest, ofGap_reverse hcs]
      rfl

theorem flatten_ofGap (gap : List Char) : flatten (ofGap gap) = gap.reverse := by
  cases gap with
  | nil => rfl
  | cons c gap => simp [ofGap, chars]

/-- Nothing of the text is lost or moved. -/
theorem flatten_splitFrom (gap cs : List Char) :
    flatten (splitFrom gap cs) = gap.reverse ++ cs := by
  fun_induction splitFrom gap cs with
  | case1 gap => rw [flatten_ofGap, List.append_nil]
  | case2 gap c cs t rest h ih =>
    rw [flatten_append, flatten_cons, ih, flatten_ofGap, Tag.eq_append_of_first? h]
    rfl
  | case3 gap c cs h ih => rw [ih, List.reverse_cons, List.append_assoc, List.singleton_append]

theorem flatten_split (cs : List Char) : flatten (split cs) = cs := flatten_splitFrom [] cs

theorem normal_splitFrom (gap cs : List Char) (h : Clear gap.reverse cs) :
    Normal (splitFrom gap cs) := by
  have hgap : ∀ (gap : List Char) (ps : List Piece), Clear gap.reverse (flatten ps) → Normal ps →
      (∀ p ∈ ps.head?, p.isText = false) → Normal (ofGap gap ++ ps) := by
    intro gap ps hclear hps hhead
    cases gap with
    | nil => exact hps
    | cons c gap => exact ⟨by simp, hclear, hhead, hps⟩
  fun_induction splitFrom gap cs with
  | case1 gap => simpa using hgap gap [] h trivial (by simp)
  | case2 gap c cs t rest hfirst ih =>
    obtain ⟨ht, heq⟩ := Tag.first?_eq_some_iff.1 hfirst
    refine hgap gap _ ?_ ⟨ht, ih (clear_nil rest)⟩ (by simp [isText])
    rw [flatten_cons, flatten_splitFrom]
    exact heq ▸ h
  | case3 gap c cs hfirst ih =>
    refine ih ?_
    rw [List.reverse_cons, clear_append]
    exact ⟨h, clear_singleton.2 hfirst⟩

/-- The scanner's pieces are normal. -/
theorem normal_split (cs : List Char) : Normal (split cs) := normal_splitFrom [] cs (clear_nil cs)

/-! ## Pieces in place of others -/

theorem normal_tags {us : List Tag} {ps : List Piece} (hus : ∀ u ∈ us, u.WellFormed)
    (hps : Normal ps) : Normal (us.map .tag ++ ps) := by
  induction us with
  | nil => exact hps
  | cons u us ih =>
    exact ⟨hus u List.mem_cons_self, ih fun v hv => hus v (List.mem_cons_of_mem u hv)⟩

/-- Normal pieces that can stand wherever the others do, whatever text comes before them. -/
structure Replaces (qs ps : List Piece) : Prop where
  normal : Normal qs
  head : (∀ p ∈ ps.head?, p.isText = false) → ∀ q ∈ qs.head?, q.isText = false
  /-- A closing brace comes first only if it did. -/
  brace : (∀ tail, flatten ps ≠ '}' :: tail) → ∀ tail, flatten qs ≠ '}' :: tail
  clear : ∀ cs, Clear cs (flatten ps) → Clear cs (flatten qs)

theorem Replaces.nil : Replaces [] [] := ⟨trivial, id, id, fun _ => id⟩

theorem Replaces.text {cs : List Char} {qs ps : List Piece} (h : Replaces qs ps)
    (hps : Normal (.text cs :: ps)) : Replaces (.text cs :: qs) (.text cs :: ps) := by
  obtain ⟨hcs, hclear, hhead, -⟩ := hps
  refine ⟨⟨hcs, h.clear cs hclear, h.head hhead, h.normal⟩, fun hp q hq => ?_, ?_, ?_⟩
  · obtain rfl := Option.some.inj hq
    exact hp _ rfl
  · intro hbrace tail heq
    obtain ⟨c, cs, rfl⟩ := List.exists_cons_of_ne_nil hcs
    obtain rfl : c = '}' := (List.cons.inj heq).1
    exact hbrace (cs ++ flatten ps) rfl
  · intro ds hds
    have hboth := h.clear (ds ++ cs) (clear_append.2 ⟨hds, hclear⟩)
    exact (clear_append.1 hboth).1

/-- Tags can stand in place of one tag, if the first has three braces where that one has. -/
theorem Replaces.tags {t u : Tag} {us : List Tag} {qs ps : List Piece} (h : Replaces qs ps)
    (ht : t.WellFormed) (hus : ∀ v ∈ u :: us, v.WellFormed)
    (htriple : t.triple = true → u.triple = true) :
    Replaces ((u :: us).map .tag ++ qs) (.tag t :: ps) := by
  have hbrace : (∀ tail, flatten ps ≠ '}' :: tail) →
      ∀ tail, flatten (us.map .tag ++ qs) ≠ '}' :: tail := by
    intro hps tail heq
    cases us with
    | nil => exact h.brace hps tail heq
    | cons v us => exact flatten_tag_ne v _ tail heq
  refine ⟨normal_tags hus h.normal, fun _ q hq => ?_, fun _ => flatten_tag_ne u _, fun cs hcs => ?_⟩
  · obtain rfl := Option.some.inj hq
    rfl
  · -- if the first tag has two braces, so has `t`, and no brace follows it that did not follow `t`
    have hjoin := (clear_tag_iff ht).1 hcs
    refine (clear_tag_iff (hus u List.mem_cons_self)).2 ⟨hjoin.1, fun hu hsuf => ?_⟩
    have ht2 : t.triple = false := by
      cases htr : t.triple with
      | false => rfl
      | true => rw [htriple htr] at hu; exact hu
    exact hbrace (hjoin.2 ht2 hsuf)

end Piece

end Stencil
