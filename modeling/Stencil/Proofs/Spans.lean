import Stencil.Proofs.Bytes
import Stencil.Proofs.Moves
import Stencil.Proofs.TagScanner
/-
  The scanner over the bytes of a text. What it matches there are the tags of the text
  (`matchAt?_eq_some_iff`), and it comes upon them as the text is cut into pieces
  (`findFrom_flatten`). So its spans are the leftmost tags, and what the tokenizer keeps as text is
  what lies between them.
-/

namespace Stencil

open Text

/-! ## Tags in the bytes of a text -/

theorem Tag.chars_append_inj {t u : Tag} (ht : t.WellFormed) (hu : u.WellFormed)
    {as bs : List Char} (h : t.chars ++ as = u.chars ++ bs) : t = u ∧ as = bs := by
  have hfirst := Tag.first?_eq_some_iff.2 ⟨ht, h.symm⟩
  rw [Tag.first?_eq_some_iff.2 ⟨hu, rfl⟩] at hfirst
  obtain ⟨rfl, rfl⟩ := Prod.mk.inj (Option.some.inj hfirst)
  exact ⟨rfl, rfl⟩

namespace TagScanner

theorem isBrace_toUInt8 {c : Char} (hc : c.toNat < 128) :
    isBrace c.toUInt8 = Tag.isBrace c := by
  have hbrace : ∀ d : Char, d.toNat < 128 → (c.toUInt8 == d.toUInt8) = (c == d) := by
    intro d hd
    rw [Bool.eq_iff_iff, beq_iff_eq, beq_iff_eq]
    exact ⟨toUInt8_inj hc hd, congrArg Char.toUInt8⟩
  rw [isBrace, Tag.isBrace, hbrace '{' (by decide), hbrace '}' (by decide)]

/-- Characters are no braces if their bytes are none. -/
theorem no_brace_bytes_iff {cs : List Char} :
    (∀ b ∈ bytes cs, isBrace b = false) ↔ ∀ c ∈ cs, Tag.isBrace c = false := by
  have hbyte : ∀ b, isBrace b = true → b.toNat < 128 := by
    intro b hb
    rw [isBrace, Bool.or_eq_true, beq_iff_eq, beq_iff_eq] at hb
    rcases hb with rfl | rfl <;> decide
  have hchar : ∀ c, Tag.isBrace c = true → c.toNat < 128 := by
    intro c hc
    rw [Tag.isBrace, Bool.or_eq_true, beq_iff_eq, beq_iff_eq] at hc
    rcases hc with rfl | rfl <;> decide
  constructor
  · intro h c hc
    by_contra hbr
    have hlt := hchar c (by simpa using hbr)
    have hmem : c.toUInt8 ∈ bytes cs :=
      List.mem_flatMap.2 ⟨c, hc, by rw [encode_ascii hlt]; exact List.mem_singleton_self _⟩
    have hnot := h _ hmem
    rw [isBrace_toUInt8 hlt] at hnot
    exact hbr hnot
  · intro h b hb
    by_contra hbr
    obtain ⟨c, hc, hb⟩ := List.mem_flatMap.1 hb
    have hlt := ascii_of_mem_encode hb (hbyte b (by simpa using hbr))
    rw [encode_ascii hlt] at hb
    obtain rfl := List.mem_singleton.1 hb
    rw [isBrace_toUInt8 hlt] at hbr
    exact hbr (h c hc)

/-- A tag of the text from byte `start` to byte `stop`. -/
def TagAt (cs : List Char) (start stop : Nat) : Prop :=
  ∃ (before : List Char) (t : Tag) (after : List Char), t.WellFormed ∧
    cs = before ++ (t.chars ++ after) ∧ start = byteSize before ∧ stop = start + byteSize t.chars

theorem depth_eq_succ (triple : Bool) : Tag.depth triple = (Tag.depth triple - 1) + 1 := by
  cases triple <;> rfl

theorem byteSize_replicate {c : Char} (hc : c.toNat < 128) (n : Nat) :
    byteSize (List.replicate n c) = n := by
  rw [← length_bytes, bytes_replicate hc, List.length_replicate]

theorem byteSize_chars (t : Tag) :
    byteSize t.chars = Tag.depth t.triple + byteSize t.interior + Tag.depth t.triple := by
  rw [Tag.chars, byteSize_append, byteSize_append, byteSize_replicate (by decide),
    byteSize_replicate (by decide)]

/-- What is matched in the bytes of a text is a tag of it. -/
theorem exists_tag_of_matchTag? {cs : List Char} (triple : Bool) {start stop : Nat}
    (h : matchTag? (bytes cs) start (Tag.depth triple) = some stop) :
    ∃ (before : List Char) (t : Tag) (after : List Char), t.WellFormed ∧ t.triple = triple ∧
      cs = before ++ (t.chars ++ after) ∧ start = byteSize before ∧
      stop = start + byteSize t.chars := by
  rw [depth_eq_succ] at h
  obtain ⟨interior, rest, hdrop, hne, hinterior, rfl⟩ := matchTag?_eq_some_iff.1 h
  have hstart : start ≤ (bytes cs).length := by
    have hlength := congrArg List.length hdrop
    simp only [List.length_drop, List.length_append, List.length_replicate] at hlength
    omega
  have hcs : bytes cs = (bytes cs).take start ++ _ := (List.take_append_drop start _).symm
  rw [hdrop] at hcs
  obtain ⟨before, inside, rfl, hbefore, hinside⟩ := cut_at_run (by decide) hcs
  obtain ⟨interior, after, rfl, rfl, rfl⟩ := cut_at_run (by decide) hinside
  refine ⟨before, ⟨triple, interior⟩, after, ⟨?_, no_brace_bytes_iff.1 hinterior⟩, rfl, ?_, ?_, ?_⟩
  · rintro rfl
    exact hne rfl
  · rw [Tag.chars, ← depth_eq_succ]
    simp only [List.append_assoc]
  · rw [← length_bytes, hbefore, List.length_take, Nat.min_eq_left hstart]
  · have hsize := byteSize_chars ⟨triple, interior⟩
    dsimp only at hsize
    rw [hsize, length_bytes, ← depth_eq_succ]
    omega

theorem matchTag?_chars {t : Tag} (ht : t.WellFormed) (before after : List Char) :
    matchTag? (bytes (before ++ (t.chars ++ after))) (byteSize before) (Tag.depth t.triple) =
      some (byteSize before + byteSize t.chars) := by
  rw [depth_eq_succ]
  refine matchTag?_eq_some_iff.2 ⟨bytes t.interior, bytes after, ?_, ?_,
    no_brace_bytes_iff.2 ht.no_brace, ?_⟩
  · rw [bytes_append, ← length_bytes, List.drop_left, Tag.chars, ← depth_eq_succ]
    simp only [bytes_append, bytes_replicate (show '{'.toNat < 128 by decide),
      bytes_replicate (show '}'.toNat < 128 by decide), List.append_assoc]
  · exact fun h => ht.ne_nil (bytes_eq_nil h)
  · rw [byteSize_chars, length_bytes, ← depth_eq_succ]
    omega

/-- The matches in the bytes of a text are its tags. -/
theorem matchAt?_eq_some_iff {cs : List Char} {start stop : Nat} :
    matchAt? (bytes cs) start = some stop ↔ TagAt cs start stop := by
  constructor
  · intro h
    rcases Option.or_eq_some_iff.1 h with h | ⟨-, h⟩
    · obtain ⟨before, t, after, ht, -, hcs, hstart⟩ := exists_tag_of_matchTag? false h
      exact ⟨before, t, after, ht, hcs, hstart⟩
    · obtain ⟨before, t, after, ht, -, hcs, hstart⟩ := exists_tag_of_matchTag? true h
      exact ⟨before, t, after, ht, hcs, hstart⟩
  · rintro ⟨before, t, after, ht, rfl, rfl, rfl⟩
    have hmatch := matchTag?_chars ht before after
    cases htriple : t.triple with
    | false =>
      rw [htriple] at hmatch
      exact Option.or_eq_some_iff.2 (.inl hmatch)
    | true =>
      rw [htriple] at hmatch
      refine Option.or_eq_some_iff.2 (.inr ⟨?_, hmatch⟩)
      -- two braces would be a different tag at the same place
      by_contra hdouble
      obtain ⟨stop, hstop⟩ := Option.ne_none_iff_exists'.1 hdouble
      obtain ⟨front, u, rest, hu, hdouble, hcs, hsize, -⟩ :=
        exists_tag_of_matchTag? false hstop
      obtain ⟨-, hrest⟩ := eq_of_byteSize_eq hcs hsize
      obtain ⟨rfl, -⟩ := Tag.chars_append_inj ht hu hrest
      rw [htriple] at hdouble
      simp at hdouble

/-! ## The spans of a text -/

/-- Where text is clear of tags, nothing is matched. -/
theorem matchAt?_of_clear {cs ds rest : List Char} (h : Piece.Clear ds rest) {i : Nat}
    (hle : byteSize cs ≤ i) (hlt : i < byteSize (cs ++ ds)) :
    matchAt? (bytes (cs ++ (ds ++ rest))) i = none := by
  by_contra hsome
  obtain ⟨stop, hstop⟩ := Option.ne_none_iff_exists'.1 hsome
  obtain ⟨before, t, after, ht, hcs, rfl, -⟩ := matchAt?_eq_some_iff.1 hstop
  obtain ⟨front, rfl, hfront⟩ := exists_of_byteSize_le hcs hle
  rw [byteSize_append, byteSize_append] at hlt
  obtain ⟨back, rfl, hback⟩ := exists_of_byteSize_le hfront.symm (by omega)
  have hne : back ≠ [] := by
    rintro rfl
    simp at hlt
  have hnone := h back hne (List.suffix_append front back)
  rw [Tag.first?_eq_some_iff.2 ⟨ht, hback.symm⟩] at hnone
  simp at hnone

/-- The scanner finds the tags among normal pieces, whatever stands before them. -/
theorem findFrom_flatten {ps : List Piece} (h : Piece.Normal ps) (cs : List Char) :
    findFrom (bytes (cs ++ Piece.flatten ps)) (byteSize cs) = Piece.spans (byteSize cs) ps := by
  induction ps generalizing cs with
  | nil =>
    rw [Piece.flatten_nil, List.append_nil, ← length_bytes, findFrom_length]
    rfl
  | cons p ps ih =>
    rw [Piece.flatten_cons]
    cases p with
    | text ds =>
      obtain ⟨-, hclear, -, hps⟩ := h
      have hrest := ih hps (cs ++ ds)
      rw [List.append_assoc] at hrest
      rw [Piece.spans, ← byteSize_append, ← hrest]
      refine findFrom_skip ?_ ?_ fun i hle hlt => matchAt?_of_clear hclear hle hlt
      · rw [byteSize_append]
        exact Nat.le_add_right _ _
      · simp only [Piece.chars, length_bytes, byteSize_append]
        omega
    | tag t =>
      obtain ⟨ht, hps⟩ := h
      have hrest := ih hps (cs ++ t.chars)
      rw [List.append_assoc, byteSize_append] at hrest
      have hmatch := matchAt?_eq_some_iff.2 ⟨cs, t, Piece.flatten ps, ht, rfl, rfl, rfl⟩
      rw [Piece.chars, findFrom_of_match hmatch, Piece.spans, hrest]

theorem findTags_eq_tagSpans (text : String) : findTags (utf8 text) = tagSpans text := by
  have hspans := findFrom_flatten (Piece.normal_split text.toList) []
  rwa [List.nil_append, Piece.flatten_split, ← utf8_eq_bytes] at hspans

/-! ## Between the tags -/

/-- The stretches before, between and behind some spans of a text that ends at `stop`. -/
def gaps (position stop : Nat) : List (Nat × Nat) → List (Nat × Nat)
  | [] => [(position, stop)]
  | s :: rest => (position, s.1) :: gaps s.2 stop rest

/-- The gaps and the spans, one after the other. -/
def stretches (position stop : Nat) : List (Nat × Nat) → List (Nat × Nat)
  | [] => [(position, stop)]
  | s :: rest => (position, s.1) :: s :: stretches s.2 stop rest

def slice (bytes : List UInt8) (s : Nat × Nat) : List UInt8 := (bytes.take s.2).drop s.1

theorem slice_bytes (cs ds rest : List Char) :
    slice (bytes (cs ++ (ds ++ rest))) (byteSize cs, byteSize (cs ++ ds)) = bytes ds := by
  have htake : (bytes (cs ++ (ds ++ rest))).take (byteSize (cs ++ ds)) = bytes (cs ++ ds) := by
    rw [← List.append_assoc, bytes_append _ rest, List.take_left' (length_bytes _)]
  rw [slice, htake, bytes_append, List.drop_left' (length_bytes _)]

theorem slice_append {bytes : List UInt8} {a b c : Nat} (hab : a ≤ b) (hbc : b ≤ c)
    (hc : c ≤ bytes.length) : slice bytes (a, b) ++ slice bytes (b, c) = slice bytes (a, c) := by
  have hb : (bytes.take b).length = b := by
    rw [List.length_take, Nat.min_eq_left (Nat.le_trans hbc hc)]
  have htake : bytes.take c = bytes.take b ++ (bytes.take c).drop b := by
    rw [← Nat.min_eq_left hbc, ← List.take_take, Nat.min_eq_left hbc, List.take_append_drop]
  have hcut : (bytes.take c).drop a = (bytes.take b).drop a ++ (bytes.take c).drop b := by
    rw [htake, List.drop_append_of_le_length (by rw [hb]; exact hab), ← htake]
  exact hcut.symm

/-- Stretches in order, joined, are what lies from the first to the last. -/
theorem flatMap_stretches {bytes : List UInt8} {spans : List (Nat × Nat)} {position : Nat}
    (hle : ∀ s ∈ spans, position ≤ s.1)
    (hspans : ∀ s ∈ spans, s.1 < s.2 ∧ s.2 ≤ bytes.length)
    (hpairs : spans.Pairwise fun a b => a.2 ≤ b.1) :
    (stretches position bytes.length spans).flatMap (slice bytes) =
      slice bytes (position, bytes.length) := by
  induction spans generalizing position with
  | nil => exact List.append_nil _
  | cons s spans ih =>
    obtain ⟨hlater, hrest⟩ := List.pairwise_cons.1 hpairs
    obtain ⟨hlt, hlength⟩ := hspans s List.mem_cons_self
    have hjoin := ih hlater (fun r hr => hspans r (List.mem_cons_of_mem s hr)) hrest
    rw [stretches, List.flatMap_cons, List.flatMap_cons, hjoin,
      slice_append (Nat.le_of_lt hlt) hlength (Nat.le_refl _),
      slice_append (hle s List.mem_cons_self) (by omega) (Nat.le_refl _)]

end TagScanner

/-! ## The text of a template -/

/-- The text of a token that is no tag. -/
def Token.content? : Token → Option String
  | .content text => some text
  | _ => none

/-- The text of a piece that is no tag. -/
def Piece.content? : Piece → Option String
  | .text cs => some (String.ofList cs)
  | .tag _ => none

namespace Tokenizer

theorem content_step (options : Options) (scopes : List Scope) (offset : Nat) (t : Tag) :
    (step options scopes offset t).tokens.filterMap Token.content? = [] := by
  have hmove := move_step options scopes offset t
  generalize step options scopes offset t = effect at hmove ⊢
  cases hmove with
  | value ht => rcases ht with rfl | rfl <;> rfl
  | openSection ht => rcases ht with rfl | rfl <;> rfl
  | reopen ht => rcases ht with rfl | rfl <;> rfl
  | _ => rfl

/-- The text that is kept is that of the pieces, whatever the tags do. -/
theorem content_run (options : Options) (offset : Nat) (scopes : List Scope) (ps : List Piece) :
    (run options offset scopes ps).tokens.filterMap Token.content? =
      ps.filterMap Piece.content? := by
  induction ps generalizing offset scopes with
  | nil => rfl
  | cons p ps ih =>
    cases p with
    | text cs => exact congrArg (String.ofList cs :: ·) (ih _ _)
    | tag t =>
      rw [run, List.filterMap_append, content_step, List.nil_append, ih]
      rfl

end Tokenizer

namespace TagScanner

theorem filter_gap (gap : List Char) (xs : List (List UInt8)) :
    (bytes gap :: xs).filter (· ≠ []) =
      ((Piece.ofGap gap.reverse).filterMap Piece.content?).map utf8 ++ xs.filter (· ≠ []) := by
  by_cases hgap : gap = []
  · subst hgap
    rfl
  · have hbytes : bytes gap ≠ [] := fun h => hgap (bytes_eq_nil h)
    rw [Piece.ofGap_reverse hgap, List.filter_cons_of_pos (by simpa using hbytes)]
    simp [Piece.content?, utf8_eq_bytes]

/-- With text that waits for a tag and pieces behind it, the gaps that are not empty are the texts
    of the pieces. -/
theorem gaps_spans {ps : List Piece} (h : Piece.Normal ps) (cs gap : List Char)
    (hgap : gap ≠ [] → ∀ p ∈ ps.head?, p.isText = false) :
    let all := cs ++ (gap ++ Piece.flatten ps)
    ((gaps (byteSize cs) (byteSize all) (Piece.spans (byteSize (cs ++ gap)) ps)).map
        (slice (bytes all))).filter (· ≠ []) =
      ((Piece.ofGap gap.reverse ++ ps).filterMap Piece.content?).map utf8 := by
  induction ps generalizing cs gap with
  | nil =>
    intro all
    have hslice : slice (bytes all) (byteSize cs, byteSize all) = bytes gap := by
      have hall : all = cs ++ gap := by simp [all]
      have hslice := slice_bytes cs gap []
      rwa [List.append_nil, ← hall] at hslice
    rw [Piece.spans, gaps, List.map_singleton, hslice, filter_gap, List.append_nil]
    exact List.append_nil _
  | cons p ps ih =>
    cases p with
    | text ds =>
      obtain ⟨hne, -, hhead, hps⟩ := h
      obtain rfl : gap = [] := by
        by_contra hne
        exact absurd (hgap hne _ rfl) (by simp [Piece.isText])
      have hrest := ih hps cs ds fun _ => hhead
      rw [Piece.ofGap_reverse hne] at hrest
      rw [List.append_nil, Piece.spans, ← byteSize_append]
      exact hrest
    | tag t =>
      intro all
      have hall : all = (cs ++ gap ++ t.chars) ++ ([] ++ Piece.flatten ps) := by
        simp [all, Piece.chars]
      have hrest := ih h.2 (cs ++ gap ++ t.chars) [] (by simp)
      have hslice : slice (bytes all) (byteSize cs, byteSize (cs ++ gap)) = bytes gap :=
        slice_bytes cs gap _
      rw [List.append_nil, ← hall, byteSize_append (cs ++ gap)] at hrest
      rw [Piece.spans, gaps, List.map_cons, hslice, filter_gap, hrest]
      simp [Piece.ofGap, Piece.content?, List.filterMap_cons]

/-- The text that the tokenizer keeps is what lies between the tags. -/
theorem content_tokenize (text : String) (options : Options) :
    ((gaps 0 (utf8 text).length (findTags (utf8 text))).map (slice (utf8 text))).filter (· ≠ []) =
      ((tokenize text options).tokens.filterMap Token.content?).map utf8 := by
  have hgaps := gaps_spans (Piece.normal_split text.toList) [] [] (by simp)
  simp only [List.nil_append, List.reverse_nil, Piece.ofGap, Piece.flatten_split,
    ← length_bytes, ← utf8_eq_bytes] at hgaps
  rw [findTags_eq_tagSpans, tokenize, Tokenizer.content_run]
  exact hgaps

theorem joined_utf8 (text : String) :
    (stretches 0 (utf8 text).length (findTags (utf8 text))).flatMap (slice (utf8 text)) =
      utf8 text := by
  have hbounds : ∀ s ∈ findTags (utf8 text), s.1 < s.2 ∧ s.2 ≤ (utf8 text).length :=
    fun s hs => bounds_of_matchAt? (matchAt?_of_mem_findFrom _ 0 s hs).2
  rw [flatMap_stretches (fun _ _ => Nat.zero_le _) hbounds (pairwise_findFrom _ 0), slice,
    List.take_length, List.drop_zero]

/-- The scanner finds exactly the leftmost tags of a text, and nothing is lost between them. Its
    spans are those that the tokenizer goes by. What it matches at a byte, by two braces rather than
    three, is a tag of the text there, and so begins and ends between characters. The spans are in
    order and apart, each is a tag, and every tag starts in one of them. Whatever the options, the
    text that the tokenizer keeps is the gaps that are not empty; and gaps and spans joined are the
    text. -/
theorem findTags_leftmost (text : String) (options : Options) :
    let spans := findTags (utf8 text)
    spans = tagSpans text ∧
      (∀ start stop, TagAt text.toList start stop ↔
        (matchTag? (utf8 text) start 2).or (matchTag? (utf8 text) start 3) = some stop) ∧
      spans.Pairwise (fun a b => a.2 ≤ b.1) ∧
      (∀ s ∈ spans, TagAt text.toList s.1 s.2) ∧
      (∀ start stop, TagAt text.toList start stop → ∃ s ∈ spans, s.1 ≤ start ∧ start < s.2) ∧
      ((tokenize text options).tokens.filterMap Token.content?).map utf8 =
        ((gaps 0 (utf8 text).length spans).map (slice (utf8 text))).filter (· ≠ []) ∧
      (stretches 0 (utf8 text).length spans).flatMap (slice (utf8 text)) = utf8 text := by
  have hmatch : ∀ start stop, TagAt text.toList start stop ↔
      matchAt? (utf8 text) start = some stop := by
    intro start stop
    rw [utf8_eq_bytes, matchAt?_eq_some_iff]
  refine ⟨findTags_eq_tagSpans text, hmatch, pairwise_findFrom _ 0, fun s hs => ?_,
    fun start stop htag => ?_, (content_tokenize text options).symm, joined_utf8 text⟩
  · exact (hmatch s.1 s.2).2 (matchAt?_of_mem_findFrom _ 0 s hs).2
  · exact findFrom_covers ((hmatch start stop).1 htag) (Nat.zero_le start)

/-- Braces that are too many on one side are text. -/
example : findTags (utf8 ("é\x7b\x7bb\x7d\x7d" ++ "\x7b\x7b\x7b\x7bd\x7d\x7d" ++
    "\x7b\x7b\x7be\x7d\x7d\x7d\x7d" ++ "\x7b\x7b")) = [(2, 7), (9, 14), (14, 21)] := by
  decide +kernel

end TagScanner

end Stencil
