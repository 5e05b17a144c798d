import Stencil.Proofs.Locality
import Stencil.Proofs.Redisplay
import Stencil.Proofs.Refinement
/-
  Comments. A comment may be written anywhere but inside a tag, also inside open blocks and in
  texts with faults: the same faults are reported and the same tokens come out, but that a text the
  comment stands in becomes two (`tokenize_comment`). A tree with a text in two is rendered like
  the tree with the text in one (`nodes_splits`).
-/

namespace Stencil

open Text

/-! ## The same pieces elsewhere -/

namespace Tokenizer

section Elsewhere

variable {scopes lower : List Scope}

theorem closeEach_elsewhere (h : frames lower = frames scopes) :
    Lifts [] (closeEach scopes) (closeEach lower) := by
  match scopes, lower, h with
  | [], [], _ => exact ⟨rfl, rfl, rfl⟩
  | ⟨true, path, _⟩ :: scopes, ⟨true, path', _⟩ :: lower, h =>
    obtain ⟨hpath, hrest⟩ := List.cons.inj h
    obtain rfl : path' = path := (Frame.mk.inj hpath).2
    exact ⟨rfl, rfl, by rw [List.append_nil]; exact hrest⟩
  | ⟨false, path, _⟩ :: scopes, ⟨false, path', _⟩ :: lower, h =>
    exact ⟨rfl, rfl, by rw [List.append_nil]; exact h⟩
  | ⟨true, _, _⟩ :: _, ⟨false, _, _⟩ :: _, h => simp at h
  | ⟨false, _, _⟩ :: _, ⟨true, _, _⟩ :: _, h => simp at h

theorem closeSection_elsewhere (h : frames lower = frames scopes) (path : String) :
    Lifts [] (closeSection scopes path) (closeSection lower path) := by
  have hin : inSection lower path = inSection scopes path :=
    @inSection_beneath [] _ _ path (by simpa using h) (by simp)
  unfold closeSection
  rw [hin]
  split
  · refine ⟨rfl, rfl, ?_⟩
    rw [List.append_nil]
    simpa [frames] using congrArg List.tail h
  · -- the path that was expected is that of the innermost block
    have hhead : ∀ ss : List Scope, (frames ss).head?.map (·.path) = ss.head?.map (·.path) := by
      intro ss
      cases ss <;> rfl
    exact ⟨rfl, by rw [← hhead, ← hhead, h], by simpa using h⟩

theorem step_elsewhere (options : Options) (h : frames lower = frames scopes) (t : Tag)
    (offset offset' : Nat) :
    Lifts [] (step options scopes offset t) (step options lower offset' t) := by
  have hframes : frames lower = frames scopes ++ [] := by simpa using h
  unfold step
  split
  · exact ⟨rfl, rfl, hframes⟩
  · cases t.kind with
    | eachOpen path => exact openEach_beneath hframes offset offset' _
    | eachClose => exact closeEach_elsewhere h
    | sectionOpen path => exact openSection_beneath hframes (by simp) offset offset' _
    | invertedOpen path => exact openSection_beneath hframes (by simp) offset offset' _
    | sectionClose path => exact closeSection_elsewhere h _
    | unescaped path | comment | plain path => exact ⟨rfl, rfl, hframes⟩

end Elsewhere

/-- Runs that say the same, apart from places. -/
structure Run.Alike (r s : Run) : Prop where
  tokens : r.tokens = s.tokens
  faults : r.faults.map (·.2) = s.faults.map (·.2)
  frames : frames r.scopes = frames s.scopes

/-- Pieces mean the same at any place inside the same blocks. -/
theorem run_elsewhere (options : Options) (ps : List Piece) {scopes lower : List Scope}
    (h : frames lower = frames scopes) (offset offset' : Nat) :
    (run options offset' lower ps).Alike (run options offset scopes ps) := by
  induction ps generalizing scopes lower offset offset' with
  | nil => exact ⟨rfl, rfl, h⟩
  | cons p ps ih =>
    cases p with
    | text cs =>
      have hrest := ih h (offset + byteSize cs) (offset' + byteSize cs)
      exact ⟨congrArg (_ :: ·) hrest.tokens, hrest.faults, hrest.frames⟩
    | tag t =>
      have hstep := step_elsewhere options h t offset offset'
      have hrest := ih (by simpa using hstep.frames) (offset + byteSize t.chars)
        (offset' + byteSize t.chars)
      refine ⟨?_, ?_, hrest.frames⟩
      · simp only [run, hstep.tokens, hrest.tokens]
      · simp only [run, hstep.fault, List.map_append, List.map_map, hrest.faults]
        rfl

/-- A comment among some pieces says nothing. -/
theorem run_insert_comment {options : Options} (hx : options.expanders = []) {t : Tag}
    (hkind : t.kind = .comment) (ps qs : List Piece) :
    (run options 0 [] (ps ++ .tag t :: qs)).Alike (run options 0 [] (ps ++ qs)) := by
  have hstep : ∀ scopes offset, step options scopes offset t = ⟨scopes, [], none⟩ := by
    intro scopes offset
    rw [step_of_no_expanders hx, hkind]
    rfl
  let r := run options 0 [] ps
  let offset := 0 + byteSize (Piece.flatten ps)
  have hrest := run_elsewhere options qs (rfl : frames r.scopes = frames r.scopes) offset
    (offset + byteSize t.chars)
  rw [run_append, run_append]
  simp only [run, hstep]
  refine ⟨?_, ?_, hrest.frames⟩
  · exact congrArg (r.tokens ++ ·) hrest.tokens
  · simp only [List.map_append]
    exact congrArg ((r.faults.map (·.2)) ++ ·) hrest.faults

/-- A text among some pieces, in one or in two. -/
theorem run_text_append (options : Options) (ps qs : List Piece) (xs ys : List Char) :
    ∃ before after faults scopes,
      (run options 0 [] (ps ++ [.text xs])).tokens = before ++ [.content (String.ofList xs)] ∧
      run options 0 [] (ps ++ .text (xs ++ ys) :: qs) =
        ⟨before ++ .content (String.ofList (xs ++ ys)) :: after, faults, scopes⟩ ∧
      run options 0 [] (ps ++ [.text xs] ++ .text ys :: qs) =
        ⟨before ++ .content (String.ofList xs) :: .content (String.ofList ys) :: after, faults,
          scopes⟩ := by
  refine ⟨(run options 0 [] ps).tokens, _, _, _, ?_, run_append options 0 [] ps _, ?_⟩
  · rw [run_append]
    rfl
  · rw [List.append_assoc, run_append]
    simp only [List.cons_append, List.nil_append, run, byteSize_append, Nat.add_assoc]

end Tokenizer

/-! ## Texts in two -/

/-- The second tokens are the first ones, with a text in two or not. -/
inductive Token.Splits : List Token → List Token → Prop
  | refl (ts : List Token) : Splits ts ts
  | content (x y : String) (ts : List Token) :
      Splits (.content (x ++ y) :: ts) (.content x :: .content y :: ts)
  | cons (t : Token) {ts us : List Token} (h : Splits ts us) : Splits (t :: ts) (t :: us)

theorem Token.Splits.append_left {ts us : List Token} (h : Splits ts us) (before : List Token) :
    Splits (before ++ ts) (before ++ us) := by
  induction before with
  | nil => exact h
  | cons t before ih => exact .cons t ih

/-- The second tokens are the first ones, or have one text of them in two. That text begins the
    way in which the tokens of `head` end. -/
def Token.CutBehind (head ts us : List Token) : Prop :=
  us = ts ∨ ∃ before x y after, head = before ++ [.content x] ∧
    ts = before ++ .content (x ++ y) :: after ∧
    us = before ++ .content x :: .content y :: after

theorem Token.CutBehind.splits {head ts us : List Token} (h : CutBehind head ts us) :
    Splits ts us := by
  rcases h with rfl | ⟨before, x, y, after, -, rfl, rfl⟩
  · exact .refl us
  · exact (Splits.content x y after).append_left before

namespace Node

/-- Trees that are rendered alike, whatever the settings and the context. -/
def Alike (ms ns : List Node) : Prop :=
  ∀ settings, Chain.nodes settings ms = Chain.nodes settings ns

theorem Alike.refl (ns : List Node) : Alike ns ns := fun _ => rfl

theorem Alike.cons {ms ns : List Node} (h : Alike ms ns) {m n : Node}
    (hnode : ∀ settings, Chain.node settings m = Chain.node settings n) :
    Alike (m :: ms) (n :: ns) := by
  intro settings
  funext c
  rw [Chain.nodes, Chain.nodes, h, hnode]

theorem Alike.block {ms ns : List Node} (h : Alike ms ns) {t : Token} {block : List Node → Node}
    (hrole : role t = .opens block) (settings : Settings) :
    Chain.node settings (block ms) = Chain.node settings (block ns) := by
  funext c
  cases t <;> simp only [role, Role.opens.injEq, reduceCtorEq] at hrole <;> subst hrole <;>
    simp only [Chain.node, h settings]

theorem alike_content (x y : String) (ns : List Node) :
    Alike (.content (x ++ y) :: ns) (.content x :: .content y :: ns) := by
  intro settings
  funext c
  simp only [Chain.nodes, Chain.node, ← Writer.write_andThen_write, Writer.andThen_assoc]

/-- The trees of tokens with a text in one and in two are rendered alike, and the tokens that are
    left after them differ no more than that. -/
theorem built_splits (nested : Bool) (ts : List Token) {us : List Token}
    (h : Token.Splits ts us) :
    Alike (built nested ts).1 (built nested us).1 ∧
      Token.Splits (built nested ts).2 (built nested us).2 := by
  induction nested, ts using build.induct generalizing us with
  | case1 nested =>
    cases h
    exact ⟨.refl _, .refl _⟩
  | case2 nested t ts node hrole ih =>
    cases h with
    | refl => exact ⟨.refl _, .refl _⟩
    | content x y =>
      rw [built_leaf (n := .content (x ++ y)) rfl, built_leaf (n := .content x) rfl,
        built_leaf (n := .content y) rfl]
      exact ⟨alike_content x y _, .refl _⟩
    | cons t h =>
      obtain ⟨halike, hsplits⟩ := ih h
      rw [built_leaf hrole, built_leaf hrole]
      exact ⟨halike.cons fun _ => rfl, hsplits⟩
  | case3 nested t ts block hrole _ ihbody ihrest =>
    cases h with
    | refl => exact ⟨.refl _, .refl _⟩
    | content x y => simp [role] at hrole
    | cons t h =>
      -- the text in two stands in the body or behind it
      obtain ⟨hbody, hinner⟩ := ihbody h
      obtain ⟨halike, hsplits⟩ := ihrest hinner
      rw [built_opens hrole, built_opens hrole]
      exact ⟨halike.cons fun settings => hbody.block hrole settings, hsplits⟩
  | case4 t ts hrole =>
    cases h with
    | refl => exact ⟨.refl _, .refl _⟩
    | content x y => simp [role] at hrole
    | cons t h =>
      rw [built_closes hrole, built_closes hrole]
      exact ⟨.refl _, h⟩
  | case5 nested t ts hrole hnested ih =>
    obtain rfl : nested = false := by simpa using hnested
    cases h with
    | refl => exact ⟨.refl _, .refl _⟩
    | content x y => simp [role] at hrole
    | cons t h =>
      rw [built_skips hrole, built_skips hrole]
      exact ih h

theorem nodes_splits {ts us : List Token} (h : Token.Splits ts us) :
    Alike (ofTokens ts) (ofTokens us) := (built_splits false ts h).1

end Node

/-! ## Comments -/

/-- A comment as it is written. -/
def comment (c : String) : String := "\x7b\x7b!" ++ c ++ "\x7d\x7d"

theorem toList_comment (c : String) :
    (comment c).toList = (Tag.mk false ('!' :: c.toList)).chars := by
  simp [comment, Tag.chars_double, String.toList_append]

theorem kind_comment (cs : List Char) : (Tag.mk false ('!' :: cs)).kind = .comment := by
  simp [Tag.kind, Tag.eachPath?_of_head]

theorem wellFormed_comment {cs : List Char} (h : ∀ ch ∈ cs, Tag.isBrace ch = false) :
    (Tag.mk false ('!' :: cs)).WellFormed := by
  refine ⟨List.cons_ne_nil _ _, fun ch hch => ?_⟩
  rcases List.mem_cons.1 hch with rfl | hch
  · decide
  · exact h ch hch

/-- Runs with the same faults and the same blocks left open are reported alike. -/
theorem faults_tokenize_congr {text text' : String} {options : Options}
    (hfaults : (tokenizerRun text' options).faults.map (·.2) =
      (tokenizerRun text options).faults.map (·.2))
    (hframes : frames (tokenizerRun text' options).scopes =
      frames (tokenizerRun text options).scopes) :
    (tokenize text' options).errors.map (·.fault) =
      (tokenize text options).errors.map (·.fault) := by
  have hopen : ∀ scopes : List Scope, scopes.map (Fault.unclosedBlock ·.path) =
      (frames scopes).map (Fault.unclosedBlock ·.path) := by
    intro scopes
    rw [frames, List.map_map]
    rfl
  rw [faults_tokenize, faults_tokenize, hfaults, hopen, hopen, hframes]

/-- A text with the same faults as an accepted one, and the same tokens but for a text in two, is
    accepted and rendered alike. -/
theorem Template.parse_of_splits {text text' : String} {options : Options}
    (hfaults : (tokenize text' options).errors.map (·.fault) =
      (tokenize text options).errors.map (·.fault))
    (hsplits : Token.Splits (tokenize text options).tokens (tokenize text' options).tokens)
    {t : Template} (ht : parse text options = .ok t) :
    ∃ u, parse text' options = .ok u ∧ ∀ model, u.outcome model = t.outcome model := by
  obtain ⟨hok, rfl⟩ := parse_eq_ok_iff.1 ht
  have hok' : (tokenize text' options).errors = [] := by
    rwa [hok, List.map_nil, List.map_eq_nil_iff] at hfaults
  refine ⟨_, parse_eq_ok_iff.2 ⟨hok', rfl⟩, fun model => ?_⟩
  rw [outcome_eq, outcome_eq, Node.nodes_splits hsplits]

/-- The scanner finds the comment, and on either side of it what it finds there without it. -/
theorem split_comment {a b c : String} (hc : ∀ ch ∈ c.toList, Tag.isBrace ch = false)
    (hjoin : ¬(['{'] <:+ a.toList ∧ ['}'] <+: b.toList)) :
    Piece.split (a ++ comment c ++ b).toList =
      Piece.split a.toList ++ .tag ⟨false, '!' :: c.toList⟩ :: Piece.split b.toList := by
  rw [String.toList_append, String.toList_append, toList_comment, List.append_assoc]
  refine Piece.split_insert_tag (wellFormed_comment hc) fun hbrace tail htail => ?_
  exact hjoin ⟨hbrace, tail, htail.symm⟩

section Between

variable {a b c : String} {options : Options}

/-- The run over a text with a comment says what the run over the pieces of its two sides says. -/
theorem run_comment (hx : options.expanders = []) (hc : ∀ ch ∈ c.toList, Tag.isBrace ch = false)
    (hjoin : ¬(['{'] <:+ a.toList ∧ ['}'] <+: b.toList)) :
    (tokenizerRun (a ++ comment c ++ b) options).Alike
      (Tokenizer.run options 0 [] (Piece.split a.toList ++ Piece.split b.toList)) := by
  rw [tokenizerRun, split_comment hc hjoin]
  exact Tokenizer.run_insert_comment hx (kind_comment _) _ _

/-- What a comment between two texts does to faults and tokens. -/
theorem tokens_comment (hx : options.expanders = [])
    (hc : ∀ ch ∈ c.toList, Tag.isBrace ch = false)
    (hcut : ∀ span ∈ tagSpans (a ++ b),
      ¬(span.1 < a.utf8ByteSize ∧ a.utf8ByteSize < span.2))
    (hjoin : ¬(['{'] <:+ a.toList ∧ ['}'] <+: b.toList)) :
    (tokenize (a ++ comment c ++ b) options).errors.map (·.fault) =
        (tokenize (a ++ b) options).errors.map (·.fault) ∧
      Token.CutBehind (tokenize a options).tokens (tokenize (a ++ b) options).tokens
        (tokenize (a ++ comment c ++ b) options).tokens := by
  have hcut' : ∀ span ∈ Piece.spans 0 (Piece.split (a.toList ++ b.toList)),
      ¬(span.1 < byteSize a.toList ∧ byteSize a.toList < span.2) := by
    rwa [tagSpans, String.toList_append, utf8ByteSize_eq] at hcut
  have hcomment := @run_comment a b c options hx hc hjoin
  have hwhole : tokenizerRun (a ++ b) options =
      Tokenizer.run options 0 [] (Piece.split (a.toList ++ b.toList)) := by
    rw [tokenizerRun, String.toList_append]
  rcases Piece.split_append hcut' with hsplit | ⟨ps, xs, ys, qs, hleft, hright, hsplit⟩
  · rw [← hsplit, ← hwhole] at hcomment
    exact ⟨faults_tokenize_congr hcomment.faults hcomment.frames, .inl hcomment.tokens⟩
  · -- the comment stands in a text
    obtain ⟨before, after, faults, scopes, htext, hone, htwo⟩ :=
      Tokenizer.run_text_append options ps qs xs ys
    rw [hleft, hright, htwo] at hcomment
    rw [hsplit, hone] at hwhole
    refine ⟨faults_tokenize_congr ?_ ?_, .inr ⟨before, .ofList xs, .ofList ys, after, ?_, ?_, ?_⟩⟩
    · rw [hcomment.faults, hwhole]
    · rw [hcomment.frames, hwhole]
    · rw [← hleft] at htext
      exact htext
    · rw [← String.ofList_append]
      exact congrArg Tokenizer.Run.tokens hwhole
    · exact hcomment.tokens

/-- A comment between two texts, at a place where no tag is cut and no brace opens before it and
    closes behind it, leaves the faults as they are. It leaves the tokens as they are too, or puts
    the text that it stands in into two. So a template that is accepted without it is accepted with
    it and is rendered alike. -/
theorem tokenize_comment (hx : options.expanders = [])
    (hc : ∀ ch ∈ c.toList, Tag.isBrace ch = false)
    (hcut : ∀ span ∈ tagSpans (a ++ b),
      ¬(span.1 < a.utf8ByteSize ∧ a.utf8ByteSize < span.2))
    (hjoin : ¬(['{'] <:+ a.toList ∧ ['}'] <+: b.toList)) :
    (tokenize (a ++ comment c ++ b) options).errors.map (·.fault) =
        (tokenize (a ++ b) options).errors.map (·.fault) ∧
      Token.CutBehind (tokenize a options).tokens (tokenize (a ++ b) options).tokens
        (tokenize (a ++ comment c ++ b) options).tokens ∧
      ∀ t, Template.parse (a ++ b) options = .ok t →
        ∃ u, Template.parse (a ++ comment c ++ b) options = .ok u ∧
          ∀ model, u.outcome model = t.outcome model := by
  obtain ⟨hfaults, htokens⟩ := @tokens_comment a b c options hx hc hcut hjoin
  exact ⟨hfaults, htokens, fun t ht => Template.parse_of_splits hfaults htokens.splits ht⟩

end Between

/-- An open section, and a brace of which another one follows in the other half. -/
def leftHalf : String := "\x7b\x7b#p\x7d\x7dx \x7b"

def rightHalf : String := "\x7b y\x7b\x7b/p\x7d\x7d"

theorem tokenize_comment_halves :
    (tokenize (leftHalf ++ rightHalf) {}).tokens =
        [.sectionOpen "p", .content "x \x7b\x7b y", .sectionClose "p"] ∧
      (tokenize (leftHalf ++ comment " & " ++ rightHalf) {}).tokens =
        [.sectionOpen "p", .content "x \x7b", .content "\x7b y", .sectionClose "p"] ∧
      ∃ u, Template.parse (leftHalf ++ comment " & " ++ rightHalf) {} = .ok u ∧
        u.outcome (.map [("p", .bool true)]) = ⟨"x \x7b\x7b y", none⟩ := by
  have ht := Template.parse_eq_ok_iff.2
    ⟨(by decide +kernel : (tokenize (leftHalf ++ rightHalf) {}).errors = []), rfl⟩
  obtain ⟨-, -, hparse⟩ := @tokenize_comment leftHalf rightHalf " & " {} rfl
    (by simp [Tag.isBrace]) (by decide +kernel) (by decide +kernel)
  obtain ⟨u, hu, houtcome⟩ := hparse _ ht
  exact ⟨by with_unfolding_all rfl, by with_unfolding_all rfl, u, hu,
    (houtcome _).trans (by decide +kernel)⟩

end Stencil
