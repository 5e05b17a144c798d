import Stencil.Proofs.Balance
import Stencil.Proofs.PathText
import Stencil.Proofs.Pieces
/-
  Tokens shown as tags and read again. `Token.piece` is the piece of text that a token is shown
  as, and `Legible` says of a list of tokens that each of them, read inside the blocks open
  before it, means itself: `run_pieces` gives the tokens back without a fault.
-/

namespace Stencil

open Text

/-! ## What a shown tag says -/

namespace Tag

theorem eachPath?_of_head {c : Char} (h : c ≠ '#') (cs : List Char) :
    eachPath? (c :: cs) = none := by
  simp [eachPath?, dropStart?, Ne.symm h]

theorem kind_plain {path : String} (h : Path.isValid path = true) :
    (Tag.mk false path.toList).kind = .plain path.toList := by
  have htrim := trim_eq_self (Path.no_blank_of_isValid h)
  cases hcs : path.toList with
  | nil => rfl
  | cons c cs =>
    have hc := Path.head_ne_sigil h hcs
    rw [hcs] at htrim
    simp only [List.mem_cons, not_or] at hc
    obtain ⟨hslash, hhash, hcaret, hamp, hbang, -⟩ := hc
    simp only [kind, Bool.false_eq_true, if_false, eachPath?_of_head hhash]
    split
    all_goals simp_all

theorem kind_unescaped {path : String} (h : Path.isValid path = true) :
    (Tag.mk true path.toList).kind = .unescaped path.toList := by
  simp only [kind, if_true, trim_eq_self (Path.no_blank_of_isValid h)]
  cases hcs : path.toList with
  | nil => rfl
  | cons c cs =>
    have hc : c ≠ '&' := fun hc => Path.head_ne_sigil h hcs (by simp [hc])
    unfold dropAmpersand
    split
    · next rest heq => exact absurd (List.cons.inj heq).1 hc
    · rfl

/-- `#each` begins a section's tag if the path goes on after it. -/
theorem eachPath?_hash {path : String} (h : Path.isValid path = true) (hpath : path ≠ "each") :
    eachPath? ('#' :: path.toList) = none := by
  unfold eachPath?
  rw [dropStart?, if_pos rfl]
  split
  · next heach =>
    have hcs := eq_append_of_dropStart? heach
    exact absurd (String.toList_injective hcs) hpath
  · next c rest heach =>
    have hcs := eq_append_of_dropStart? heach
    have hblank := Path.no_blank_of_isValid h c (by rw [hcs]; simp)
    simp [hblank]
  · rfl

theorem kind_sectionOpen {path : String} (h : Path.isValid path = true) (hpath : path ≠ "each") :
    (Tag.mk false ('#' :: path.toList)).kind = .sectionOpen path.toList := by
  simp [kind, eachPath?_hash h hpath, trim_eq_self (Path.no_blank_of_isValid h)]

theorem kind_invertedOpen {path : String} (h : Path.isValid path = true) :
    (Tag.mk false ('^' :: path.toList)).kind = .invertedOpen path.toList := by
  simp [kind, eachPath?_of_head, trim_eq_self (Path.no_blank_of_isValid h)]

theorem kind_sectionClose {path : String} (h : Path.isValid path = true) (hpath : path ≠ "each") :
    (Tag.mk false ('/' :: path.toList)).kind = .sectionClose path.toList := by
  have hne : path.toList ≠ ['e', 'a', 'c', 'h'] :=
    fun heq => hpath (String.toList_injective heq)
  simp [kind, eachPath?_of_head, trim_eq_self (Path.no_blank_of_isValid h), hne]

theorem kind_eachOpen {path : String} (h : Path.isValid path = true) :
    (Tag.mk false ("#each ".toList ++ path.toList)).kind = .eachOpen path.toList := by
  have heach : eachPath? ("#each ".toList ++ path.toList) = some path.toList := by
    have hdrop : dropStart? ['#', 'e', 'a', 'c', 'h'] ("#each ".toList ++ path.toList) =
        some (' ' :: path.toList) := dropStart?_append _ (' ' :: path.toList)
    have hspace : isBlank ' ' = true := by decide
    simp only [eachPath?, hdrop, hspace, if_true, trim_space,
      trim_eq_self (Path.no_blank_of_isValid h)]
  simp only [kind, Bool.false_eq_true, if_false, heach]

theorem kind_eachClose : (Tag.mk false "/each".toList).kind = .eachClose := by decide

end Tag

/-- A sigil and a valid path make up a tag. -/
theorem Tag.wellFormed_sigil {c : Char} (hc : Tag.isBrace c = false) {path : String}
    (h : Path.isValid path = true) : (Tag.mk false (c :: path.toList)).WellFormed := by
  refine ⟨List.cons_ne_nil _ _, fun d hd => ?_⟩
  rcases List.mem_cons.1 hd with rfl | hd
  · exact hc
  · exact Path.no_brace_of_isValid h d hd

/-! ## Tokens as pieces of text -/

namespace Token

/-- The piece of text that a token is shown as. -/
def piece : Token → Piece
  | .content text => .text text.toList
  | .escaped path => .tag ⟨false, path.toList⟩
  | .unescaped path => .tag ⟨true, path.toList⟩
  | .sectionOpen path => .tag ⟨false, '#' :: path.toList⟩
  | .invertedOpen path => .tag ⟨false, '^' :: path.toList⟩
  | .sectionClose path => .tag ⟨false, '/' :: path.toList⟩
  | .eachOpen path => .tag ⟨false, "#each ".toList ++ path.toList⟩
  | .eachClose _ => .tag ⟨false, "/each".toList⟩
  | .custom path expander => .text (display (.custom path expander)).toList

theorem toList_display (t : Token) : t.display.toList = t.piece.chars := by
  cases t <;>
    simp [display, piece, Piece.chars, Tag.chars, Tag.depth, List.replicate, String.toList_append]

/-- Shown tokens, one after the other, are the text of their pieces. -/
theorem toList_join_display (ts : List Token) :
    (String.join (ts.map display)).toList = Piece.flatten (ts.map piece) := by
  induction ts with
  | nil => rfl
  | cons t ts ih =>
    simp only [List.map_cons, String.join_cons, String.toList_append, ih, toList_display,
      Piece.flatten_cons]

/-- Tokens that a tag can stand for, by their paths. A section named `each` would be opened and
    closed by the tags of an `each` block, and an empty value tag is no tag. -/
def Plain : Token → Prop
  | .content _ | .eachClose _ => True
  | .escaped path | .unescaped path | .eachOpen path => Path.isValid path = true ∧ path ≠ ""
  | .sectionOpen path | .invertedOpen path | .sectionClose path =>
    Path.isValid path = true ∧ path ≠ "each"
  | .custom _ _ => False

/-- A tag that a token is shown as can be read. -/
theorem wellFormed_piece {t : Token} {u : Tag} (h : t.Plain) (hu : t.piece = .tag u) :
    u.WellFormed := by
  have hpath : ∀ {path : String}, path ≠ "" → path.toList ≠ [] :=
    fun hne heq => hne (String.toList_injective heq)
  have heach : ∀ c ∈ "#each ".toList, Tag.isBrace c = false := by simp [Tag.isBrace]
  cases t <;> simp only [Token.piece, Piece.tag.injEq, reduceCtorEq] at hu <;> subst hu
  case escaped path => exact ⟨hpath h.2, Path.no_brace_of_isValid h.1⟩
  case unescaped path => exact ⟨hpath h.2, Path.no_brace_of_isValid h.1⟩
  case eachClose path => exact ⟨by simp, by simp [Tag.isBrace]⟩
  case eachOpen path =>
    refine ⟨by simp, fun c hc => ?_⟩
    rcases List.mem_append.1 hc with hc | hc
    · exact heach c hc
    · exact Path.no_brace_of_isValid h.1 c hc
  all_goals exact Tag.wellFormed_sigil (by decide) h.1

/-- Tokens that mean themselves when they are shown and read, with the open blocks before and
    after them. A section is not opened right inside itself: its tag would end it first. -/
inductive Legible : List Frame → List Token → List Frame → Prop where
  | nil (fs : List Frame) : Legible fs [] fs
  | cons {fs gs hs : List Frame} {t : Token} {ts : List Token} (hplain : t.Plain)
      (hfresh : ∀ f, t.opens? = some f → f.isEach = false → fs.head? ≠ some f)
      (hfollow : follow? fs t = some gs) (hrest : Legible gs ts hs) : Legible fs (t :: ts) hs

theorem Legible.append {fs gs hs : List Frame} {ts us : List Token} (h : Legible fs ts gs)
    (h' : Legible gs us hs) : Legible fs (ts ++ us) hs := by
  induction h with
  | nil => exact h'
  | cons hplain hfresh hfollow _ ih => exact .cons hplain hfresh hfollow (ih h')

theorem Legible.single {fs gs : List Frame} {t : Token} (hplain : t.Plain)
    (hfresh : ∀ f, t.opens? = some f → f.isEach = false → fs.head? ≠ some f)
    (hfollow : follow? fs t = some gs) : Legible fs [t] gs :=
  .cons hplain hfresh hfollow (.nil gs)

/-- A token that opens no block is legible wherever it fits. -/
theorem Legible.cons_of_opens_none {fs gs hs : List Frame} {t : Token} {ts : List Token}
    (hplain : t.Plain) (hopens : t.opens? = none) (hfollow : follow? fs t = some gs)
    (hrest : Legible gs ts hs) : Legible fs (t :: ts) hs := by
  refine .cons hplain (fun f hf => ?_) hfollow hrest
  rw [hopens] at hf
  exact absurd hf nofun

theorem Legible.plain {fs gs : List Frame} {ts : List Token} (h : Legible fs ts gs) :
    ∀ t ∈ ts, t.Plain := by
  induction h with
  | nil => simp
  | cons hplain _ _ _ ih =>
    intro t ht
    rcases List.mem_cons.1 ht with rfl | ht
    · exact hplain
    · exact ih t ht

end Token

/-! ## Reading shown tokens -/

namespace Tokenizer

theorem step_of_no_expanders {options : Options} (hx : options.expanders = [])
    (scopes : List Scope) (offset : Nat) (tag : Tag) :
    step options scopes offset tag = builtIn scopes offset tag.kind := by
  have hnone : ∀ precedence text, options.claim? precedence text = none := by
    intro precedence text
    simp [Options.claim?, hx]
  have hclaim : claim? options tag = none := by
    unfold claim?
    split <;> simp [hnone]
  simp only [step, hclaim]

theorem pathFault_of_isValid {path : String} (h : Path.isValid path = true) :
    pathFault path = none := by
  simp [pathFault, h]

theorem head?_of_follow? {fs gs : List Frame} {t : Token} {f : Frame} (hf : t.closes? = some f)
    (h : Token.follow? fs t = some gs) : fs = f :: gs := by
  simp only [Token.follow?, hf, Option.ite_none_right_eq_some] at h
  obtain ⟨outer, rfl⟩ := List.head?_eq_some_iff.1 h.1
  rw [← Option.some.inj h.2]
  rfl

theorem frames_eq_cons {scopes : List Scope} {f : Frame} {fs : List Frame}
    (h : frames scopes = f :: fs) :
    ∃ offset outer, scopes = ⟨f.isEach, f.path, offset⟩ :: outer ∧ frames outer = fs := by
  cases scopes with
  | nil => simp at h
  | cons s outer =>
    rw [frames_cons, List.cons.injEq] at h
    obtain ⟨rfl, rfl⟩ := h
    exact ⟨s.offset, outer, rfl, rfl⟩

/-- A section's tag opens it, unless it is the innermost block already. -/
theorem openSection_fresh {scopes : List Scope} {path : String} (t : Token)
    (h : Path.isValid path = true) (hfresh : (frames scopes).head? ≠ some ⟨false, path⟩)
    (offset : Nat) :
    openSection scopes offset path t = ⟨⟨false, path, offset⟩ :: scopes, [t], none⟩ := by
  have hin : inSection scopes path = false := by
    rw [← Bool.not_eq_true, inSection_iff]
    exact hfresh
  simp [openSection, hin, pathFault_of_isValid h]

/-- The tag that a token is shown as yields that token. -/
theorem step_piece {options : Options} (hx : options.expanders = []) {scopes : List Scope}
    {gs : List Frame} {t : Token} {u : Tag} (hu : t.piece = .tag u) (hplain : t.Plain)
    (hfresh : ∀ f, t.opens? = some f → f.isEach = false → (frames scopes).head? ≠ some f)
    (hfollow : Token.follow? (frames scopes) t = some gs) (offset : Nat) :
    ∃ left, step options scopes offset u = ⟨left, [t], none⟩ ∧ frames left = gs := by
  rw [step_of_no_expanders hx]
  cases t <;> simp only [Token.piece, Piece.tag.injEq, reduceCtorEq] at hu <;> subst hu
  case escaped path =>
    refine ⟨scopes, ?_, Option.some.inj hfollow⟩
    simp only [Tag.kind_plain hplain.1, builtIn, String.ofList_toList,
      pathFault_of_isValid hplain.1]
  case unescaped path =>
    refine ⟨scopes, ?_, Option.some.inj hfollow⟩
    simp only [Tag.kind_unescaped hplain.1, builtIn, String.ofList_toList,
      pathFault_of_isValid hplain.1]
  case sectionOpen path =>
    refine ⟨⟨false, path, offset⟩ :: scopes, ?_, Option.some.inj hfollow⟩
    rw [Tag.kind_sectionOpen hplain.1 hplain.2]
    simp only [builtIn, String.ofList_toList]
    exact openSection_fresh _ hplain.1 (hfresh _ rfl rfl) offset
  case invertedOpen path =>
    refine ⟨⟨false, path, offset⟩ :: scopes, ?_, Option.some.inj hfollow⟩
    rw [Tag.kind_invertedOpen hplain.1]
    simp only [builtIn, String.ofList_toList]
    exact openSection_fresh _ hplain.1 (hfresh _ rfl rfl) offset
  case sectionClose path =>
    obtain ⟨first, outer, rfl, houter⟩ := frames_eq_cons (head?_of_follow? rfl hfollow)
    refine ⟨outer, ?_, houter⟩
    simp [Tag.kind_sectionClose hplain.1 hplain.2, builtIn, closeSection, inSection,
      pathFault_of_isValid hplain.1]
  case eachOpen path =>
    refine ⟨⟨true, path, offset⟩ :: scopes, ?_, Option.some.inj hfollow⟩
    rw [Tag.kind_eachOpen hplain.1]
    simp [builtIn, openEach, hplain.2, pathFault_of_isValid hplain.1]
  case eachClose path =>
    obtain ⟨first, outer, rfl, houter⟩ := frames_eq_cons (head?_of_follow? rfl hfollow)
    exact ⟨outer, by rw [Tag.kind_eachClose]; rfl, houter⟩

/-- Legible tokens, shown and read again, are the same tokens, without a fault. -/
theorem run_pieces {options : Options} (hx : options.expanders = []) {scopes : List Scope}
    {gs : List Frame} {ts : List Token} (h : Token.Legible (frames scopes) ts gs)
    (offset : Nat) :
    ∃ left, run options offset scopes (ts.map Token.piece) = ⟨ts, [], left⟩ ∧
      frames left = gs := by
  generalize hfs : frames scopes = fs at h
  induction h generalizing scopes offset with
  | nil => exact ⟨scopes, rfl, hfs⟩
  | @cons fs hs gs t ts hplain hfresh hfollow _ ih =>
    subst hfs
    cases hpiece : t.piece with
    | text cs =>
      cases t <;> simp only [Token.piece, Piece.text.injEq, reduceCtorEq] at hpiece
      case content text =>
        obtain ⟨left, hrun, hleft⟩ := ih (offset + byteSize cs) (Option.some.inj hfollow)
        refine ⟨left, ?_, hleft⟩
        simp only [List.map_cons, Token.piece, hpiece, run, hrun]
        rw [← hpiece, String.ofList_toList]
      case custom => exact hplain.elim
    | tag u =>
      obtain ⟨next, hstep, hnext⟩ := step_piece hx hpiece hplain hfresh hfollow offset
      obtain ⟨left, hrun, hleft⟩ := ih (offset + byteSize u.chars) hnext
      refine ⟨left, ?_, hleft⟩
      simp only [List.map_cons, hpiece, run, hstep, hrun]
      rfl

end Tokenizer

/-- Tokens that are legible and whose pieces do not run together survive being shown and read. -/
theorem tokenize_join_display {options : Options} (hx : options.expanders = []) {ts : List Token}
    (hlegible : Token.Legible [] ts []) (hnormal : Piece.Normal (ts.map Token.piece)) :
    tokenize (String.join (ts.map Token.display)) options = ⟨ts, []⟩ := by
  obtain ⟨left, hrun, hleft⟩ := @Tokenizer.run_pieces options hx [] [] ts hlegible 0
  obtain rfl : left = [] := List.map_eq_nil_iff.1 hleft
  have hsplit : Piece.split (String.join (ts.map Token.display)).toList = ts.map Token.piece := by
    rw [Token.toList_join_display, Piece.split_flatten hnormal]
  simp only [tokenize, hsplit, hrun, List.map_nil, List.append_nil]

end Stencil
