import Stencil.Proofs.Display
import Stencil.Proofs.Forest
/-
  Printing a tree as a template. `Node.Printable` says which trees can be printed: no two of
  their parts run together in the text, and no block's tag means something else where it stands.
  Reading the printed text gives the tree back.
-/

namespace Stencil

open Text

/-- The token that closes the innermost block is legible before what is legible behind it. -/
theorem Token.Legible.close {f : Frame} {fs gs : List Frame} {ts : List Token}
    (hclose : f.close.Plain) (h : Token.Legible fs ts gs) :
    Token.Legible (f :: fs) (f.close :: ts) gs :=
  .cons_of_opens_none hclose f.opens?_close (Token.follow?_of_closes f.closes?_close) h

namespace Node

/-! ## The printed text -/

mutual

/-- The text of a node as a template. A custom tag is shown as its token is. -/
def print : Node → String
  | .content text => text
  | .value path true => "\x7b\x7b" ++ path ++ "\x7d\x7d"
  | .value path false => "\x7b\x7b\x7b" ++ path ++ "\x7d\x7d\x7d"
  | .conditional path body =>
    "\x7b\x7b#" ++ path ++ "\x7d\x7d" ++ (printAll body ++ ("\x7b\x7b/" ++ path ++ "\x7d\x7d"))
  | .inverted path body =>
    "\x7b\x7b^" ++ path ++ "\x7d\x7d" ++ (printAll body ++ ("\x7b\x7b/" ++ path ++ "\x7d\x7d"))
  | .each path body =>
    "\x7b\x7b#each " ++ path ++ "\x7d\x7d" ++ (printAll body ++ "\x7b\x7b/each\x7d\x7d")
  | .custom path expander => (Token.custom path expander).display

def printAll : List Node → String
  | [] => ""
  | n :: ns => print n ++ printAll ns

end

/-- The text of some tokens. -/
def shown (ts : List Token) : String := String.join (ts.map Token.display)

theorem shown_cons (t : Token) (ts : List Token) : shown (t :: ts) = t.display ++ shown ts := by
  simp [shown, String.join_cons]

theorem shown_append (ts us : List Token) : shown (ts ++ us) = shown ts ++ shown us := by
  induction ts with
  | nil => simp [shown]
  | cons t ts ih => rw [List.cons_append, shown_cons, ih, shown_cons, String.append_assoc]

theorem shown_singleton (t : Token) : shown [t] = t.display := by simp [shown]

mutual

/-- A printed node is its tokens, shown one after the other. -/
theorem print_eq_shown (n : Node) : n.print = shown n.tokens := by
  match n with
  | .content text => rw [tokens, shown_singleton]; rfl
  | .value path true => rw [tokens, shown_singleton]; rfl
  | .value path false => rw [tokens, shown_singleton]; rfl
  | .custom path expander => rw [tokens, shown_singleton]; rfl
  | .conditional path body =>
    rw [print, tokens, shown_cons, shown_append, shown_singleton, printAll_eq_shown body]
    rfl
  | .inverted path body =>
    rw [print, tokens, shown_cons, shown_append, shown_singleton, printAll_eq_shown body]
    rfl
  | .each path body =>
    rw [print, tokens, shown_cons, shown_append, shown_singleton, printAll_eq_shown body]
    rfl

theorem printAll_eq_shown (ns : List Node) : printAll ns = shown (tokensAll ns) := by
  match ns with
  | [] => rfl
  | n :: ns => rw [printAll, tokensAll, shown_append, print_eq_shown n, printAll_eq_shown ns]

end

/-! ## Printable trees -/

def isContent : Node → Bool
  | .content _ => true
  | _ => false

/-- The path of a section, of either kind. -/
def sectionPath? : Node → Option String
  | .conditional path _ | .inverted path _ => some path
  | _ => none

mutual

/-- Nodes that can be printed: valid paths, text without braces, no section named `each` and none
    right inside a section of the same path. -/
def Printable : Node → Prop
  | .content text => text ≠ "" ∧ ∀ c ∈ text.toList, Tag.isBrace c = false
  | .value path _ => Path.isValid path = true ∧ path ≠ ""
  | .conditional path body | .inverted path body =>
    Path.isValid path = true ∧ path ≠ "each" ∧ (∀ n ∈ body, n.sectionPath? ≠ some path) ∧
      PrintableAll body
  | .each path body => Path.isValid path = true ∧ path ≠ "" ∧ PrintableAll body
  | .custom _ _ => False

/-- Printable nodes in a row, no two texts side by side. -/
def PrintableAll : List Node → Prop
  | [] => True
  | n :: ns =>
    n.Printable ∧ (n.isContent = true → ∀ m ∈ ns.head?, m.isContent = false) ∧ PrintableAll ns

end

/-! ## The tokens of a printable tree -/

theorem plain_close {f : Frame} (h : f.isEach = true ∨ Path.isValid f.path = true ∧
    f.path ≠ "each") : f.close.Plain := by
  obtain ⟨_ | _, path⟩ := f
  · simpa [Frame.close, Token.Plain] using h
  · exact trivial

/-- A block's tokens are legible if its body's are, inside it. -/
theorem legible_block {t : Token} {f : Frame} {fs : List Frame} {body : List Node}
    (hopens : t.opens? = some f) (hplain : t.Plain) (hclose : f.close.Plain)
    (hfresh : f.isEach = false → fs.head? ≠ some f)
    (hbody : Token.Legible (f :: fs) (tokensAll body) (f :: fs)) :
    Token.Legible fs (t :: (tokensAll body ++ [f.close])) fs := by
  have hend : Token.Legible (f :: fs) [f.close] fs := .close hclose (.nil fs)
  refine .cons hplain (fun g hg heach => ?_) (Token.follow?_of_opens hopens) (hbody.append hend)
  obtain rfl : f = g := Option.some.inj (hopens.symm.trans hg)
  exact hfresh heach

mutual

theorem legible_tokens (n : Node) {fs : List Frame} (h : n.Printable)
    (hfresh : ∀ path, n.sectionPath? = some path → fs.head? ≠ some ⟨false, path⟩) :
    Token.Legible fs n.tokens fs := by
  match n, h with
  | .content text, _ => exact .cons_of_opens_none trivial rfl rfl (.nil fs)
  | .value path true, h => exact .cons_of_opens_none h rfl rfl (.nil fs)
  | .value path false, h => exact .cons_of_opens_none h rfl rfl (.nil fs)
  | .conditional path body, ⟨hvalid, heach, hinner, hbody⟩ =>
    have hbody := @legible_tokensAll body (⟨false, path⟩ :: fs) hbody
      (fun m hm p hp hhead => hinner m hm (by simpa [hp] using hhead.symm))
    exact @legible_block (.sectionOpen path) ⟨false, path⟩ fs body rfl ⟨hvalid, heach⟩
      (plain_close (.inr ⟨hvalid, heach⟩)) (fun _ => hfresh path rfl) hbody
  | .inverted path body, ⟨hvalid, heach, hinner, hbody⟩ =>
    have hbody := @legible_tokensAll body (⟨false, path⟩ :: fs) hbody
      (fun m hm p hp hhead => hinner m hm (by simpa [hp] using hhead.symm))
    exact @legible_block (.invertedOpen path) ⟨false, path⟩ fs body rfl ⟨hvalid, heach⟩
      (plain_close (.inr ⟨hvalid, heach⟩)) (fun _ => hfresh path rfl) hbody
  | .each path body, ⟨hvalid, hpath, hbody⟩ =>
    have hbody := @legible_tokensAll body (⟨true, path⟩ :: fs) hbody
      (fun m hm p hp hhead => by simp at hhead)
    exact @legible_block (.eachOpen path) ⟨true, path⟩ fs body rfl ⟨hvalid, hpath⟩
      (plain_close (.inl rfl)) (fun h => by simp at h) hbody

/-- The tokens of printable nodes are legible inside blocks that none of them repeats. -/
theorem legible_tokensAll (ns : List Node) {fs : List Frame} (h : PrintableAll ns)
    (hfresh : ∀ n ∈ ns, ∀ path, n.sectionPath? = some path → fs.head? ≠ some ⟨false, path⟩) :
    Token.Legible fs (tokensAll ns) fs := by
  match ns, h with
  | [], _ => exact .nil fs
  | n :: ns, ⟨hn, _, hns⟩ =>
    have hhead := legible_tokens n hn (hfresh n List.mem_cons_self)
    exact hhead.append (legible_tokensAll ns hns
      (fun m hm => hfresh m (List.mem_cons_of_mem n hm)))

end

/-! ## The pieces of a printable tree -/

theorem normal_cons_tag {t : Token} {u : Tag} {ps : List Piece} (hplain : t.Plain)
    (hu : t.piece = .tag u) (hps : Piece.Normal ps) : Piece.Normal (t.piece :: ps) := by
  rw [hu]
  exact ⟨Token.wellFormed_piece hplain hu, hps⟩

theorem piece_close (f : Frame) : ∃ u, f.close.piece = .tag u := by
  obtain ⟨_ | _, path⟩ := f
  · exact ⟨_, rfl⟩
  · exact ⟨_, rfl⟩

/-- A block's pieces are normal if its body's are, in front of the closing tag. -/
theorem normal_block {t : Token} {u : Tag} {f : Frame} {body : List Node} {ps : List Piece}
    (hplain : t.Plain) (hu : t.piece = .tag u) (hclose : f.close.Plain) (hps : Piece.Normal ps)
    (hbody : ∀ qs, Piece.Normal qs → (∀ p ∈ qs.head?, p.isText = false) →
      Piece.Normal ((tokensAll body).map Token.piece ++ qs)) :
    Piece.Normal ((t :: (tokensAll body ++ [f.close])).map Token.piece ++ ps) := by
  obtain ⟨v, hv⟩ := piece_close f
  have hend : Piece.Normal (f.close.piece :: ps) := normal_cons_tag hclose hv hps
  have hinner := hbody _ hend (fun p hp => by
    obtain rfl : f.close.piece = p := Option.some.inj hp
    rw [hv]; rfl)
  have hcons := normal_cons_tag hplain hu hinner
  simpa using hcons

/-- What is printed for a node other than text begins with a tag. -/
theorem tokens_head {n : Node} (h : n.Printable) (hcontent : n.isContent = false) :
    ∃ t ts u, n.tokens = t :: ts ∧ t.piece = .tag u := by
  match n, h with
  | .value path true, _ => exact ⟨.escaped path, _, _, rfl, rfl⟩
  | .value path false, _ => exact ⟨.unescaped path, _, _, rfl, rfl⟩
  | .conditional path body, _ => exact ⟨.sectionOpen path, _, _, by rw [tokens], rfl⟩
  | .inverted path body, _ => exact ⟨.invertedOpen path, _, _, by rw [tokens], rfl⟩
  | .each path body, _ => exact ⟨.eachOpen path, _, _, by rw [tokens], rfl⟩

mutual

theorem normal_tokens (n : Node) {ps : List Piece} (h : n.Printable) (hps : Piece.Normal ps)
    (hhead : n.isContent = true → ∀ p ∈ ps.head?, p.isText = false) :
    Piece.Normal (n.tokens.map Token.piece ++ ps) := by
  match n, h with
  | .content text, ⟨hne, hbrace⟩ =>
    exact ⟨fun heq => hne (String.toList_injective heq), Piece.clear_of_no_brace hbrace _,
      hhead rfl, hps⟩
  | .value path true, h => exact normal_cons_tag (t := .escaped path) h rfl hps
  | .value path false, h => exact normal_cons_tag (t := .unescaped path) h rfl hps
  | .conditional path body, ⟨hvalid, heach, _, hbody⟩ =>
    exact normal_block (t := .sectionOpen path) (f := ⟨false, path⟩) ⟨hvalid, heach⟩ rfl
      (plain_close (.inr ⟨hvalid, heach⟩)) hps
      (fun qs hqs hq => normal_tokensAll body hbody hqs hq)
  | .inverted path body, ⟨hvalid, heach, _, hbody⟩ =>
    exact normal_block (t := .invertedOpen path) (f := ⟨false, path⟩) ⟨hvalid, heach⟩ rfl
      (plain_close (.inr ⟨hvalid, heach⟩)) hps
      (fun qs hqs hq => normal_tokensAll body hbody hqs hq)
  | .each path body, ⟨hvalid, hpath, hbody⟩ =>
    exact normal_block (t := .eachOpen path) (f := ⟨true, path⟩) ⟨hvalid, hpath⟩ rfl
      (plain_close (.inl rfl)) hps (fun qs hqs hq => normal_tokensAll body hbody hqs hq)

theorem normal_tokensAll (ns : List Node) {ps : List Piece} (h : PrintableAll ns)
    (hps : Piece.Normal ps) (hhead : ∀ p ∈ ps.head?, p.isText = false) :
    Piece.Normal ((tokensAll ns).map Token.piece ++ ps) := by
  match ns, h with
  | [], _ => exact hps
  | n :: ns, ⟨hn, hnext, hns⟩ =>
    rw [tokensAll, List.map_append, List.append_assoc]
    refine normal_tokens n hn (normal_tokensAll ns hns hps hhead) (fun hcontent => ?_)
    match ns, hns with
    | [], _ => exact hhead
    | m :: ns, ⟨hm, _, _⟩ =>
      obtain ⟨t, ts, u, hts, hu⟩ := tokens_head hm (hnext hcontent m rfl)
      intro p hp
      rw [tokensAll, hts] at hp
      obtain rfl : t.piece = p := Option.some.inj hp
      rw [hu]; rfl

end

end Node

/-- A printable tree, printed and parsed without expanders, is the same tree. -/
theorem parse_printAll (nodes : List Node) (options : Options) (hx : options.expanders = [])
    (h : Node.PrintableAll nodes) :
    Template.parse (Node.printAll nodes) options = .ok ⟨nodes, options⟩ := by
  have hlegible : Token.Legible [] (Node.tokensAll nodes) [] :=
    Node.legible_tokensAll nodes h (fun n _ path _ hhead => by simp at hhead)
  have hnormal : Piece.Normal ((Node.tokensAll nodes).map Token.piece) := by
    have hall := @Node.normal_tokensAll nodes [] h trivial (by simp)
    rwa [List.append_nil] at hall
  have hread : tokenize (Node.printAll nodes) options = ⟨Node.tokensAll nodes, []⟩ := by
    rw [Node.printAll_eq_shown]
    exact tokenize_join_display hx hlegible hnormal
  rw [Template.parse_eq_ok_iff, hread]
  exact ⟨rfl, by rw [Node.ofTokens_tokensAll]⟩

/-- Blocks of all kinds; sections of one path side by side, but not one inside the other. -/
def blocks : List Node :=
  [.each "../a" [.conditional "b" [.value "c" false, .inverted "each.x" []],
    .inverted "b" [.content "x "]], .value "." true]

theorem parse_printAll_blocks :
    Node.PrintableAll blocks ∧
      Template.parse (Node.printAll blocks) {} = .ok ⟨blocks, {}⟩ := by
  have h : Node.PrintableAll blocks := by
    have ha : Path.isValid "../a" = true := by decide +kernel
    have hb : Path.isValid "b" = true := by decide +kernel
    have hc : Path.isValid "c" = true := by decide +kernel
    have hx : Path.isValid "each.x" = true := by decide +kernel
    have hdot : Path.isValid "." = true := by decide +kernel
    simp [blocks, Node.PrintableAll, Node.Printable, Node.isContent, Node.sectionPath?, ha, hb, hc,
      hx, hdot, Tag.isBrace]
  exact ⟨h, parse_printAll blocks {} rfl h⟩

end Stencil
