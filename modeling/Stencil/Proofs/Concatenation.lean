import Stencil.Proofs.Legality
import Stencil.Proofs.Refinement
/-
  Templates one behind the other. Where no tag goes through the cut, the tree of two templates'
  texts put together is rendered as the first tree and then the second (`parse_append`). With
  expanders that only append, the second rendering does not depend on what the first one left.
-/

namespace Stencil

namespace Template

variable {options : Options}

/-- Custom tags of a template belong to its expanders. -/
theorem expander_mem {text path : String} {e : Expander} {t : Template}
    (hparse : parse text options = .ok t) (h : .custom path e ∈ Node.tokensAll t.nodes) :
    e ∈ options.expanders := by
  obtain ⟨-, hrun⟩ := parse_eq_ok_iff_run.1 hparse
  have htokens : (tokenizerRun text options).tokens = Node.tokensAll t.nodes :=
    congrArg Tokenizer.Run.tokens hrun
  exact Tokenizer.expander_mem_run 0 [] _ (htokens ▸ h)

/-! ## Trees of texts put together -/

/-- Where no tag goes through the cut, two accepted texts are accepted together, and rendering the
    whole is rendering the one tree and then the other. -/
theorem parse_append {a b : String} {s t : Template} (ha : parse a options = .ok s)
    (hb : parse b options = .ok t)
    (hcut : ∀ span ∈ tagSpans (a ++ b),
      ¬(span.1 < a.utf8ByteSize ∧ a.utf8ByteSize < span.2)) :
    ∃ u, parse (a ++ b) options = .ok u ∧ ∀ settings c, Chain.nodes settings u.nodes c =
      (Chain.nodes settings s.nodes c).andThen (Chain.nodes settings t.nodes c) := by
  obtain ⟨-, hs⟩ := parse_eq_ok_iff_reads.1 ha
  obtain ⟨-, ht⟩ := parse_eq_ok_iff_reads.1 hb
  have hcut' : ∀ span ∈ Piece.spans 0 (Piece.split (a.toList ++ b.toList)),
      ¬(span.1 < Text.byteSize a.toList ∧ Text.byteSize a.toList < span.2) := by
    rwa [tagSpans, String.toList_append, Text.utf8ByteSize_eq] at hcut
  rcases Piece.split_append hcut' with hsplit | ⟨ps, xs, ys, qs, hleft, hright, hsplit⟩
  · have hreads := hs.append ht
    rw [← hsplit, ← String.toList_append] at hreads
    exact ⟨⟨s.nodes ++ t.nodes, options⟩, parse_eq_ok_iff_reads.2 ⟨rfl, hreads⟩,
      fun settings c => Chain.nodes_append settings s.nodes t.nodes c⟩
  · -- the text at the cut is one content node, where the halves have one each
    rw [hleft] at hs
    rw [hright] at ht
    obtain ⟨ms, hms⟩ := Tokenizer.Reads.init hs
    obtain ⟨ns, hns⟩ := Tokenizer.Reads.tail ht
    have hreads := hms.append ((Tokenizer.reads_text options (xs ++ ys)).append hns)
    rw [List.singleton_append, ← hsplit, ← String.toList_append] at hreads
    refine ⟨⟨_, options⟩, parse_eq_ok_iff_reads.2 ⟨rfl, hreads⟩, fun settings c => ?_⟩
    rw [hs.unique (hms.append (Tokenizer.reads_text options xs)),
      ht.unique ((Tokenizer.reads_text options ys).append hns)]
    simp only [Chain.nodes_append, Chain.nodes_singleton, Chain.node, String.ofList_append,
      ← Writer.write_andThen_write, Writer.andThen_assoc]

end Template

/-! ## Renderings of texts put together -/

/-- With these settings the expander appends to the output, and what it appends does not depend on
    the output. -/
def Expander.AppendsOnly (e : Expander) (settings : Settings) : Prop :=
  ∀ path c, (Chain.inspect c [] (e.render path settings)).Appends

/-- A tree appends if its custom tags do. -/
theorem Chain.appends_nodes {settings : Settings} {ns : List Node}
    (h : ∀ path e, .custom path e ∈ Node.tokensAll ns → e.AppendsOnly settings) (c : Chain) :
    (nodes settings ns c).Appends := by
  refine nodes_closed Writer.closed_appends ns (fun tok htok => ?_) c
  cases tok with
  | content s => exact Writer.appends_write s
  | escaped path => exact fun v => Writer.appends_write _
  | unescaped path => exact fun v => Writer.appends_write _
  | custom path e => exact h path e htok path
  | _ => exact trivial

theorem Template.appends_nodes {text : String} {options : Options} {settings : Settings}
    {t : Template} (hexpanders : ∀ e ∈ options.expanders, e.AppendsOnly settings)
    (hparse : Template.parse text options = .ok t) (c : Chain) :
    (Chain.nodes settings t.nodes c).Appends :=
  Chain.appends_nodes (fun _ e h => hexpanders e (expander_mem hparse h)) c

/-- Two accepted texts, put together where no tag is cut, are accepted, and what the whole leaves
    is what the first leaves and then, unless that ended in an error, what the second leaves. -/
theorem Template.outcome_append {a b : String} {options : Options} {s t : Template}
    (hexpanders : ∀ e ∈ options.expanders, e.AppendsOnly options.toSettings)
    (ha : Template.parse a options = .ok s) (hb : Template.parse b options = .ok t)
    (hcut : ∀ span ∈ tagSpans (a ++ b),
      ¬(span.1 < a.utf8ByteSize ∧ a.utf8ByteSize < span.2)) :
    ∃ u, Template.parse (a ++ b) options = .ok u ∧
      ∀ model, u.outcome model = (s.outcome model).followedBy (t.outcome model) := by
  obtain ⟨u, hu, hnodes⟩ := parse_append ha hb hcut
  refine ⟨u, hu, fun model => ?_⟩
  obtain ⟨hs, -⟩ := parse_eq_ok_iff_run.1 ha
  obtain ⟨ht, -⟩ := parse_eq_ok_iff_run.1 hb
  obtain ⟨hu, -⟩ := parse_eq_ok_iff_run.1 hu
  rw [outcome_eq, outcome_eq, outcome_eq, hs, ht, hu, hnodes]
  exact (appends_nodes hexpanders hb _).andThen_eq ""

/-- Writes the text of a value, as `{{@b}}`. -/
def textExpander : Expander where
  id := 0
  name := "text"
  expand tag := if tag = "\x7b\x7b@b\x7d\x7d" then some "b" else none
  render path _ :=
    .resolve 0 path (.look 1 fun _ value? => .write ((value?.map (·.text)).getD "") .finish)

/-- A section and a single brace at the end. -/
def firstHalf : String := "\x7b\x7b#a\x7d\x7dx\x7b\x7b/a\x7d\x7d \x7b"

/-- A single brace, a custom tag and a loop. -/
def secondHalf : String :=
  "\x7b \x7b\x7b@b\x7d\x7d\x7b\x7b#each c\x7d\x7dy\x7b\x7b/each\x7d\x7d"

theorem Template.outcome_append_halves :
    ∃ s t u, Template.parse firstHalf { expanders := [textExpander] } = .ok s ∧
      Template.parse secondHalf { expanders := [textExpander] } = .ok t ∧
      Template.parse (firstHalf ++ secondHalf) { expanders := [textExpander] } = .ok u ∧
      u.outcome (.map [("a", .bool true), ("b", .str "v"), ("c", .int 5)]) =
        ⟨"x \x7b\x7b v", some (.scalarUsedAsCollection "c" (some "integer"))⟩ := by
  have hs := parse_eq_ok_iff.2 ⟨(by decide +kernel :
    (tokenize firstHalf { expanders := [textExpander] }).errors = []), rfl⟩
  have ht := parse_eq_ok_iff.2 ⟨(by decide +kernel :
    (tokenize secondHalf { expanders := [textExpander] }).errors = []), rfl⟩
  have hexpanders : ∀ e ∈ [textExpander], e.AppendsOnly {} := by
    intro e he path c out
    obtain rfl := List.mem_singleton.1 he
    simp [textExpander, Chain.inspect, Writer.andThen, Writer.write, Writer.skip]
  obtain ⟨u, hu, houtcome⟩ := outcome_append hexpanders hs ht (by decide +kernel)
  exact ⟨_, _, u, hs, ht, hu, (houtcome _).trans (by decide +kernel)⟩

end Stencil
