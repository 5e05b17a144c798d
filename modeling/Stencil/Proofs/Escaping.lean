import Stencil.Proofs.Forest
import Stencil.Proofs.Refinement
/-
  What a model can put into the output. `Html.Inert` text has no markup of its own, and escaping
  makes every text inert. `Writer.Adds` is the invariant of a rendering with content safety: what
  it adds is made of the template's own text and of inert text, wherever it breaks off.
-/

namespace Stencil

namespace Html

/-! ## Inert text -/

/-- The characters that begin or end a tag or an attribute. -/
def markup : List Char := ['<', '>', '"', '\'']

/-- The entities and the characters that they stand for. -/
def replacements : List (String × Char) :=
  [("&amp;", '&'), ("&lt;", '<'), ("&gt;", '>'), ("&quot;", '"'), ("&#39;", '\'')]

def entities : List String := replacements.map (·.1)

/-- Text that holds no markup, and no ampersand but at the start of an entity. -/
structure Inert (cs : List Char) : Prop where
  no_markup : ∀ c ∈ cs, c ∉ markup
  ampersand : ∀ tail, '&' :: tail <:+ cs → ∃ e ∈ entities, e.toList <+: '&' :: tail

theorem inert_nil : Inert [] := ⟨nofun, fun tail h => absurd (List.suffix_nil.1 h) (by simp)⟩

theorem Inert.append {cs ds : List Char} (hcs : Inert cs) (hds : Inert ds) :
    Inert (cs ++ ds) := by
  refine ⟨fun c hc => ?_, fun tail ⟨start, h⟩ => ?_⟩
  · rcases List.mem_append.1 hc with hc | hc
    · exact hcs.no_markup c hc
    · exact hds.no_markup c hc
  · rcases List.append_eq_append_iff.1 h with ⟨rest, rfl, hrest⟩ | ⟨rest, -, hrest⟩
    · cases rest with
      | nil => exact hds.ampersand tail ⟨[], by simpa using hrest⟩
      | cons c rest =>
        obtain ⟨rfl, rfl⟩ := List.cons.inj hrest
        obtain ⟨e, he, hstart⟩ := hcs.ampersand rest (List.suffix_append start _)
        exact ⟨e, he, hstart.trans (List.prefix_append ('&' :: rest) ds)⟩
    · exact hds.ampersand tail ⟨rest, hrest.symm⟩

/-- An entity has one ampersand, and it comes first. -/
theorem inert_of_mem_entities {e : String} (h : e ∈ entities) : Inert e.toList := by
  have hshape : ∀ e ∈ entities, ∃ body, e.toList = '&' :: body ∧ '&' ∉ body ∧
      ∀ c ∈ e.toList, c ∉ markup := by
    simp [entities, replacements, markup]
  obtain ⟨body, hbody, hamp, hmarkup⟩ := hshape e h
  refine ⟨hmarkup, fun tail hsuf => ⟨e, h, ?_⟩⟩
  rw [hbody] at hsuf ⊢
  rcases List.suffix_cons_iff.1 hsuf with heq | hsuf
  · exact heq ▸ List.prefix_rfl
  · exact absurd (hsuf.subset List.mem_cons_self) hamp

theorem inert_entity (c : Char) : Inert (entity c) := by
  unfold entity
  split
  · exact inert_of_mem_entities (e := "&amp;") (by simp [entities, replacements])
  · exact inert_of_mem_entities (e := "&lt;") (by simp [entities, replacements])
  · exact inert_of_mem_entities (e := "&gt;") (by simp [entities, replacements])
  · exact inert_of_mem_entities (e := "&quot;") (by simp [entities, replacements])
  · exact inert_of_mem_entities (e := "&#39;") (by simp [entities, replacements])
  · next hamp hlt hgt hquot hapos =>
    refine ⟨fun d hd => ?_, fun tail hsuf => ?_⟩
    · obtain rfl := List.mem_singleton.1 hd
      simpa [markup] using ⟨hlt, hgt, hquot, hapos⟩
    · have hmem := hsuf.subset List.mem_cons_self
      exact absurd (List.mem_singleton.1 hmem).symm hamp

/-- Escaped text is inert. -/
theorem inert_escape (text : String) : Inert (escape text).toList := by
  rw [escape, String.toList_ofList]
  induction text.toList with
  | nil => exact inert_nil
  | cons c cs ih => exact (inert_entity c).append ih

end Html

/-! ## Text made of pieces -/

/-- The text is one allowed piece after the other. -/
def MadeOf (allowed : String → Prop) (text : String) : Prop :=
  ∃ pieces : List String, text = String.join pieces ∧ ∀ s ∈ pieces, allowed s

section MadeOf

variable {allowed : String → Prop}

theorem madeOf_empty : MadeOf allowed "" := ⟨[], rfl, nofun⟩

theorem madeOf_single {text : String} (h : allowed text) : MadeOf allowed text :=
  ⟨[text], by simp, by simpa using h⟩

theorem MadeOf.append {s t : String} (hs : MadeOf allowed s) (ht : MadeOf allowed t) :
    MadeOf allowed (s ++ t) := by
  obtain ⟨ss, rfl, hss⟩ := hs
  obtain ⟨ts, rfl, hts⟩ := ht
  exact ⟨ss ++ ts, String.join_append.symm, fun u hu => (List.mem_append.1 hu).elim (hss u) (hts u)⟩

theorem MadeOf.forall_mem {text : String} {p : Char → Prop} (h : MadeOf allowed text)
    (hp : ∀ s, allowed s → ∀ c ∈ s.toList, p c) : ∀ c ∈ text.toList, p c := by
  obtain ⟨pieces, rfl, hpieces⟩ := h
  intro c hc
  rw [String.toList_join, List.mem_flatMap] at hc
  obtain ⟨s, hs, hc⟩ := hc
  exact hp s (hpieces s hs) c hc

/-- The part adds allowed pieces to what was written before it, also if it ends in an error. -/
def Writer.Adds (allowed : String → Prop) (w : Writer) : Prop :=
  ∀ out, ∃ added, (w out).output = out ++ added ∧ MadeOf allowed added

theorem adds_write {text : String} (h : allowed text) : (Writer.write text).Adds allowed :=
  fun _ => ⟨text, rfl, madeOf_single h⟩

theorem closed_adds : Writer.Closed (Writer.Adds allowed) where
  skip _ := ⟨"", by simp [Writer.skip], madeOf_empty⟩
  fail _ _ := ⟨"", by simp [Writer.fail], madeOf_empty⟩
  andThen {a b} ha hb out := by
    obtain ⟨first, hout, hfirst⟩ := ha out
    unfold Writer.andThen
    rcases hres : a out with ⟨mid, _ | e⟩
    · obtain ⟨second, hmid, hsecond⟩ := hb mid
      obtain rfl : mid = out ++ first := by rw [← hout, hres]
      exact ⟨first ++ second, by rw [← String.append_assoc, ← hmid], hfirst.append hsecond⟩
    · exact ⟨first, by rw [← hout, hres], hfirst⟩

end MadeOf

/-! ## Templates -/

/-- A template whose value tags are all escaped and that has no custom tags adds nothing to the
    output but its own text and inert text, also when the rendering fails. So none of the four
    markup characters comes from a model. -/
theorem rendered_inert {text : String} {options : Options} {t : Template}
    (hparse : Template.parse text options = .ok t) (hsafe : options.contentSafety = true)
    (hraw : ∀ tok ∈ (tokenize text options).tokens,
      (∀ path, tok ≠ .unescaped path) ∧ ∀ path expander, tok ≠ .custom path expander)
    (model : Value) (output : String) :
    ∃ added, (t.renderOnto model output).output = output ++ added ∧
      MadeOf (fun s => .content s ∈ (tokenize text options).tokens ∨ Html.Inert s.toList) added ∧
      ∀ c ∈ Html.markup, (∀ s, .content s ∈ (tokenize text options).tokens → c ∉ s.toList) →
        c ∉ added.toList := by
  obtain ⟨rfl, hrun⟩ := Template.parse_eq_ok_iff_run.1 hparse
  have htokens : (tokenize text t.options).tokens = Node.tokensAll t.nodes :=
    congrArg Tokenizer.Run.tokens hrun
  rw [htokens] at hraw ⊢
  have hwrites : ∀ tok ∈ Node.tokensAll t.nodes, tok.Writes t.options.toSettings (Writer.Adds
      fun s => .content s ∈ Node.tokensAll t.nodes ∨ Html.Inert s.toList) := by
    intro tok htok
    obtain ⟨hunescaped, hcustom⟩ := hraw tok htok
    cases tok with
    | content s => exact adds_write (.inl htok)
    | escaped path =>
      intro v
      simp only [Action.valueText, hsafe, Bool.and_true, if_true]
      exact adds_write (.inr (Html.inert_escape v.text))
    | unescaped path => exact absurd rfl (hunescaped path)
    | custom path expander => exact absurd rfl (hcustom path expander)
    | _ => exact trivial
  obtain ⟨added, hadded, hmade⟩ := Chain.nodes_closed closed_adds t.nodes hwrites (.root model)
    output
  rw [t.chain_nodes model output] at hadded
  refine ⟨added, hadded, hmade, fun c hc hcontent hmem => ?_⟩
  refine hmade.forall_mem (p := (· ≠ c)) (fun s hs d hd hdc => ?_) c hmem rfl
  subst hdc
  rcases hs with hs | hs
  · exact hcontent s hs hd
  · exact hs.no_markup d hd hc

/-- A loop in text that has angle brackets but no quotes. -/
def nameList : String :=
  "<ul>\x7b\x7b#each names\x7d\x7d<li>\x7b\x7b.\x7d\x7d</li>\x7b\x7b/each\x7d\x7d</ul>"

/-- Names that would end an attribute and begin another. -/
def quotedNames : Value := .map [("names", .seq [.str "x\" onclick='y'", .str "<b>&"])]

theorem rendered_inert_nameList :
    ∃ t, Template.parse nameList {} = .ok t ∧
      (∀ tok ∈ (tokenize nameList {}).tokens,
        (∀ path, tok ≠ .unescaped path) ∧ ∀ path expander, tok ≠ .custom path expander) ∧
      ∃ added, (t.renderOnto quotedNames "").output = "" ++ added ∧ '"' ∉ added.toList := by
  have hparse := Template.parse_eq_ok_iff.2
    ⟨(by decide +kernel : (tokenize nameList {}).errors = []), rfl⟩
  have htokens : (tokenize nameList {}).tokens =
      [.content "<ul>", .eachOpen "names", .content "<li>", .escaped ".", .content "</li>",
        .eachClose "names", .content "</ul>"] := by with_unfolding_all rfl
  have hraw : ∀ tok ∈ (tokenize nameList {}).tokens,
      (∀ path, tok ≠ .unescaped path) ∧ ∀ path expander, tok ≠ .custom path expander := by
    rw [htokens]; simp
  obtain ⟨added, hadded, -, hmarkup⟩ := rendered_inert hparse rfl hraw quotedNames ""
  refine ⟨_, hparse, hraw, added, hadded, hmarkup '"' (by simp [Html.markup]) ?_⟩
  rw [htokens]
  simp

end Stencil
