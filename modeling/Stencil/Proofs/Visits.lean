import Stencil.Proofs.Dispatch
import Stencil.Proofs.Refinement
/-
  What content safety changes. Where a rendering goes does not depend on the settings: `Chain.routes`
  tells the texts and value tags that it comes to, each in its context, and the error that it ends
  in. A rendering writes what stands at these visits, one after the other, and content safety only
  has the values of escaped tags written as entities (`leads_nodes`).
-/

namespace Stencil

/-! ## Fragments -/

/-- What a part of the output is: the template's own text, a value as it is, or a value that is
    escaped if content safety is on. -/
inductive Mark where
  | content
  | raw
  | escaped
deriving DecidableEq, Repr

/-- A part of the output before escaping. -/
structure Fragment where
  mark : Mark
  text : String
deriving DecidableEq, Repr

/-- The part as it is written. -/
def Fragment.written (contentSafety : Bool) (f : Fragment) : String :=
  if contentSafety = true ∧ f.mark = .escaped then Html.escape f.text else f.text

/-! ## Where a rendering goes -/

/-- What a value tag writes for a context, before escaping. Nothing comes from an absent value. -/
def Chain.text (c : Chain) : String := (c.value?.map (·.text)).getD ""

/-- A token that a rendering comes to, and the context in which it does. -/
structure Visit where
  token : Token
  context : Chain

/-- The text or the value that stands at a visited token. -/
def Visit.fragment (v : Visit) : Fragment :=
  match v.token with
  | .escaped path => ⟨.escaped, (v.context.resolve path).text⟩
  | .unescaped path => ⟨.raw, (v.context.resolve path).text⟩
  | token => ⟨.content, token.value⟩

/-- The value at a visited tag of the form `{{path}}`. -/
def Visit.escapedText? (v : Visit) : Option String :=
  match v.token with
  | .escaped path => some (v.context.resolve path).text
  | _ => none

/-- The texts and value tags that a rendering comes to, in order, and the error that it ends in. -/
structure Route where
  visits : List Visit := []
  error : Option Error := none

namespace Route

def visit (t : Token) (c : Chain) : Route := { visits := [⟨t, c⟩] }

def fail (e : Error) : Route := { error := some e }

/-- The second route follows if the first one ends without error. -/
def andThen (r s : Route) : Route :=
  match r.error with
  | none => ⟨r.visits ++ s.visits, s.error⟩
  | some _ => r

/-- What is written on the way. -/
def written (contentSafety : Bool) (r : Route) : String :=
  String.join (r.visits.map fun v => v.fragment.written contentSafety)

theorem written_false (r : Route) :
    r.written false = String.join ((r.visits.map Visit.fragment).map (·.text)) := by
  simp [written, Fragment.written, Function.comp_def]

theorem written_true (r : Route) :
    r.written true = String.join ((r.visits.map Visit.fragment).map fun f =>
      if f.mark = .escaped then Html.escape f.text else f.text) := by
  simp [written, Fragment.written, Function.comp_def]

end Route

/-- The fragments marked as escaped are the values at tags of the form `{{path}}`. -/
theorem fragments_escaped (vs : List Visit) :
    ((vs.map Visit.fragment).filter (·.mark = .escaped)).map (·.text) =
      vs.filterMap Visit.escapedText? := by
  induction vs with
  | nil => rfl
  | cons v vs ih =>
    obtain ⟨token, c⟩ := v
    cases token with
    | escaped path => exact congrArg ((c.resolve path).text :: ·) ih
    | _ => exact ih

namespace Chain

/-- Goes through the elements of a collection, each in a context below that of the collection. -/
def elementRoutes (c : Chain) (each : Chain → Route) : (index : Nat) → List Value → Route
  | _, [] => {}
  | index, item :: items =>
    (each (c.element index item)).andThen (elementRoutes c each (index + 1) items)

/-- Goes through the items of a sequence or the values of a map, and nowhere else. -/
def loopRoute (c : Chain) (path : String) (each : Chain → Route) : Value → Route
  | .seq items => elementRoutes c each 0 items
  | .map entries => elementRoutes c each 0 (entries.map (·.2))
  | v => .fail (.scalarUsedAsCollection path (some v.kind))

mutual

/-- Where the rendering of a node in a context goes. A custom tag counts as one visit. -/
def route : Node → Chain → Route
  | .content text, c => .visit (.content text) c
  | .value path escaped, c => .visit (if escaped then .escaped path else .unescaped path) c
  | .conditional path body, c =>
    if (c.resolve path).holds then routes body (c.resolve path) else {}
  | .inverted path body, c =>
    if (c.resolve path).holds then {} else routes body (c.resolve path)
  | .each path body, c =>
    match (c.resolve path).value? with
    | none => {}
    | some v => if v.truthy then loopRoute (c.resolve path) path (routes body) v else {}
  | .custom path expander, c => .visit (.custom path expander) c

def routes : List Node → Chain → Route
  | [], _ => {}
  | n :: ns, c => (route n c).andThen (routes ns c)

end

end Chain

/-! ## Renderings along their routes -/

/-- The part writes what stands on the route and ends as the route does, which comes to nothing but
    the given tokens. -/
structure Route.Leads (ts : List Token) (safety : Bool) (r : Route) (w : Writer) : Prop where
  visits_mem : ∀ v ∈ r.visits, v.token ∈ ts
  writes : ∀ out, w out = ⟨out ++ r.written safety, r.error⟩

section Leads

variable {ts : List Token} {safety : Bool} {r s : Route} {v w : Writer}

theorem leads_skip : Route.Leads ts safety {} .skip where
  visits_mem := nofun
  writes out := by simp [Writer.skip, Route.written]

theorem leads_fail (e : Error) : (Route.fail e).Leads ts safety (.fail e) where
  visits_mem := nofun
  writes out := by simp [Writer.fail, Route.fail, Route.written]

theorem leads_visit {t : Token} {c : Chain} {text : String} (ht : t ∈ ts)
    (htext : (Visit.mk t c).fragment.written safety = text) :
    (Route.visit t c).Leads ts safety (.write text) where
  visits_mem := by
    intro v hv
    obtain rfl := List.mem_singleton.1 hv
    exact ht
  writes out := by simp [Writer.write, Route.visit, Route.written, htext]

theorem Route.Leads.andThen (hr : r.Leads ts safety w) (hs : s.Leads ts safety v) :
    (r.andThen s).Leads ts safety (w.andThen v) := by
  unfold Route.andThen
  cases herror : r.error with
  | none =>
    refine ⟨fun u hu => ?_, fun out => ?_⟩
    · rcases List.mem_append.1 hu with hu | hu
      · exact hr.visits_mem u hu
      · exact hs.visits_mem u hu
    · unfold Writer.andThen
      rw [hr.writes, herror]
      dsimp only
      rw [hs.writes, String.append_assoc]
      simp only [Route.written, List.map_append, String.join_append]
  | some e =>
    refine ⟨hr.visits_mem, fun out => ?_⟩
    unfold Writer.andThen
    rw [hr.writes, herror]

theorem Route.Leads.ite {condition : Prop} [Decidable condition] (hr : r.Leads ts safety w)
    (hs : s.Leads ts safety v) :
    (if condition then r else s).Leads ts safety (if condition then w else v) := by
  split
  · exact hr
  · exact hs

theorem leads_elements {each : Chain → Route} {weach : Chain → Writer}
    (h : ∀ c, (each c).Leads ts safety (weach c)) (c : Chain) (index : Nat) (items : List Value) :
    (c.elementRoutes each index items).Leads ts safety (c.elements weach index items) := by
  induction items generalizing index with
  | nil => exact leads_skip
  | cons item items ih => exact (h _).andThen (ih (index + 1))

theorem leads_loop {each : Chain → Route} {weach : Chain → Writer}
    (h : ∀ c, (each c).Leads ts safety (weach c)) (c : Chain) (path : String) (v : Value) :
    (c.loopRoute path each v).Leads ts safety (c.loop path weach v) := by
  cases v with
  | seq items => exact leads_elements h c 0 items
  | map entries => exact leads_elements h c 0 (entries.map (·.2))
  | _ => exact leads_fail _

end Leads

theorem Writer.write_empty : write "" = skip := by
  funext out
  rw [write, String.append_empty, skip]

/-- At a value tag stands what the tag writes for the value, and nothing if there is none. -/
theorem written_value (settings : Settings) (path : String) (escaped : Bool) (c : Chain) :
    (Visit.mk (if escaped then .escaped path else .unescaped path) c).fragment.written
        settings.contentSafety =
      match (c.resolve path).value? with
      | none => ""
      | some v => Action.valueText settings escaped v := by
  have hempty : Html.escape "" = "" := rfl
  cases escaped <;> cases hvalue : (c.resolve path).value? <;>
    simp [Visit.fragment, Fragment.written, Chain.text, Action.valueText, hvalue, hempty]

mutual

theorem leads_node {ts : List Token} (hcustom : ∀ path e, .custom path e ∉ ts)
    (settings : Settings) (n : Node) (h : ∀ t ∈ n.tokens, t ∈ ts) (c : Chain) :
    (Chain.route n c).Leads ts settings.contentSafety (Chain.node settings n c) := by
  match n with
  | .content text =>
    rw [Chain.route, Chain.node]
    exact leads_visit (h _ (by simp [Node.tokens])) (by simp [Visit.fragment, Fragment.written,
      Token.value])
  | .value path escaped =>
    have hleads := leads_visit (h _ (by simp [Node.tokens])) (written_value settings path escaped c)
    rw [Chain.route, Chain.node]
    match hvalue : (c.resolve path).value? with
    | none =>
      simp only [hvalue, Writer.write_empty] at hleads
      exact hleads
    | some v =>
      simp only [hvalue] at hleads
      exact hleads
  | .conditional path body =>
    have hbody := leads_nodes hcustom settings body fun t ht => h t (by simp [Node.tokens, ht])
    rw [Chain.route, Chain.node]
    exact Route.Leads.ite (hbody _) leads_skip
  | .inverted path body =>
    have hbody := leads_nodes hcustom settings body fun t ht => h t (by simp [Node.tokens, ht])
    rw [Chain.route, Chain.node]
    exact Route.Leads.ite leads_skip (hbody _)
  | .each path body =>
    have hbody := leads_nodes hcustom settings body fun t ht => h t (by simp [Node.tokens, ht])
    rw [Chain.route, Chain.node]
    match (c.resolve path).value? with
    | none => exact leads_skip
    | some v => exact Route.Leads.ite (leads_loop hbody _ path v) leads_skip
  | .custom path e => exact absurd (h (.custom path e) (by simp [Node.tokens])) (hcustom path e)

/-- Nodes without custom tags are rendered along their route, with and without content safety. -/
theorem leads_nodes {ts : List Token} (hcustom : ∀ path e, .custom path e ∉ ts)
    (settings : Settings) (ns : List Node) (h : ∀ t ∈ Node.tokensAll ns, t ∈ ts) (c : Chain) :
    (Chain.routes ns c).Leads ts settings.contentSafety (Chain.nodes settings ns c) := by
  match ns with
  | [] => exact leads_skip
  | n :: ns =>
    have hn := leads_node hcustom settings n (fun t ht => h t (by simp [Node.tokensAll, ht])) c
    have hns := leads_nodes hcustom settings ns (fun t ht => h t (by simp [Node.tokensAll, ht])) c
    rw [Chain.routes, Chain.nodes]
    exact hn.andThen hns

end

/-! ## Templates -/

namespace Template

variable {text : String} {options : Options} {t : Template}

/-- Content safety has no say in what is accepted. -/
theorem parse_contentSafety (h : parse text options = .ok t) (safety : Bool) :
    parse text { options with contentSafety := safety } =
      .ok ⟨t.nodes, { options with contentSafety := safety }⟩ := by
  have hclaim : ∀ tag, Tokenizer.claim? { options with contentSafety := safety } tag =
      Tokenizer.claim? options tag := fun _ => rfl
  obtain ⟨hok, rfl⟩ := parse_eq_ok_iff.1 h
  have htokenize := tokenize_congr hclaim rfl text
  refine parse_eq_ok_iff.2 ⟨?_, ?_⟩
  · rw [htokenize]
    exact hok
  · rw [htokenize]

/-- With any settings, the tree of an accepted text without custom tags is rendered along its route,
    behind the output that was there. -/
theorem renderOnto_route (hparse : parse text options = .ok t)
    (hcustom : ∀ path e, .custom path e ∉ (tokenize text options).tokens) (settings : Options)
    (model : Value) (output : String) :
    let rendering := Template.renderOnto ⟨t.nodes, settings⟩ model output
    let route := Chain.routes t.nodes (.root model)
    rendering.output = output ++ route.written settings.contentSafety ∧
      rendering.error = route.error ∧
      ∀ v ∈ route.visits, v.token ∈ (tokenize text options).tokens := by
  have hmem : ∀ tok ∈ Node.tokensAll t.nodes, tok ∈ (tokenize text options).tokens := by
    rw [tokensAll_parse hparse]
    exact fun _ h => h
  have hleads := leads_nodes hcustom settings.toSettings t.nodes hmem (.root model)
  have hwrites := hleads.writes output
  rw [chain_nodes ⟨t.nodes, settings⟩, Outcome.mk.injEq] at hwrites
  exact ⟨hwrites.1, hwrites.2, hleads.visits_mem⟩

/-- Content safety changes how values of `{{path}}` tags are written and nothing else. With and
    without it the same templates are accepted, and renderings go the same route and end in the same
    error. The fragments on the route joined are the output without content safety; with it, those
    marked as escaped are escaped. They are the values of the `{{path}}` tags on the route, in their
    order. -/
theorem contentSafety_escapes (hparse : parse text options = .ok t)
    (hcustom : ∀ path e, .custom path e ∉ (tokenize text options).tokens) (model : Value)
    (output : String) :
    let route := Chain.routes t.nodes (.root model)
    let fragments := route.visits.map Visit.fragment
    ∃ bare safe, parse text { options with contentSafety := false } = .ok bare ∧
      parse text { options with contentSafety := true } = .ok safe ∧
      (bare.renderOnto model output).error = route.error ∧
      (safe.renderOnto model output).error = route.error ∧
      (bare.renderOnto model output).output = output ++ String.join (fragments.map (·.text)) ∧
      (safe.renderOnto model output).output = output ++ String.join (fragments.map fun f =>
        if f.mark = .escaped then Html.escape f.text else f.text) ∧
      (fragments.filter (·.mark = .escaped)).map (·.text) =
        route.visits.filterMap Visit.escapedText? ∧
      ∀ v ∈ route.visits, v.token ∈ (tokenize text options).tokens := by
  intro route fragments
  have hbare := renderOnto_route hparse hcustom { options with contentSafety := false } model output
  have hsafe := renderOnto_route hparse hcustom { options with contentSafety := true } model output
  refine ⟨_, _, parse_contentSafety hparse false, parse_contentSafety hparse true, hbare.2.1,
    hsafe.2.1, hbare.1.trans ?_, hsafe.1.trans ?_, fragments_escaped route.visits, hbare.2.2⟩
  · rw [Route.written_false]
  · rw [Route.written_true]

/-- A loop with both forms of value tags, and then one that has nothing to run over. -/
def brokenLoop : String :=
  "\x7b\x7b#each a\x7d\x7d\x7b\x7b.\x7d\x7d>\x7b\x7b\x7b../../b\x7d\x7d\x7d;\x7b\x7b/each\x7d\x7d" ++
    "\x7b\x7b#each b\x7d\x7d.\x7b\x7b/each\x7d\x7d"

theorem contentSafety_escapes_brokenLoop :
    let model := Value.map [("a", .seq [.str "<", .int 5, .str "&lt;"]), ("b", .str "\"")]
    let broken := some (Error.scalarUsedAsCollection "b" (some "string"))
    (∀ path e, .custom path e ∉ (tokenize brokenLoop {}).tokens) ∧
      ∃ bare safe, parse brokenLoop { contentSafety := false } = .ok bare ∧
        parse brokenLoop { contentSafety := true } = .ok safe ∧
        (bare.renderOnto model "0:").error = broken ∧ (safe.renderOnto model "0:").error = broken ∧
        (bare.renderOnto model "0:").output = "0:<>\";5>\";&lt;>\";" ∧
        (safe.renderOnto model "0:").output = "0:&lt;>\";5>\";&amp;lt;>\";" := by
  intro model broken
  have hparse := parse_eq_ok_iff.2 ⟨(by decide +kernel : (tokenize brokenLoop {}).errors = []), rfl⟩
  have htokens : (tokenize brokenLoop {}).tokens =
      [.eachOpen "a", .escaped ".", .content ">", .unescaped "../../b", .content ";", .eachClose "a",
        .eachOpen "b", .content ".", .eachClose "b"] := by
    with_unfolding_all rfl
  have hcustom : ∀ path e, .custom path e ∉ (tokenize brokenLoop {}).tokens := by
    rw [htokens]
    simp
  obtain ⟨bare, safe, hbare, hsafe, hfault, hfault', hplain, hescaped, -⟩ :=
    contentSafety_escapes hparse hcustom model "0:"
  exact ⟨hcustom, bare, safe, hbare, hsafe, hfault.trans (by decide +kernel),
    hfault'.trans (by decide +kernel), hplain.trans (by decide +kernel),
    hescaped.trans (by decide +kernel)⟩

end Template

end Stencil
