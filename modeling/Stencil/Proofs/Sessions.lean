import Stencil.Proofs.Concatenation
/-
  Renderings into one string. If the custom tags of a template append and look at nothing that was
  written before them, so does its rendering (`outcomeOnto_eq`). From one rendering it goes to a
  session of any length, in which renderings may end in errors: every step leaves the string as it
  found it, with the text behind it that it writes alone (`session_appends`).
-/

namespace Stencil

/-- The outcome of a rendering that finds other output before it. -/
def Outcome.behind (output : String) (o : Outcome) : Outcome := ⟨output ++ o.output, o.error⟩

theorem Outcome.behind_eq_iff {output text : String} {error : Option Error} {o : Outcome} :
    o.behind output = ⟨output ++ text, error⟩ ↔ o = ⟨text, error⟩ := by
  obtain ⟨out, fault⟩ := o
  simp only [behind, Outcome.mk.injEq, String.append_right_inj]

namespace Template

/-! ## One rendering -/

/-- What a rendering leaves that begins behind some output. -/
def outcomeOnto (t : Template) (model : Value) (output : String) : Outcome :=
  ⟨(t.renderOnto model output).output, (t.renderOnto model output).error⟩

/-- With these settings the custom tags of the template append, whatever was written before. -/
def AppendsOnly (t : Template) : Prop :=
  ∀ path e, .custom path e ∈ Node.tokensAll t.nodes → e.AppendsOnly t.options.toSettings

theorem AppendsOnly.of_parse {text : String} {options : Options} {t : Template}
    (hexpanders : ∀ e ∈ options.expanders, e.AppendsOnly options.toSettings)
    (hparse : parse text options = .ok t) : t.AppendsOnly := by
  intro path e hmem
  rw [(parse_eq_ok_iff_run.1 hparse).1]
  exact hexpanders e (expander_mem hparse hmem)

theorem outcomeOnto_eq {t : Template} (h : t.AppendsOnly) (model : Value) (output : String) :
    t.outcomeOnto model output = (t.outcome model).behind output := by
  have happends := Chain.appends_nodes h (.root model) output
  rwa [chain_nodes, ← outcome_eq] at happends

theorem render_eq_ok_iff {t : Template} {model : Value} {text : String} :
    t.render model = .ok text ↔ t.outcome model = ⟨text, none⟩ := by
  simp only [render, outcome, Outcome.mk.injEq]
  cases (t.renderOnto model "").error <;> simp

theorem render_eq_error_iff {t : Template} {model : Value} {e : Error} :
    t.render model = .error e ↔ ∃ text, t.outcome model = ⟨text, some e⟩ := by
  simp only [render, outcome, Outcome.mk.injEq]
  cases (t.renderOnto model "").error <;> simp

/-! ## Sessions -/

/-- What renderings into one string leave, step by step. Each goes on behind the output of the one
    before, also if that ended in an error. -/
def session (output : String) : List (Template × Value) → List Outcome
  | [] => []
  | (t, model) :: steps =>
    let o := t.outcomeOnto model output
    o :: session o.output steps

/-- The string before every step of a session, and after the last one. -/
def strings (output : String) (steps : List (Template × Value)) : List String :=
  output :: (session output steps).map (·.output)

theorem length_session (output : String) (steps : List (Template × Value)) :
    (session output steps).length = steps.length := by
  induction steps generalizing output with
  | nil => rfl
  | cons step steps ih => exact congrArg (· + 1) (ih _)

/-- Every step is one rendering onto the string before it. -/
theorem session_getElem? {output : String} {steps : List (Template × Value)} {i : Nat}
    {t : Template} {model : Value} (h : steps[i]? = some (t, model)) :
    ∃ start, (strings output steps)[i]? = some start ∧
      (session output steps)[i]? = some (t.outcomeOnto model start) := by
  induction steps generalizing output i with
  | nil => exact absurd h nofun
  | cons step steps ih =>
    cases i with
    | zero =>
      obtain rfl : step = (t, model) := by simpa using h
      exact ⟨output, rfl, rfl⟩
    | succ i =>
      rw [List.getElem?_cons_succ] at h
      exact ih h

/-- Templates whose custom tags only append are rendered into one string, each with the outcome
    that it has alone behind the string that it finds; so the string after a step is the string
    before it and the text of the step alone, whole or up to its error. Rendered by itself, a
    template gives a text exactly if its step adds that text and ends without error, and an error
    exactly if the step ends in it. -/
theorem session_appends {steps : List (Template × Value)} (h : ∀ step ∈ steps, step.1.AppendsOnly)
    (output : String) :
    (session output steps).length = steps.length ∧
      ∀ i t model, steps[i]? = some (t, model) →
        ∃ start, (strings output steps)[i]? = some start ∧
          (strings output steps)[i + 1]? = some (start ++ (t.outcome model).output) ∧
          (session output steps)[i]? = some ((t.outcome model).behind start) ∧
          (∀ text, t.render model = .ok text ↔
            (session output steps)[i]? = some ⟨start ++ text, none⟩) ∧
          ∀ e, t.render model = .error e ↔
            ∃ text, (session output steps)[i]? = some ⟨start ++ text, some e⟩ := by
  refine ⟨length_session output steps, fun i t model hstep => ?_⟩
  obtain ⟨start, hstart, hsession⟩ := @session_getElem? output _ _ _ _ hstep
  have happends : t.AppendsOnly := h _ (List.mem_of_getElem? hstep)
  rw [outcomeOnto_eq happends] at hsession
  refine ⟨start, hstart, ?_, hsession, fun text => ?_, fun e => ?_⟩
  · rw [strings, List.getElem?_cons_succ, List.getElem?_map, hsession]
    rfl
  · rw [hsession, Option.some.injEq, Outcome.behind_eq_iff]
    exact render_eq_ok_iff
  · simp only [hsession, Option.some.injEq, Outcome.behind_eq_iff]
    exact render_eq_error_iff

/-- A value and a loop. -/
def tally : String := "\x7b\x7ba\x7d\x7d:\x7b\x7b#each b\x7d\x7d\x7b\x7b.\x7d\x7d,\x7b\x7b/each\x7d\x7d"

/-- A section and a custom tag. -/
def stamped : String := "\x7b\x7b#a\x7d\x7d<\x7b\x7b/a\x7d\x7d\x7b\x7b@\x7d\x7d"

/-- Puts an exclamation mark behind all that has been written. -/
def stamp : Expander where
  id := 0
  name := "stamp"
  expand tag := if tag = "\x7b\x7b@\x7d\x7d" then some "" else none
  render _ _ := .output fun out => .replace (out ++ "!") .finish

theorem appendsOnly_stamp (settings : Settings) : stamp.AppendsOnly settings :=
  fun _ _ _ => rfl

/-- A session whose first rendering breaks off, since there is nothing to run over. -/
def threeSteps (s t : Template) : List (Template × Value) :=
  [(s, .map [("a", .int 1), ("b", .int 2)]), (t, .map [("a", .bool true)]),
    (s, .map [("b", .seq [.int 3])])]

theorem appendsOnly_threeSteps {s t : Template} (hs : s.AppendsOnly) (ht : t.AppendsOnly) :
    ∀ step ∈ threeSteps s t, step.1.AppendsOnly := by
  intro step hstep
  simp only [threeSteps, List.mem_cons, List.not_mem_nil, or_false] at hstep
  rcases hstep with rfl | rfl | rfl
  · exact hs
  · exact ht
  · exact hs

theorem session_appends_threeSteps :
    ∃ s t, parse tally {} = .ok s ∧ parse stamped { expanders := [stamp] } = .ok t ∧
      (∀ step ∈ threeSteps s t, step.1.AppendsOnly) ∧
      (session "0;" (threeSteps s t))[0]? =
        some ⟨"0;1:", some (.scalarUsedAsCollection "b" (some "integer"))⟩ ∧
      (session "0;" (threeSteps s t))[1]? = some ⟨"0;1:<!", none⟩ ∧
      t.render (.map [("a", .bool true)]) = .ok "<!" := by
  have hs := parse_eq_ok_iff.2 ⟨(by decide +kernel : (tokenize tally {}).errors = []), rfl⟩
  have ht := parse_eq_ok_iff.2 ⟨(by decide +kernel :
    (tokenize stamped { expanders := [stamp] }).errors = []), rfl⟩
  have h := appendsOnly_threeSteps (.of_parse (by simp) hs)
    (.of_parse (fun e he => List.mem_singleton.1 he ▸ appendsOnly_stamp _) ht)
  obtain ⟨-, hsteps⟩ := session_appends h "0;"
  obtain ⟨first, hfirst, hsecond, hbroken, -⟩ := hsteps 0 _ _ rfl
  obtain ⟨second, hsecond', -, hwhole, hrender, -⟩ := hsteps 1 _ _ rfl
  obtain rfl : first = "0;" := (Option.some.inj hfirst).symm
  obtain rfl := Option.some.inj (hsecond.symm.trans hsecond')
  refine ⟨_, _, hs, ht, h, hbroken.trans (by decide +kernel), hwhole.trans (by decide +kernel), ?_⟩
  exact (hrender "<!").2 (hwhole.trans (by decide +kernel))

end Template

end Stencil
