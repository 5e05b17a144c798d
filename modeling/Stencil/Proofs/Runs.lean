import Mathlib.Data.List.SplitBy
import Stencil.Proofs.Resolution
/-
  What the steps of a valid path are made of. Read word by word (`Worded`), a valid path is names,
  single dots and `../`, and each of these is a step of its own or none. So the steps hold the names
  of the path and as many parent steps as it has slashes, and written one after the other they are
  the path without its single dots (`steps_written`).
-/

namespace Stencil.Path

/-! ## Maximal runs -/

/-- A text cut wherever characters of a kind and others meet. -/
def stretches (p : Char → Bool) (cs : List Char) : List (List Char) :=
  cs.splitBy fun a b => p a == p b

/-- The maximal runs of characters of a kind. -/
def runs (p : Char → Bool) (cs : List Char) : List (List Char) := (stretches p cs).filter (·.all p)

/-- A text without its single dots, that is without the maximal runs of dots that are one dot. -/
def withoutSingleDots (cs : List Char) : List Char :=
  ((stretches (· == '.') cs).filter (· ≠ ['.'])).flatten

section Runs

variable {p : Char → Bool} {run gap rest cs : List Char} {c : Char}

/-- A run of one kind that ends where the other kind begins is the first stretch. -/
theorem stretches_append {kind : Bool} (hne : run ≠ []) (hrun : ∀ c ∈ run, p c = kind)
    (hrest : ∀ c ∈ rest.head?, p c = !kind) :
    stretches p (run ++ rest) = run :: stretches p rest := by
  have hmeet : ∀ a ∈ run.getLast?, ∀ b ∈ rest.head?, (p a == p b) = false := by
    intro a ha b hb
    rw [hrun a (List.mem_of_getLast? ha), hrest b hb]
    cases kind <;> rfl
  have hsame : run.IsChain fun a b => (p a == p b) = true := by
    refine List.Pairwise.isChain (List.pairwise_of_forall_mem_list ?_)
    intro a ha b hb
    rw [hrun a ha, hrun b hb]
    exact beq_self_eq_true kind
  unfold stretches
  rw [List.splitBy_append hmeet, List.splitBy_of_isChain hne hsame, List.singleton_append]

theorem runs_append_run (hne : run ≠ []) (hrun : ∀ c ∈ run, p c = true)
    (hrest : ∀ c ∈ rest.head?, p c = false) : runs p (run ++ rest) = run :: runs p rest := by
  unfold runs
  rw [stretches_append hne hrun hrest, List.filter_cons, if_pos (List.all_eq_true.2 hrun)]

theorem runs_append_gap (hgap : ∀ c ∈ gap, p c = false) (hrest : ∀ c ∈ rest.head?, p c = true) :
    runs p (gap ++ rest) = runs p rest := by
  cases gap with
  | nil => rfl
  | cons c gap =>
    have hall : ¬(c :: gap).all p = true := by
      rw [List.all_cons, hgap c List.mem_cons_self, Bool.false_and]
      exact Bool.false_ne_true
    unfold runs
    rw [stretches_append (List.cons_ne_nil c gap) hgap hrest, List.filter_cons, if_neg hall]

/-- A text is a stretch of characters that are not of a kind and what follows it. -/
theorem exists_gap (p : Char → Bool) (cs : List Char) : ∃ gap rest, cs = gap ++ rest ∧
    (∀ c ∈ gap, p c = false) ∧ ∀ c ∈ rest.head?, p c = true := by
  refine ⟨cs.takeWhile (!p ·), cs.dropWhile (!p ·), (List.takeWhile_append_dropWhile ..).symm, ?_, ?_⟩
  · intro c hc
    simpa using List.all_eq_true.1 List.all_takeWhile c hc
  · intro c hc
    have hhead := List.head?_dropWhile_not (!p ·) cs
    rw [Option.mem_def.1 hc] at hhead
    simpa using hhead

theorem runs_cons_of_not (hc : p c = false) : runs p (c :: cs) = runs p cs := by
  obtain ⟨gap, rest, rfl, hgap, hrest⟩ := exists_gap p cs
  have hcons : ∀ d ∈ c :: gap, p d = false := List.forall_mem_cons.2 ⟨hc, hgap⟩
  rw [← List.cons_append, runs_append_gap hcons hrest, runs_append_gap hgap hrest]

end Runs

section Dots

variable {gap rest cs : List Char} {c : Char}

theorem withoutSingleDots_append (hgap : '.' ∉ gap) (hrest : ∀ c ∈ rest.head?, c = '.') :
    withoutSingleDots (gap ++ rest) = gap ++ withoutSingleDots rest := by
  by_cases hne : gap = []
  · rw [hne]
    rfl
  · have hother : ∀ c ∈ gap, (c == '.') = false := by
      intro c hc
      rw [beq_eq_false_iff_ne]
      rintro rfl
      exact hgap hc
    have hdot : ∀ c ∈ rest.head?, (c == '.') = !false := by
      intro c hc
      rw [hrest c hc]
      rfl
    have hkept : decide (gap ≠ ['.']) = true := by
      rw [decide_eq_true_iff]
      rintro rfl
      exact hgap List.mem_cons_self
    unfold withoutSingleDots
    rw [stretches_append hne hother hdot, List.filter_cons, if_pos hkept, List.flatten_cons]

theorem withoutSingleDots_cons (hc : c ≠ '.') :
    withoutSingleDots (c :: cs) = c :: withoutSingleDots cs := by
  obtain ⟨gap, rest, rfl, hgap, hrest⟩ := exists_gap (· == '.') cs
  have hnot : '.' ∉ gap := by
    intro hmem
    exact absurd (hgap '.' hmem) (by decide)
  have hdot : ∀ c ∈ rest.head?, c = '.' := by
    intro c hc
    exact beq_iff_eq.1 (hrest c hc)
  have hcons : '.' ∉ c :: gap := by
    rw [List.mem_cons, not_or]
    exact ⟨Ne.symm hc, hnot⟩
  rw [← List.cons_append, withoutSingleDots_append hcons hdot, withoutSingleDots_append hnot hdot,
    List.cons_append]

/-- A maximal run of dots stays as it is, unless it is a single dot. -/
theorem withoutSingleDots_run {run : List Char} (hne : run ≠ []) (hrun : ∀ c ∈ run, c = '.')
    (hnext : rest.head? ≠ some '.') :
    withoutSingleDots (run ++ rest) =
      (if run = ['.'] then [] else run) ++ withoutSingleDots rest := by
  have hdots : ∀ c ∈ run, (c == '.') = true := by
    intro c hc
    rw [hrun c hc]
    rfl
  have hother : ∀ c ∈ rest.head?, (c == '.') = !true := by
    intro c hc
    rw [Bool.not_true, beq_eq_false_iff_ne]
    rintro rfl
    exact hnext hc
  unfold withoutSingleDots
  rw [stretches_append hne hdots hother, List.filter_cons]
  by_cases hsingle : run = ['.']
  · rw [if_pos hsingle, if_neg (by simpa using hsingle), List.nil_append]
  · rw [if_neg hsingle, if_pos (by simpa using hsingle), List.flatten_cons]

theorem withoutSingleDots_dot (hnext : rest.head? ≠ some '.') :
    withoutSingleDots ('.' :: rest) = withoutSingleDots rest :=
  withoutSingleDots_run (List.cons_ne_nil '.' []) (by simp) hnext

theorem withoutSingleDots_pair (hnext : rest.head? ≠ some '.') :
    withoutSingleDots ('.' :: '.' :: rest) = '.' :: '.' :: withoutSingleDots rest :=
  withoutSingleDots_run (List.cons_ne_nil '.' ['.']) (by simp) hnext

end Dots

/-! ## Valid paths word by word -/

/-- A valid path is made of whole names, of dots with no dot behind them, and of `../`. -/
inductive Worded : List Char → Prop where
  | nil : Worded []
  | name {name rest : List Char} (hne : name ≠ []) (hname : ∀ c ∈ name, isNameChar c = true)
    (hnext : ∀ c ∈ rest.head?, c = '.') (hrest : Worded rest) : Worded (name ++ rest)
  | dot {rest : List Char} (hrest : Worded rest) (hnext : rest.head? ≠ some '.') :
    Worded ('.' :: rest)
  | parent {rest : List Char} (hrest : Worded rest) : Worded ('.' :: '.' :: '/' :: rest)

/-- A name character begins a name, or is put before the name that the path begins with. -/
theorem Worded.name_cons {c : Char} {cs : List Char} (hc : isNameChar c = true) (h : Worded cs) :
    Worded (c :: cs) := by
  have halone : ∀ d ∈ [c], isNameChar d = true := List.forall_mem_singleton.2 hc
  cases h with
  | nil => exact .name (List.cons_ne_nil c []) halone (by simp) .nil
  | @name name rest hne hname hnext hrest =>
    exact .name (List.cons_ne_nil c name) (List.forall_mem_cons.2 ⟨hc, hname⟩) hnext hrest
  | dot hrest hnext => exact .name (List.cons_ne_nil c []) halone (by simp) (.dot hrest hnext)
  | parent hrest => exact .name (List.cons_ne_nil c []) halone (by simp) (.parent hrest)

theorem Valid.worded {cs : List Char} (h : Valid cs) : Worded cs := by
  induction h with
  | nil => exact .nil
  | name hc hcs ih => exact ih.name_cons hc
  | dot hcs hnext ih => exact .dot ih hnext
  | parent hcs ih => exact .parent ih

/-! ## The steps of a valid path -/

/-- A step as it stands in a path. -/
def Step.written : Step → List Char
  | .parent => ['.', '.', '/']
  | .key name => name.toList

theorem no_dot_of_name {name : List Char} (h : ∀ c ∈ name, isNameChar c = true) : '.' ∉ name :=
  fun hmem => (isNameChar_plain (h '.' hmem)).1 rfl

theorem no_slash_of_name {name : List Char} (h : ∀ c ∈ name, isNameChar c = true) : '/' ∉ name :=
  fun hmem => (isNameChar_plain (h '/' hmem)).2 rfl

variable {cs : List Char}

/-- The keys are the names of the path. -/
theorem Worded.keys_stepsOf (h : Worded cs) :
    (stepsOf cs).filterMap Step.key? = (runs isNameChar cs).map String.ofList := by
  induction h with
  | nil => rw [stepsOf]; rfl
  | @name name rest hne hname hnext hrest ih =>
    have hend : ∀ c ∈ rest.head?, isNameChar c = false := by
      intro c hc
      rw [hnext c hc]
      decide
    rw [stepsOf_name hne (no_dot_of_name hname) hnext, runs_append_run hne hname hend,
      List.filterMap_cons, Step.key?, ih, List.map_cons]
  | dot hrest hnext ih =>
    rw [stepsOf_dot_of_head hnext, runs_cons_of_not (by decide), ih]
  | parent hrest ih =>
    rw [stepsOf_parent, runs_cons_of_not (by decide), runs_cons_of_not (by decide),
      runs_cons_of_not (by decide), List.filterMap_cons, Step.key?, ih]

/-- Every slash belongs to a parent step, and every parent step has one. -/
theorem Worded.count_parent_stepsOf (h : Worded cs) :
    (stepsOf cs).count .parent = cs.count '/' := by
  induction h with
  | nil => rw [stepsOf]; rfl
  | @name name rest hne hname hnext hrest ih =>
    have hslash : name.count '/' = 0 := List.count_eq_zero.2 (no_slash_of_name hname)
    rw [stepsOf_name hne (no_dot_of_name hname) hnext, List.count_cons_of_ne (by simp), ih,
      List.count_append, hslash, Nat.zero_add]
  | dot hrest hnext ih =>
    rw [stepsOf_dot_of_head hnext, ih, List.count_cons_of_ne (by decide)]
  | parent hrest ih =>
    rw [stepsOf_parent, List.count_cons_self, ih, List.count_cons_of_ne (by decide),
      List.count_cons_of_ne (by decide), List.count_cons_self]

/-- The steps, written one after the other, lack the single dots of the path and nothing else. -/
theorem Worded.written_stepsOf (h : Worded cs) :
    (stepsOf cs).flatMap Step.written = withoutSingleDots cs := by
  induction h with
  | nil => rw [stepsOf]; rfl
  | @name name rest hne hname hnext hrest ih =>
    have hdot : '.' ∉ name := no_dot_of_name hname
    rw [stepsOf_name hne hdot hnext, withoutSingleDots_append hdot hnext, List.flatMap_cons, ih,
      Step.written, String.toList_ofList]
  | dot hrest hnext ih =>
    rw [stepsOf_dot_of_head hnext, withoutSingleDots_dot hnext, ih]
  | parent hrest ih =>
    rw [stepsOf_parent, withoutSingleDots_pair (by simp), withoutSingleDots_cons (by decide),
      List.flatMap_cons, ih]
    rfl

/-- The steps of a valid path lose nothing of it and invent nothing. Their keys are its maximal runs
    of name characters, in order; there are as many parent steps as slashes; and written one after
    the other they are the path without its single dots. -/
theorem steps_written {path : String} (h : isValid path = true) :
    keys path = (runs (fun c => decide (InName c)) path.toList).map String.ofList ∧
      (steps path).count .parent = path.toList.count '/' ∧
      (steps path).flatMap Step.written = withoutSingleDots path.toList := by
  have hworded : Worded path.toList := (isValid_iff_valid.1 h).worded
  have hname : isNameChar = fun c => decide (InName c) := by
    funext c
    rw [Bool.eq_iff_iff, isNameChar_iff, decide_eq_true_iff]
  rw [← hname]
  exact ⟨hworded.keys_stepsOf, hworded.count_parent_stepsOf, hworded.written_stepsOf⟩

/-- Dots on both sides of parent steps and at the end, where only the pairs are kept. -/
theorem steps_written_dots :
    isValid "a_1../../.b.c." = true ∧
      keys "a_1../../.b.c." = ["a_1", "b", "c"] ∧
      (steps "a_1../../.b.c.").count .parent = 2 ∧
      (steps "a_1../../.b.c.").flatMap Step.written = "a_1../../bc".toList := by
  have hvalid : isValid "a_1../../.b.c." = true := by decide +kernel
  obtain ⟨hkeys, hcount, hwritten⟩ := steps_written hvalid
  exact ⟨hvalid, hkeys.trans (by decide +kernel), hcount.trans (by decide +kernel),
    hwritten.trans (by decide +kernel)⟩

end Stencil.Path
