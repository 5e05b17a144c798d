import Mathlib.Logic.Function.Iterate
import Stencil.Proofs.Grammar
import Stencil.Proofs.Tours
/-
  Following paths. Joined by a dot, two paths have the steps of the first and then those of the
  second, whatever dots meet there (`steps_join`), so one path leads where the two lead one after
  the other. Parent steps undo keys, and at the root they stay.
-/

namespace Stencil

namespace Path

/-! ## The steps of a path -/

theorem stepsOf_parent (cs : List Char) :
    stepsOf ('.' :: '.' :: '/' :: cs) = .parent :: stepsOf cs := by
  rw [stepsOf, if_pos rfl]

theorem stepsOf_back (cs : List Char) :
    stepsOf ('.' :: '.' :: '\\' :: cs) = .parent :: stepsOf cs := by
  rw [stepsOf, if_pos rfl]

/-- A dot only separates, unless another dot and a slash follow it. -/
theorem stepsOf_dot {cs : List Char} (hslash : ∀ rest, cs ≠ '.' :: '/' :: rest)
    (hback : ∀ rest, cs ≠ '.' :: '\\' :: rest) : stepsOf ('.' :: cs) = stepsOf cs := by
  rw [stepsOf, if_pos rfl]
  · exact hslash
  · exact hback

theorem stepsOf_dot_of_head {cs : List Char} (h : cs.head? ≠ some '.') :
    stepsOf ('.' :: cs) = stepsOf cs := by
  refine stepsOf_dot ?_ ?_
  · rintro rest rfl
    exact h rfl
  · rintro rest rfl
    exact h rfl

/-- What stands before a dot, or at the end, is a key. -/
theorem stepsOf_name {name rest : List Char} (hne : name ≠ []) (hdot : '.' ∉ name)
    (hrest : ∀ c ∈ rest.head?, c = '.') :
    stepsOf (name ++ rest) = .key (String.ofList name) :: stepsOf rest := by
  obtain ⟨c, cs, rfl⟩ := List.exists_cons_of_ne_nil hne
  rw [List.mem_cons, not_or] at hdot
  have hcs : ∀ d ∈ cs, decide (d ≠ '.') = true := by
    intro d hd
    rw [decide_eq_true_iff]
    rintro rfl
    exact hdot.2 hd
  have hend : ∀ d ∈ rest.head?, decide (d ≠ '.') = false := by
    intro d hd
    simp [hrest d hd]
  obtain ⟨htake, hdrop⟩ := span_append hcs hend
  rw [List.cons_append, stepsOf.eq_def]
  simp only [if_neg (Ne.symm hdot.1), htake, hdrop]

/-- A valid path begins with no slash of either kind, and not with a dot and a slash. -/
theorem Valid.no_slash {cs : List Char} (h : Valid cs) :
    ∀ c ∈ ['/', '\\'], ∀ rest, cs ≠ c :: rest ∧ cs ≠ '.' :: c :: rest := by
  intro c hc rest
  obtain ⟨hname, hdot⟩ : isNameChar c = false ∧ c ≠ '.' := by
    rcases List.mem_pair.1 hc with rfl | rfl
    · exact ⟨by decide, by decide⟩
    · exact ⟨by decide, by decide⟩
  constructor
  · rintro rfl
    cases h with
    | name h => simp [hname] at h
    | dot => exact hdot rfl
    | parent => exact hdot rfl
  · rintro rfl
    cases h with
    | name h => exact absurd h (by decide)
    | dot h =>
      cases h with
      | name h => simp [hname] at h
      | dot => exact hdot rfl
      | parent => exact hdot rfl
    | parent => exact hdot rfl

/-- A dot before a valid path only separates, also when it stands behind other dots. -/
theorem Valid.stepsOf_dot {cs ds : List Char} (hds : Valid ds)
    (hslash : ∀ rest, cs ≠ '.' :: '/' :: rest) (hback : ∀ rest, cs ≠ '.' :: '\\' :: rest) :
    stepsOf ('.' :: (cs ++ '.' :: ds)) = stepsOf (cs ++ '.' :: ds) := by
  have hends : ∀ c ∈ ['/', '\\'], (∀ rest, cs ≠ '.' :: c :: rest) →
      ∀ rest, cs ++ '.' :: ds ≠ '.' :: c :: rest := by
    intro c hc hcs rest heq
    match cs with
    | [] => exact (hds.no_slash c hc rest).1 (List.cons.inj heq).2
    | [d] =>
      obtain ⟨hdot, -⟩ := List.cons.inj (List.cons.inj heq).2
      subst hdot
      simp at hc
    | d :: e :: cs =>
      obtain ⟨rfl, htail⟩ := List.cons.inj heq
      obtain ⟨rfl, -⟩ := List.cons.inj htail
      exact hcs cs rfl
  exact Path.stepsOf_dot (hends '/' (by simp) hslash) (hends '\\' (by simp) hback)

/-- The name that a path begins with ends at a dot behind it at the latest. -/
theorem span_append_dot (cs ds : List Char) :
    (cs ++ '.' :: ds).takeWhile (· ≠ '.') = cs.takeWhile (· ≠ '.') ∧
      (cs ++ '.' :: ds).dropWhile (· ≠ '.') = cs.dropWhile (· ≠ '.') ++ '.' :: ds := by
  induction cs with
  | nil => simp
  | cons c cs ih =>
    by_cases hc : c = '.'
    · simp [hc]
    · simp only [ne_eq, decide_not] at ih
      simp [hc, ih]

/-- Joined by a dot, a path and a valid one have the steps of the first and then those of the
    second. -/
theorem stepsOf_join (cs : List Char) {ds : List Char} (hds : Valid ds) :
    stepsOf (cs ++ '.' :: ds) = stepsOf cs ++ stepsOf ds := by
  fun_induction stepsOf cs with
  | case1 =>
    exact Path.stepsOf_dot (fun rest => (hds.no_slash '/' (by simp) rest).2)
      (fun rest => (hds.no_slash '\\' (by simp) rest).2)
  | case2 rest ih => exact (stepsOf_parent _).trans (congrArg (.parent :: ·) ih)
  | case3 rest ih => exact (stepsOf_back _).trans (congrArg (.parent :: ·) ih)
  | case4 rest hslash hback ih => exact (hds.stepsOf_dot hslash hback).trans ih
  | case5 c cs hc ih =>
    obtain ⟨htake, hdrop⟩ := span_append_dot cs ds
    rw [List.cons_append, stepsOf.eq_def]
    simp only [if_neg hc, htake, hdrop, ih, List.cons_append]

theorem steps_join (p : String) {q : String} (hq : isValid q = true) :
    steps (p ++ "." ++ q) = steps p ++ steps q := by
  have hjoin : (p ++ "." ++ q).toList = p.toList ++ '.' :: q.toList := by simp
  rw [steps, hjoin, stepsOf_join _ (isValid_iff_valid.1 hq)]
  rfl

/-- What stands between the dots of a path. -/
structure IsName (name : String) : Prop where
  ne_empty : name ≠ ""
  chars : ∀ c ∈ name.toList, InName c

theorem IsName.no_dot {name : String} (h : IsName name) : '.' ∉ name.toList :=
  fun hmem => absurd (h.chars '.' hmem) (by decide)

theorem IsName.ne_nil {name : String} (h : IsName name) : name.toList ≠ [] :=
  fun heq => h.ne_empty (String.toList_eq_nil_iff.1 heq)

theorem IsName.head_intercalate {name : String} (h : IsName name) (names : List String)
    (rest : List Char) :
    ((".".intercalate (name :: names)).toList ++ rest).head? ≠ some '.' := by
  obtain ⟨tail, htail⟩ : ∃ tail, (".".intercalate (name :: names)).toList ++ rest =
      name.toList ++ tail := by
    cases names with
    | nil => exact ⟨rest, by simp [String.intercalate_singleton]⟩
    | cons next names => exact ⟨_, by simp [String.intercalate_cons_cons]; rfl⟩
  obtain ⟨c, cs, hcs⟩ := List.exists_cons_of_ne_nil h.ne_nil
  rw [htail, hcs]
  intro heq
  obtain rfl := Option.some.inj heq
  exact h.no_dot (by rw [hcs]; exact List.mem_cons_self)

/-- Names joined by dots are followed one by one. -/
theorem stepsOf_names {names : List String} (h : ∀ name ∈ names, IsName name) {rest : List Char}
    (hrest : ∀ c ∈ rest.head?, c = '.') :
    stepsOf ((".".intercalate names).toList ++ rest) = names.map .key ++ stepsOf rest := by
  induction names with
  | nil => simp
  | cons name names ih =>
    have hname := h name List.mem_cons_self
    cases names with
    | nil =>
      rw [String.intercalate_singleton, stepsOf_name hname.ne_nil hname.no_dot hrest,
        String.ofList_toList]
      rfl
    | cons next names =>
      have hnames : ∀ other ∈ next :: names, IsName other :=
        fun other hother => h other (List.mem_cons_of_mem name hother)
      have hsplit : (".".intercalate (name :: next :: names)).toList ++ rest =
          name.toList ++ '.' :: ((".".intercalate (next :: names)).toList ++ rest) := by
        simp [String.intercalate_cons_cons]
      have hplain := (hnames next List.mem_cons_self).head_intercalate names rest
      rw [hsplit, stepsOf_name hname.ne_nil hname.no_dot (by simp), String.ofList_toList,
        stepsOf_dot_of_head hplain, ih hnames]
      rfl

/-- The path up by a number of contexts. -/
def climb (count : Nat) : String := String.join (List.replicate count "../")

theorem climb_succ (count : Nat) :
    (climb (count + 1)).toList = '.' :: '.' :: '/' :: (climb count).toList := by
  rw [climb, List.replicate_succ, String.join_cons, String.toList_append]
  rfl

theorem stepsOf_climb (count : Nat) :
    stepsOf (climb count).toList = List.replicate count .parent := by
  induction count with
  | zero => rw [climb, List.replicate_zero, String.join_nil, String.toList_empty, stepsOf,
      List.replicate_zero]
  | succ count ih => rw [climb_succ, stepsOf_parent, List.replicate_succ, ih]

theorem steps_names_climb {names : List String} (h : ∀ name ∈ names, IsName name) (count : Nat) :
    steps (".".intercalate names ++ climb count) =
      names.map .key ++ List.replicate count .parent := by
  have hhead : ∀ c ∈ (climb count).toList.head?, c = '.' := by
    intro c hc
    cases count with
    | zero => simp [climb] at hc
    | succ count =>
      rw [climb_succ] at hc
      exact (Option.some.inj hc).symm
  rw [steps, String.toList_append, stepsOf_names h hhead, stepsOf_climb]

end Path

/-! ## Down and up again -/

namespace Arena

variable {arena : Arena} {id : Nat} {model : Value}

theorem follow_append (arena : Arena) (id : Nat) (steps more : List Path.Step) :
    arena.follow id (steps ++ more) =
      (arena.follow id steps).1.follow (arena.follow id steps).2 more := List.foldl_append

/-- A path and a valid one joined by a dot lead where they lead one after the other, by the same
    records. -/
theorem resolve_join (arena : Arena) (id : Nat) (p : String) {q : String}
    (hq : Path.isValid q = true) :
    arena.resolve id (p ++ "." ++ q) =
      (arena.resolve id p).1.resolve (arena.resolve id p).2 q := by
  simp only [resolve_eq_follow, Path.steps_join p hq, follow_append]

theorem follow_parents (arena : Arena) (id count : Nat) :
    arena.follow id (List.replicate count .parent) = (arena, arena.up^[count] id) := by
  induction count generalizing id with
  | zero => rfl
  | succ count ih => exact ih (arena.up id)

/-- As many contexts above the end of a way down by keys is its start. -/
theorem up_follow_keys (arena : Arena) (id : Nat) (names : List String) :
    (arena.follow id (names.map .key)).1.up^[names.length]
      (arena.follow id (names.map .key)).2 = id := by
  induction names generalizing arena id with
  | nil => rfl
  | cons name names ih =>
    let value? := (arena.value? id).bind (·.get? name)
    have hrecord := getElem?_push arena name value? (some id)
    have hback := growsTo_follow _ arena.size (names.map .key) _ _ hrecord
    rw [List.length_cons, Function.iterate_succ_apply', List.map_cons, follow_cons, ih, up]
    exact congrArg (Option.getD · _) (parent?_of_record hback)

/-- A way down by names and up again by as many parent steps and some more. -/
theorem resolve_names_climb (arena : Arena) (id : Nat) {names : List String}
    (h : ∀ name ∈ names, Path.IsName name) (surplus : Nat) :
    let path := ".".intercalate names ++ Path.climb (names.length + surplus)
    (arena.resolve id path).2 = (arena.resolve id path).1.up^[surplus] id := by
  intro path
  have hpath : arena.resolve id path = ((arena.follow id (names.map .key)).1,
      (arena.follow id (names.map .key)).1.up^[names.length + surplus]
        (arena.follow id (names.map .key)).2) := by
    rw [resolve_eq_follow, Path.steps_names_climb h, follow_append, follow_parents]
  rw [hpath]
  simp only
  rw [Nat.add_comm, Function.iterate_add_apply, up_follow_keys]

theorem Grounded.up_zero (h : arena.Grounded model) : arena.up 0 = 0 := by
  rw [up, parent?_of_record h.root]
  rfl

/-- Going up at least as often as there are contexts above leads to the root. -/
theorem Grounded.up_root (h : arena.Grounded model) : ∀ id < arena.size, ∀ surplus,
    (arena.lineage id).length ≤ surplus + 1 → arena.up^[surplus] id = 0 := by
  refine h.induct (fun surplus _ => Function.iterate_fixed h.up_zero surplus) ?_
  intro id parent r hr hparent ih surplus hsurplus
  have hup : arena.parent? id = some parent := by rw [parent?_of_record hr, hparent]
  rw [h.lineage_of_parent hup, List.length_cons] at hsurplus
  cases surplus with
  | zero =>
    rw [lineage] at hsurplus
    simp at hsurplus
  | succ surplus =>
    rw [Function.iterate_succ_apply, up, hup]
    exact ih surplus (Nat.le_of_succ_le_succ hsurplus)

/-- Two contexts with the same key, value and existence, and the same contexts above them. -/
structure Alike (arena : Arena) (i j : Nat) : Prop where
  key : arena.key i = arena.key j
  value? : arena.value? i = arena.value? j
  holds : arena.holds i = arena.holds j
  lineage : arena.lineage i = arena.lineage j

/-- Contexts that show the same chain are alike. -/
theorem Grounded.alike (h : arena.Grounded model) {i j : Nat} {c : Chain} (hi : arena.Shows i c)
    (hj : arena.Shows j c) : arena.Alike i j := by
  obtain ⟨p, hp, hpkey, hpvalue, -⟩ := hi.exists_record
  obtain ⟨q, hq, hqkey, hqvalue, -⟩ := hj.exists_record
  have hvalue : arena.value? i = arena.value? j := by
    rw [value?_of_record hp, value?_of_record hq, hpvalue, hqvalue]
  refine ⟨?_, hvalue, ?_, ?_⟩
  · rw [key_of_record hp, key_of_record hq, hpkey, hqkey]
  · rw [holds, holds, hvalue]
  · rw [h.lineage_eq hi, h.lineage_eq hj]

end Arena

theorem Chain.resolve_join (c : Chain) (p : String) {q : String} (hq : Path.isValid q = true) :
    c.resolve (p ++ "." ++ q) = (c.resolve p).resolve q := by
  simp only [resolve, Path.steps_join p hq, List.foldl_append]

namespace Tour

/-- From every context of a tour, two paths joined by a dot lead to what they lead to one after the
    other: by the same records when followed in the same arena, and to contexts that are alike when
    followed in turn. Only the second path has to be valid. A way down by names and up again by as
    many parent steps is back at the context itself, and with parent steps to spare for the contexts
    above it, at the root. -/
theorem run_resolve (model : Value) (legs : List (Nat × Leg)) (id : Nat)
    (hid : id ∈ ((start model).run legs).contexts) :
    let arena := ((start model).run legs).arena
    (∀ p q, Path.isValid q = true →
      arena.resolve id (p ++ "." ++ q) =
          (arena.resolve id p).1.resolve (arena.resolve id p).2 q ∧
        let direct := arena.resolve id (p ++ "." ++ q)
        let first := direct.1.resolve id p
        let second := first.1.resolve first.2 q
        second.1.Alike direct.2 second.2) ∧
      ∀ names : List String, (∀ name ∈ names, Path.IsName name) →
        (arena.resolve id (".".intercalate names ++ Path.climb names.length)).2 = id ∧
          ∀ surplus, (arena.lineage id).length ≤ surplus + 1 →
            (arena.resolve id
              (".".intercalate names ++ Path.climb (names.length + surplus))).2 = 0 := by
  intro arena
  have h : ((start model).run legs).Sound model := (sound_start model).run legs
  have hlt : id < arena.size := h.lt_size id hid
  refine ⟨fun p q hq => ⟨arena.resolve_join id p hq, ?_⟩, fun names hnames => ⟨?_, ?_⟩⟩
  · intro direct first second
    obtain ⟨c, hc⟩ := h.grounded.exists_shows id hlt
    obtain ⟨-, hgrow, hdirect⟩ := hc.resolve (p ++ "." ++ q)
    obtain ⟨-, hgrow', hfirst⟩ := (hc.mono hgrow).resolve p
    obtain ⟨-, hgrow'', hsecond⟩ := hfirst.resolve q
    rw [c.resolve_join p hq] at hdirect
    obtain ⟨hground, hlt'⟩ := h.grounded.follow hlt (Path.steps (p ++ "." ++ q))
    obtain ⟨hground, hlt'⟩ := hground.follow (hgrow.lt_size hlt) (Path.steps p)
    obtain ⟨hground, -⟩ := hground.follow hlt' (Path.steps q)
    exact hground.alike (hdirect.mono (hgrow'.trans hgrow'')) hsecond
  · exact arena.resolve_names_climb id hnames 0
  · intro surplus hsurplus
    rw [arena.resolve_names_climb id hnames surplus]
    let steps := Path.steps (".".intercalate names ++ Path.climb (names.length + surplus))
    have hgrow : arena.GrowsTo (arena.follow id steps).1 := Arena.growsTo_follow arena id steps
    obtain ⟨hground, -⟩ := h.grounded.follow hlt steps
    rw [← h.grounded.lineage_mono hground hgrow hlt] at hsurplus
    exact hground.up_root id (hgrow.lt_size hlt) surplus hsurplus

/-- Four dots meet a slash, and the context is an element below two keys. -/
theorem run_resolve_element :
    let t := (start (.map [("a", .map [("b", .str "x")])])).run
      [(0, .resolve "a.b"), (1, .element 7 (.map [("c", .str "x")]))]
    3 ∈ t.contexts ∧ Path.isValid "../../b" = true ∧ (t.arena.lineage 3).length ≤ 3 + 1 ∧
      t.arena.resolve 3 ("c." ++ "." ++ "../../b") =
        (t.arena.resolve 3 "c.").1.resolve (t.arena.resolve 3 "c.").2 "../../b" ∧
      (t.arena.resolve 3 (".".intercalate ["c", "d"] ++ Path.climb 2)).2 = 3 ∧
      (t.arena.resolve 3 (".".intercalate ["c", "d"] ++ Path.climb (2 + 3))).2 = 0 := by
  intro t
  have hid : 3 ∈ t.contexts := by decide +kernel
  have hvalid : Path.isValid "../../b" = true := by decide +kernel
  have hlength : (t.arena.lineage 3).length ≤ 3 + 1 := by decide +kernel
  have hnames : ∀ name ∈ ["c", "d"], Path.IsName name := by
    intro name hname
    rcases List.mem_pair.1 hname with rfl | rfl
    · exact ⟨by decide, by simp [Path.InName]⟩
    · exact ⟨by decide, by simp [Path.InName]⟩
  obtain ⟨hjoin, hclimb⟩ := run_resolve (.map [("a", .map [("b", .str "x")])])
    [(0, .resolve "a.b"), (1, .element 7 (.map [("c", .str "x")]))] 3 hid
  exact ⟨hid, hvalid, hlength, (hjoin "c." "../../b" hvalid).1, (hclimb _ hnames).1,
    (hclimb _ hnames).2 3 hlength⟩

end Tour

end Stencil
