import Stencil.Proofs.Inference
import Stencil.Proofs.Legality
import Stencil.Proofs.Resolution
/-
  Nothing of a shape is lost in its outline (`eq_of_outline_eq`). An outline is a list of rows, each
  a name with its depth and use. Names out of valid paths have no blank, colon or newline in them,
  so the text tells the rows; and the depths of the rows tell where the part below a name ends.
-/

namespace Stencil

/-! ## Names -/

namespace Path

/-- A name with which a row of an outline can be read again. -/
def IsPlainName (name : String) : Prop := name.toList ≠ [] ∧ ∀ c ∈ name.toList, isPathChar c = true

theorem plain_of_mem_stepsOf {cs : List Char} (h : ∀ c ∈ cs, isPathChar c = true) {name : String}
    (hname : .key name ∈ stepsOf cs) : IsPlainName name := by
  fun_induction stepsOf cs with
  | case1 => simp at hname
  | case2 rest ih =>
    exact ih (fun c hc => h c (by simp [hc])) ((List.mem_cons.1 hname).resolve_left (by simp))
  | case3 rest ih =>
    exact ih (fun c hc => h c (by simp [hc])) ((List.mem_cons.1 hname).resolve_left (by simp))
  | case4 rest hslash hback ih => exact ih (fun c hc => h c (List.mem_cons_of_mem _ hc)) hname
  | case5 c cs hc ih =>
    rcases List.mem_cons.1 hname with heq | hlater
    · obtain rfl := Step.key.inj heq
      refine ⟨by simp, fun d hd => h d ?_⟩
      rw [String.toList_ofList] at hd
      exact List.cons_subset_cons c (List.takeWhile_sublist _).subset hd
    · exact ih (fun d hd => h d (List.mem_cons_of_mem _ ((List.dropWhile_sublist _).subset hd)))
        hlater

/-- The keys of a valid path are plain names. -/
theorem plain_of_mem_keys {path : String} (h : isValid path = true) :
    ∀ name ∈ keys path, IsPlainName name := by
  intro name hname
  obtain ⟨step, hstep, hkey⟩ := List.mem_filterMap.1 hname
  cases step with
  | parent => cases hkey
  | key key =>
    obtain rfl := Option.some.inj hkey
    exact plain_of_mem_stepsOf (isPathChar_of_isValid h) hstep

/-- A plain name does not begin like what indents it. -/
theorem IsPlainName.head_ne_blank {name : String} (h : IsPlainName name) (rest : List Char) :
    ∀ c ∈ (name.toList ++ rest).head?, (c == ' ') = false := by
  intro c hc
  obtain ⟨d, ds, hds⟩ := List.exists_cons_of_ne_nil h.1
  rw [hds] at hc
  obtain rfl := Option.some.inj hc
  have hpath := h.2 d (by simp [hds])
  rw [beq_eq_false_iff_ne]
  rintro rfl
  exact absurd hpath (by decide)

/-- A maximal run is the same in two texts that are the same. -/
theorem span_inj {α : Type} {p : α → Bool} {run run' rest rest' : List α}
    (hrun : ∀ c ∈ run, p c = true) (hrun' : ∀ c ∈ run', p c = true)
    (hrest : ∀ c ∈ rest.head?, p c = false) (hrest' : ∀ c ∈ rest'.head?, p c = false)
    (h : run ++ rest = run' ++ rest') : run = run' ∧ rest = rest' := by
  obtain ⟨htake, hdrop⟩ := span_append hrun hrest
  obtain ⟨htake', hdrop'⟩ := span_append hrun' hrest'
  exact ⟨htake.symm.trans (h ▸ htake'), hdrop.symm.trans (h ▸ hdrop')⟩

end Path

namespace Shape

/-! ## Rows -/

/-- A row of an outline. -/
structure Row where
  depth : Nat
  name : String
  usage : Option Usage

/-- What stands behind the name in a row. -/
def usageChars : Option Usage → List Char
  | some use => ':' :: ' ' :: use.text.toList
  | none => []

def Row.chars (r : Row) : List Char :=
  List.replicate (2 * r.depth) ' ' ++ (r.name.toList ++ (usageChars r.usage ++ ['\n']))

mutual

/-- The rows of the parts of a shape, at a depth. -/
def rows (depth : Nat) : Shape → List Row
  | node _ children => childRows depth children

def childRows (depth : Nat) : List (String × Shape) → List Row
  | [] => []
  | (name, child) :: rest =>
    ⟨depth, name, child.usage⟩ :: (rows (depth + 1) child ++ childRows depth rest)

end

theorem toList_pushn (c : Char) (n : Nat) : ("".pushn c n).toList = List.replicate n c := by
  rw [String.pushn]
  induction n with
  | zero => rfl
  | succ n ih => rw [Nat.repeat, String.toList_push, ih, List.replicate_succ']

mutual

theorem toList_outlineAt (depth : Nat) (s : Shape) :
    (outlineAt depth s).toList = (s.rows depth).flatMap Row.chars := by
  match s with
  | node _ children => exact toList_outlineChildren depth children

theorem toList_outlineChildren (depth : Nat) (children : List (String × Shape)) :
    (outlineChildren depth children).toList = (childRows depth children).flatMap Row.chars := by
  match children with
  | [] => rfl
  | (name, child) :: rest =>
    rw [outlineChildren, childRows, List.flatMap_cons, List.flatMap_append,
      ← toList_outlineAt (depth + 1) child, ← toList_outlineChildren depth rest]
    cases child.usage <;> simp [Row.chars, usageChars, toList_pushn]

end

/-! ## Rows told by the text -/

theorem usageChars_append_inj {u v : Option Usage} {xs ys : List Char}
    (h : usageChars u ++ '\n' :: xs = usageChars v ++ '\n' :: ys) : u = v ∧ xs = ys := by
  rcases u with _ | _ | _ | _ <;> rcases v with _ | _ | _ | _ <;>
    simp_all [usageChars, Usage.text]

/-- Behind its name, a row goes on with nothing that could be in a name. -/
theorem head_behind_name (usage : Option Usage) (xs : List Char) :
    ∀ c ∈ (usageChars usage ++ '\n' :: xs).head?, Path.isPathChar c = false := by
  intro c hc
  cases usage with
  | none => obtain rfl := Option.some.inj hc; decide
  | some use => obtain rfl := Option.some.inj hc; decide

/-- A row is told by the text that begins with it. -/
theorem Row.chars_append_inj {r s : Row} (hr : Path.IsPlainName r.name)
    (hs : Path.IsPlainName s.name) {xs ys : List Char} (h : r.chars ++ xs = s.chars ++ ys) :
    r = s ∧ xs = ys := by
  obtain ⟨depth, name, usage⟩ := r
  obtain ⟨depth', name', usage'⟩ := s
  have hindent : ∀ n, ∀ c ∈ List.replicate n ' ', (c == ' ') = true := by
    intro n c hc
    rw [List.eq_of_mem_replicate hc]
    rfl
  simp only [Row.chars, List.append_assoc, List.singleton_append] at h
  obtain ⟨hdepth, h⟩ :=
    Path.span_inj (hindent _) (hindent _) (hr.head_ne_blank _) (hs.head_ne_blank _) h
  obtain ⟨hname, h⟩ :=
    Path.span_inj hr.2 hs.2 (head_behind_name _ _) (head_behind_name _ _) h
  obtain ⟨rfl, rfl⟩ := usageChars_append_inj h
  obtain rfl := String.toList_injective hname
  have hlength := congrArg List.length hdepth
  rw [List.length_replicate, List.length_replicate] at hlength
  obtain rfl : depth = depth' := by omega
  exact ⟨rfl, rfl⟩

theorem rows_inj_of_chars {rs ss : List Row} (hrs : ∀ r ∈ rs, Path.IsPlainName r.name)
    (hss : ∀ s ∈ ss, Path.IsPlainName s.name) (h : rs.flatMap Row.chars = ss.flatMap Row.chars) :
    rs = ss := by
  have hne : ∀ (r : Row) (xs : List Char), r.chars ++ xs ≠ [] := by
    simp [Row.chars]
  induction rs generalizing ss with
  | nil =>
    cases ss with
    | nil => rfl
    | cons s ss => exact absurd h.symm (hne s _)
  | cons r rs ih =>
    cases ss with
    | nil => exact absurd h (hne r _)
    | cons s ss =>
      rw [List.forall_mem_cons] at hrs hss
      obtain ⟨heq, hrest⟩ := Row.chars_append_inj hrs.1 hss.1 h
      rw [heq, ih hrs.2 hss.2 hrest]

/-! ## Shapes told by the rows -/

mutual

theorem le_depth_of_mem_rows (depth : Nat) (s : Shape) : ∀ r ∈ s.rows depth, depth ≤ r.depth := by
  match s with
  | node _ children => exact le_depth_of_mem_childRows depth children

theorem le_depth_of_mem_childRows (depth : Nat) (children : List (String × Shape)) :
    ∀ r ∈ childRows depth children, depth ≤ r.depth := by
  match children with
  | [] => simp [childRows]
  | (name, child) :: rest =>
    rw [childRows, List.forall_mem_cons, List.forall_mem_append]
    exact ⟨Nat.le_refl _, fun r hr => Nat.le_of_succ_le (le_depth_of_mem_rows _ child r hr),
      le_depth_of_mem_childRows depth rest⟩

end

/-- The rows below a name are the run of rows that are deeper. -/
theorem rows_append_inj {depth : Nat} {s t : Shape} {as bs : List (String × Shape)}
    (h : s.rows (depth + 1) ++ childRows depth as = t.rows (depth + 1) ++ childRows depth bs) :
    s.rows (depth + 1) = t.rows (depth + 1) ∧ childRows depth as = childRows depth bs := by
  have hdeeper : ∀ (s : Shape), ∀ r ∈ s.rows (depth + 1), decide (depth < r.depth) = true :=
    fun s r hr => decide_eq_true (le_depth_of_mem_rows (depth + 1) s r hr)
  have hends : ∀ (as : List (String × Shape)), ∀ r ∈ (childRows depth as).head?,
      decide (depth < r.depth) = false := by
    intro as r hr
    cases as with
    | nil => cases hr
    | cons a as =>
      obtain rfl := Option.some.inj hr
      exact decide_eq_false (Nat.lt_irrefl depth)
  exact Path.span_inj (hdeeper s) (hdeeper t) (hends as) (hends bs) h

mutual

theorem eq_of_rows_eq (s : Shape) {t : Shape} {depth : Nat} (husage : s.usage = t.usage)
    (h : s.rows depth = t.rows depth) : s = t := by
  match s, t with
  | node u as, node v bs =>
    obtain rfl : u = v := husage
    rw [eq_of_childRows_eq as h]

theorem eq_of_childRows_eq (as : List (String × Shape)) {bs : List (String × Shape)} {depth : Nat}
    (h : childRows depth as = childRows depth bs) : as = bs := by
  match as, bs with
  | [], [] => rfl
  | [], b :: bs => cases h
  | a :: as, [] => cases h
  | (name, s) :: as, (name', t) :: bs =>
    obtain ⟨hrow, hrest⟩ := List.cons.inj h
    obtain ⟨-, rfl, husage⟩ := Row.mk.inj hrow
    obtain ⟨hrows, hlater⟩ := rows_append_inj hrest
    rw [eq_of_rows_eq s husage hrows, eq_of_childRows_eq as hlater]

end

/-! ## The names in a shape -/

mutual

/-- Every name in a shape, at any depth, is of a kind. -/
def NamesIn (P : String → Prop) : Shape → Prop
  | node _ children => ChildNamesIn P children

def ChildNamesIn (P : String → Prop) : List (String × Shape) → Prop
  | [] => True
  | (name, child) :: rest => P name ∧ child.NamesIn P ∧ ChildNamesIn P rest

end

variable {P : String → Prop}

mutual

theorem name_of_mem_rows (depth : Nat) (s : Shape) (hs : s.NamesIn P) :
    ∀ r ∈ s.rows depth, P r.name := by
  match s with
  | node _ children => exact name_of_mem_childRows depth children hs

theorem name_of_mem_childRows (depth : Nat) (children : List (String × Shape))
    (h : ChildNamesIn P children) : ∀ r ∈ childRows depth children, P r.name := by
  match children with
  | [] => simp [childRows]
  | (name, child) :: rest =>
    obtain ⟨hname, hchild, hrest⟩ := h
    rw [childRows, List.forall_mem_cons, List.forall_mem_append]
    exact ⟨hname, name_of_mem_rows _ child hchild, name_of_mem_childRows depth rest hrest⟩

end

theorem childNamesIn_modify {key : String} {f : Shape → Shape} (hkey : P key)
    (hf : ∀ s : Shape, s.NamesIn P → (f s).NamesIn P) {children : List (String × Shape)}
    (h : ChildNamesIn P children) : ChildNamesIn P (Entries.modify key empty f children) := by
  induction children with
  | nil => exact ⟨hkey, hf empty trivial, trivial⟩
  | cons e children ih =>
    obtain ⟨name, child⟩ := e
    obtain ⟨hname, hchild, hrest⟩ := h
    rw [Entries.modify]
    split
    · exact ⟨hname, hf child hchild, hrest⟩
    · exact ⟨hname, hchild, ih hrest⟩

theorem namesIn_recordKeys (use : Usage) {keys : List String} (hkeys : ∀ k ∈ keys, P k) {s : Shape}
    (hs : s.NamesIn P) : (recordKeys use keys s).NamesIn P := by
  induction keys generalizing s with
  | nil =>
    obtain ⟨usage, children⟩ := s
    exact hs
  | cons key keys ih =>
    obtain ⟨usage, children⟩ := s
    obtain ⟨hkey, hrest⟩ := List.forall_mem_cons.1 hkeys
    exact childNamesIn_modify hkey (fun _ => ih hrest) hs

theorem namesIn_note {t : Token} (ht : t.Sound) {s : Shape} (hs : s.NamesIn Path.IsPlainName) :
    (s.note t).NamesIn Path.IsPlainName := by
  have hregister : ∀ {path : String} (use : Usage), Path.isValid path = true →
      (s.register path use).NamesIn Path.IsPlainName := by
    intro path use hvalid
    have hplain := Path.plain_of_mem_keys hvalid
    unfold register
    generalize Path.keys path = keys at hplain ⊢
    cases keys with
    | nil => exact hs
    | cons key keys => exact namesIn_recordKeys use hplain hs
  cases t with
  | escaped path => exact hregister _ ht
  | unescaped path => exact hregister _ ht
  | sectionOpen path => exact hregister _ ht.1
  | invertedOpen path => exact hregister _ ht.1
  | eachOpen path => exact hregister _ ht.1
  | content _ => exact hs
  | sectionClose _ => exact hs
  | eachClose _ => exact hs
  | custom _ _ => exact hs

/-- The names that sound tokens leave in a shape are plain. -/
theorem namesIn_ofTokens {ts : List Token} (h : ∀ t ∈ ts, t.Sound) :
    (ofTokens ts).NamesIn Path.IsPlainName := by
  induction ts using List.reverseRecOn with
  | nil => trivial
  | append_singleton ts t ih =>
    rw [List.forall_mem_append, List.forall_mem_singleton] at h
    rw [ofTokens_concat]
    exact namesIn_note h.2 (ih h.1)

/-! ## Outlines -/

theorem eq_of_outline_eq_of_names {s t : Shape} (hs : s.NamesIn Path.IsPlainName)
    (ht : t.NamesIn Path.IsPlainName) (husage : s.usage = t.usage) (h : s.outline = t.outline) :
    s = t := by
  have hchars : (s.rows 0).flatMap Row.chars = (t.rows 0).flatMap Row.chars := by
    rw [← toList_outlineAt, ← toList_outlineAt]
    exact congrArg String.toList h
  exact eq_of_rows_eq s husage
    (rows_inj_of_chars (name_of_mem_rows 0 s hs) (name_of_mem_rows 0 t ht) hchars)

end Shape

/-- The shape of an accepted template has plain names, and records no use of the model itself. -/
theorem Template.shape_of_parseWithShape {text : String} {options : Options} {t : Template}
    {shape : Shape} (h : parseWithShape text options = .ok (t, shape)) :
    shape.NamesIn Path.IsPlainName ∧ shape.usage = none := by
  obtain ⟨hparse, rfl⟩ := parseWithShape_eq_ok_iff.1 h
  obtain ⟨-, hrun⟩ := parse_eq_ok_iff_run.1 hparse
  have htokens : (tokenize text options).tokens = Node.tokensAll t.nodes :=
    congrArg Tokenizer.Run.tokens hrun
  rw [htokens]
  exact ⟨Shape.namesIn_ofTokens (accepted_parse hparse).sound, Shape.usage_ofTokens _⟩

/-- Two accepted templates whose shapes have one outline have one shape: the same names with the
    same uses, below the same names and in the same order. -/
theorem Template.eq_of_outline_eq {text₁ text₂ : String} {options₁ options₂ : Options}
    {t₁ t₂ : Template} {shape₁ shape₂ : Shape}
    (h₁ : parseWithShape text₁ options₁ = .ok (t₁, shape₁))
    (h₂ : parseWithShape text₂ options₂ = .ok (t₂, shape₂))
    (h : shape₁.outline = shape₂.outline) : shape₁ = shape₂ := by
  obtain ⟨hnames₁, husage₁⟩ := shape_of_parseWithShape h₁
  obtain ⟨hnames₂, husage₂⟩ := shape_of_parseWithShape h₂
  exact Shape.eq_of_outline_eq_of_names hnames₁ hnames₂ (husage₁.trans husage₂.symm) h

/-- A name that is first met on the way to another, and later used itself. -/
def detour : String :=
  "\x7b\x7b#each a.b\x7d\x7d\x7b\x7bc\x7d\x7d\x7b\x7b/each\x7d\x7d\x7b\x7ba\x7d\x7d"

/-- The same uses in other words. -/
def detourReworded : String :=
  "\x7b\x7b#each ../a.b\x7d\x7d\x7b\x7b&c\x7d\x7d\x7b\x7b^a.b\x7d\x7d\x7b\x7b/a.b\x7d\x7d" ++
    "\x7b\x7b/each\x7d\x7d\x7b\x7b\x7ba\x7d\x7d\x7d"

theorem Template.eq_of_outline_eq_detour :
    ∃ t₁ t₂ shape₁ shape₂, parseWithShape detour {} = .ok (t₁, shape₁) ∧
      parseWithShape detourReworded {} = .ok (t₂, shape₂) ∧
      shape₁.outline = "a: scalar\n  b: collection\nc: scalar\n" ∧
      shape₁.outline = shape₂.outline ∧ shape₁ = shape₂ := by
  have h₁ := parseWithShape_eq_ok_iff.2
    ⟨parse_eq_ok_iff.2 ⟨(by decide +kernel : (tokenize detour {}).errors = []), rfl⟩, rfl⟩
  have h₂ := parseWithShape_eq_ok_iff.2
    ⟨parse_eq_ok_iff.2 ⟨(by decide +kernel : (tokenize detourReworded {}).errors = []), rfl⟩, rfl⟩
  have h := (by decide +kernel : (Shape.ofTokens (tokenize detour {}).tokens).outline =
    (Shape.ofTokens (tokenize detourReworded {}).tokens).outline)
  exact ⟨_, _, _, _, h₁, h₂, by decide +kernel, h, eq_of_outline_eq h₁ h₂ h⟩

end Stencil
