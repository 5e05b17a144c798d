import Stencil.Proofs.Moves
/-
  The blocks of a template as its tokens tell them. `Token.followAll?` reads tokens with a stack
  of open blocks and fails at a closing token that does not fit; it knows nothing of the
  tokenizer's scopes. `follow_run` is the invariant: the two stacks stay equal, whatever faults
  stand in between, as long as no `each` block is opened without a path.
-/

namespace Stencil

/-! ## Blocks in a list of tokens -/

namespace Token

/-- The block that a token opens. -/
def opens? : Token → Option Frame
  | .sectionOpen path | .invertedOpen path => some ⟨false, path⟩
  | .eachOpen path => some ⟨true, path⟩
  | _ => none

/-- The block that a token closes. -/
def closes? : Token → Option Frame
  | .sectionClose path => some ⟨false, path⟩
  | .eachClose path => some ⟨true, path⟩
  | _ => none

/-- The open blocks after a token, innermost first; none if the token closes a block that is not
    the innermost one. -/
def follow? (frames : List Frame) (t : Token) : Option (List Frame) :=
  match t.closes? with
  | some f => if frames.head? = some f then some frames.tail else none
  | none => some (t.opens?.toList ++ frames)

/-- The open blocks after some tokens, from the left. -/
def followAll? (frames : List Frame) (ts : List Token) : Option (List Frame) :=
  ts.foldlM follow? frames

@[simp] theorem followAll?_nil (fs : List Frame) : followAll? fs [] = some fs := rfl

theorem followAll?_cons (fs : List Frame) (t : Token) (ts : List Token) :
    followAll? fs (t :: ts) = (follow? fs t).bind (followAll? · ts) := rfl

theorem followAll?_append (fs : List Frame) (ts us : List Token) :
    followAll? fs (ts ++ us) = (followAll? fs ts).bind (followAll? · us) := by
  unfold followAll?
  rw [List.foldlM_append]
  rfl

theorem follow?_of_opens {fs : List Frame} {t : Token} {f : Frame} (h : t.opens? = some f) :
    follow? fs t = some (f :: fs) := by
  cases t <;> simp_all [follow?, opens?, closes?]

theorem follow?_of_closes {fs : List Frame} {t : Token} {f : Frame} (h : t.closes? = some f) :
    follow? (f :: fs) t = some fs := by
  simp [follow?, h]

theorem follow?_of_leaf {fs : List Frame} {t : Token} (ho : t.opens? = none)
    (hc : t.closes? = none) : follow? fs t = some fs := by
  simp [follow?, ho, hc]

theorem opens?_section {t : Token} {path : String}
    (h : t = .sectionOpen path ∨ t = .invertedOpen path) : t.opens? = some ⟨false, path⟩ := by
  rcases h with rfl | rfl <;> rfl

end Token

/-- The path of a block that was never closed. -/
def Fault.unclosed? : Fault → Option String
  | .unclosedBlock path => some path
  | _ => none

namespace Tokenizer

/-! ## One tag -/

/-- Reading a tag's tokens leaves the same blocks open as the tag itself does. -/
theorem follow_move {scopes : List Scope} {offset : Nat} {e : Effect}
    (h : Move scopes offset e) (hfault : e.fault ≠ some .eachWithoutPath) :
    Token.followAll? (frames scopes) e.tokens = some (frames e.scopes) := by
  cases h with
  | custom path expander => rfl
  | comment => rfl
  | value ht =>
    rcases ht with rfl | rfl <;> rfl
  | openEach hpath => rfl
  | openNothing => exact absurd rfl hfault
  | openSection ht hin =>
    rw [Token.followAll?_cons, Token.follow?_of_opens (Token.opens?_section ht)]
    rfl
  | reopen ht hin =>
    subst hin
    rw [Token.followAll?_cons, frames_cons, Token.follow?_of_closes rfl, Option.bind_some,
      Token.followAll?_cons, Token.follow?_of_opens (Token.opens?_section ht)]
    rfl
  | closeEach hin =>
    subst hin
    rw [Token.followAll?_cons, frames_cons, Token.follow?_of_closes rfl]
    rfl
  | closeSection hpath hin =>
    subst hin
    rw [Token.followAll?_cons, frames_cons, Token.follow?_of_closes rfl]
    rfl
  | refuse hfault => rfl

theorem unclosed?_pathFault (path : String) :
    (pathFault path).bind Fault.unclosed? = none := by
  unfold pathFault
  split <;> rfl

/-- No tag is at fault for a block that stays open. -/
theorem unclosed?_move {scopes : List Scope} {offset : Nat} {e : Effect}
    (h : Move scopes offset e) : e.fault.bind Fault.unclosed? = none := by
  cases h with
  | custom | comment | openNothing | closeEach => rfl
  | value | openEach | openSection | reopen | closeSection => exact unclosed?_pathFault _
  | refuse hfault =>
    rcases hfault with rfl | ⟨found, expected, rfl⟩ <;> rfl

/-! ## A run over pieces -/

/-- The blocks that a run's tokens leave open are the scopes that the run leaves open. -/
theorem follow_run (options : Options) (offset : Nat) (scopes : List Scope) (ps : List Piece)
    (h : ∀ f ∈ (run options offset scopes ps).faults, f.2 ≠ .eachWithoutPath) :
    Token.followAll? (frames scopes) (run options offset scopes ps).tokens =
      some (frames (run options offset scopes ps).scopes) := by
  induction ps generalizing offset scopes with
  | nil => rfl
  | cons p ps ih =>
    cases p with
    | text cs =>
      rw [run, Token.followAll?_cons, Token.follow?_of_leaf rfl rfl]
      exact ih _ _ h
    | tag t =>
      simp only [run] at h ⊢
      -- a fault of the first tag would be one of the run
      have hstep := follow_move (move_step options scopes offset t) (by
        intro hfault
        refine h (offset, .eachWithoutPath) ?_ rfl
        rw [hfault]
        exact List.mem_append_left _ (by simp))
      rw [Token.followAll?_append, hstep]
      exact ih _ _ (fun f hf => h f (List.mem_append_right _ hf))

theorem unclosed?_run (options : Options) (offset : Nat) (scopes : List Scope)
    (ps : List Piece) :
    ∀ f ∈ (run options offset scopes ps).faults, f.2.unclosed? = none := by
  induction ps generalizing offset scopes with
  | nil => exact fun f hf => absurd hf (by simp [run])
  | cons p ps ih =>
    cases p with
    | text cs => exact ih _ _
    | tag t =>
      intro f hf
      simp only [run] at hf
      rcases List.mem_append.1 hf with hf | hf
      · obtain ⟨fault, hfault, rfl⟩ := List.mem_map.1 hf
        have hmove := unclosed?_move (move_step options scopes offset t)
        rw [Option.mem_toList.1 hfault] at hmove
        exact hmove
      · exact ih _ _ f hf

end Tokenizer

/-! ## A whole template -/

/-- The run that a template's tokens and errors are taken from. -/
def tokenizerRun (template : String) (options : Options) : Tokenizer.Run :=
  Tokenizer.run options 0 [] (Piece.split template.toList)

/-- The faults of single tags come first, then the blocks left open. -/
theorem faults_tokenize (template : String) (options : Options) :
    (tokenize template options).errors.map (·.fault) =
      (tokenizerRun template options).faults.map (·.2) ++
        (tokenizerRun template options).scopes.map (.unclosedBlock ·.path) := by
  simp only [tokenize, tokenizerRun, List.map_append, List.map_map]
  rfl

theorem errors_eq_nil_iff {template : String} {options : Options} :
    (tokenize template options).errors = [] ↔
      (tokenizerRun template options).faults = [] ∧
        (tokenizerRun template options).scopes = [] := by
  rw [← List.map_eq_nil_iff (f := fun e : ParseError => e.fault), faults_tokenize,
    List.append_eq_nil_iff, List.map_eq_nil_iff, List.map_eq_nil_iff]

/-- The blocks reported as unclosed are the scopes left open, innermost first. -/
theorem unclosed_tokenize (template : String) (options : Options) :
    (tokenize template options).errors.filterMap (·.fault.unclosed?) =
      (tokenizerRun template options).scopes.map (·.path) := by
  have hsingle : ((tokenizerRun template options).faults.map (·.2)).filterMap
      Fault.unclosed? = [] := by
    rw [List.filterMap_eq_nil_iff]
    intro fault hfault
    obtain ⟨f, hf, rfl⟩ := List.mem_map.1 hfault
    exact Tokenizer.unclosed?_run options 0 [] _ f hf
  have hopen : ((tokenizerRun template options).scopes.map
      (Fault.unclosedBlock ·.path)).filterMap Fault.unclosed? =
      (tokenizerRun template options).scopes.map (·.path) := by
    rw [List.filterMap_map]
    exact congrFun List.filterMap_eq_map _
  calc (tokenize template options).errors.filterMap (·.fault.unclosed?)
      = ((tokenize template options).errors.map (·.fault)).filterMap Fault.unclosed? := by
        rw [List.filterMap_map]; rfl
    _ = (tokenizerRun template options).scopes.map (·.path) := by
        rw [faults_tokenize, List.filterMap_append, hsingle, hopen, List.nil_append]

/-- The tokens of a template leave the same blocks open as its tags. -/
theorem follow_tokenize {template : String} {options : Options}
    (h : ∀ f ∈ (tokenizerRun template options).faults, f.2 ≠ .eachWithoutPath) :
    Token.followAll? [] (tokenize template options).tokens =
      some (frames (tokenizerRun template options).scopes) :=
  Tokenizer.follow_run options 0 [] _ h

/-- The tokens of a template, read with a stack of blocks: every closing token finds its own
    block innermost, and the blocks left at the end are those reported as unclosed, in order. -/
theorem tokenize_balanced (template : String) (options : Options)
    (h : ∀ e ∈ (tokenize template options).errors, e.fault ≠ .eachWithoutPath) :
    ∃ left, Token.followAll? [] (tokenize template options).tokens = some left ∧
      left.map (·.path) = (tokenize template options).errors.filterMap (·.fault.unclosed?) ∧
      ((tokenize template options).errors = [] → left = []) := by
  have hfaults : ∀ f ∈ (tokenizerRun template options).faults, f.2 ≠ .eachWithoutPath := by
    intro f hf heq
    have hmem : Fault.eachWithoutPath ∈ (tokenize template options).errors.map (·.fault) := by
      rw [faults_tokenize]
      exact List.mem_append_left _ (List.mem_map.2 ⟨f, hf, heq⟩)
    obtain ⟨e, he, hfault⟩ := List.mem_map.1 hmem
    exact h e he hfault
  refine ⟨frames (tokenizerRun template options).scopes, follow_tokenize hfaults, ?_, ?_⟩
  · rw [unclosed_tokenize, frames, List.map_map]
    rfl
  · intro hok
    rw [(errors_eq_nil_iff.1 hok).2, frames_nil]

/-- A section begun twice, an `each` block inside it, and a closing tag that fits neither. -/
def mismatched : String :=
  "\x7b\x7b#a\x7d\x7dx\x7b\x7b^a\x7d\x7d\x7b\x7b#each b\x7d\x7d\x7b\x7b/a\x7d\x7d"

theorem tokenize_balanced_mismatched :
    (∀ e ∈ (tokenize mismatched {}).errors, e.fault ≠ .eachWithoutPath) ∧
      ∃ left, Token.followAll? [] (tokenize mismatched {}).tokens = some left ∧
        left.map (·.path) = ["b", "a"] := by
  have h : ∀ e ∈ (tokenize mismatched {}).errors, e.fault ≠ .eachWithoutPath := by
    decide +kernel
  obtain ⟨left, hfollow, hpaths, -⟩ := tokenize_balanced mismatched {} h
  exact ⟨h, left, hfollow, hpaths.trans (by decide +kernel)⟩

end Stencil
