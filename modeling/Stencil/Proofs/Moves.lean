import Stencil.Tokenizer
/-
  What one tag can do to the tokenizer. `Move` lists every case with the guard it stands under,
  and `move_step` says that there are no others; what is proved about runs goes through it and
  does not look into `step` again.
-/

namespace Stencil

/-! ## Blocks without their places -/

/-- An open block as tags name it: a scope without the offset of its opening tag. -/
structure Frame where
  isEach : Bool
  path : String
deriving DecidableEq, Repr

def Scope.frame (s : Scope) : Frame := ⟨s.isEach, s.path⟩

/-- The open blocks, innermost first. -/
def frames (scopes : List Scope) : List Frame := scopes.map Scope.frame

@[simp] theorem frames_nil : frames [] = [] := rfl

@[simp] theorem frames_cons (s : Scope) (scopes : List Scope) :
    frames (s :: scopes) = ⟨s.isEach, s.path⟩ :: frames scopes := rfl

namespace Tokenizer

theorem inSection_iff {scopes : List Scope} {path : String} :
    inSection scopes path = true ↔ (frames scopes).head? = some ⟨false, path⟩ := by
  rcases scopes with _ | ⟨⟨_ | _, p, offset⟩, scopes⟩ <;> simp [inSection, Frame.mk.injEq]

theorem exists_of_inSection {scopes : List Scope} {path : String}
    (h : inSection scopes path = true) :
    ∃ offset outer, scopes = ⟨false, path, offset⟩ :: outer := by
  rcases scopes with _ | ⟨⟨_ | _, p, offset⟩, scopes⟩
  · simp [inSection] at h
  · exact ⟨offset, scopes, by simpa [inSection] using h⟩
  · simp [inSection] at h

/-! ## The moves -/

/-- The effects that a tag at `offset` can have on some open blocks. -/
inductive Move (scopes : List Scope) (offset : Nat) : Effect → Prop where
  /-- An expander claims the tag. -/
  | custom (path : String) (expander : Expander) :
      Move scopes offset ⟨scopes, [.custom path expander], none⟩
  | comment : Move scopes offset ⟨scopes, [], none⟩
  | value {t : Token} {path : String} (ht : t = .escaped path ∨ t = .unescaped path) :
      Move scopes offset ⟨scopes, [t], pathFault path⟩
  | openEach {path : String} (hpath : path ≠ "") :
      Move scopes offset ⟨⟨true, path, offset⟩ :: scopes, [.eachOpen path], pathFault path⟩
  | openNothing :
      Move scopes offset ⟨⟨true, "", offset⟩ :: scopes, [], some .eachWithoutPath⟩
  | openSection {t : Token} {path : String} (ht : t = .sectionOpen path ∨ t = .invertedOpen path)
      (hin : (frames scopes).head? ≠ some ⟨false, path⟩) :
      Move scopes offset ⟨⟨false, path, offset⟩ :: scopes, [t], pathFault path⟩
  /-- The innermost section ends and begins again; its scope stays. -/
  | reopen {t : Token} {path : String} {first : Nat} {outer : List Scope}
      (ht : t = .sectionOpen path ∨ t = .invertedOpen path)
      (hin : scopes = ⟨false, path, first⟩ :: outer) :
      Move scopes offset ⟨scopes, [.sectionClose path, t], pathFault path⟩
  | closeEach {path : String} {first : Nat} {outer : List Scope}
      (hin : scopes = ⟨true, path, first⟩ :: outer) :
      Move scopes offset ⟨outer, [.eachClose path], none⟩
  /-- No section named `each` is ever closed: its closing tag is that of an `each` block. -/
  | closeSection {path : String} {first : Nat} {outer : List Scope} (hpath : path ≠ "each")
      (hin : scopes = ⟨false, path, first⟩ :: outer) :
      Move scopes offset ⟨outer, [.sectionClose path], pathFault path⟩
  /-- A closing tag that does not fit. -/
  | refuse {fault : Fault}
      (hfault : fault = .eachCloseWithoutOpen ∨ ∃ found expected,
        fault = .mismatchedClose found expected) :
      Move scopes offset ⟨scopes, [], some fault⟩

theorem move_openEach (scopes : List Scope) (offset : Nat) (path : String) :
    Move scopes offset (openEach scopes offset path) := by
  unfold openEach
  by_cases hpath : path = ""
  · subst hpath; exact .openNothing
  · simp only [beq_iff_eq, if_neg hpath]; exact .openEach hpath

theorem move_closeEach (scopes : List Scope) (offset : Nat) :
    Move scopes offset (closeEach scopes) := by
  unfold closeEach
  split
  · exact .closeEach rfl
  · exact .refuse (.inl rfl)

theorem move_openSection (scopes : List Scope) (offset : Nat) {t : Token} {path : String}
    (ht : t = .sectionOpen path ∨ t = .invertedOpen path) :
    Move scopes offset (openSection scopes offset path t) := by
  unfold openSection
  split
  · next h =>
    obtain ⟨first, outer, hin⟩ := exists_of_inSection h
    exact .reopen ht hin
  · next h => exact .openSection ht (fun hin => h (inSection_iff.2 hin))

theorem move_closeSection (scopes : List Scope) (offset : Nat) {path : String}
    (hpath : path ≠ "each") : Move scopes offset (closeSection scopes path) := by
  unfold closeSection
  split
  · next h =>
    obtain ⟨first, outer, rfl⟩ := exists_of_inSection h
    exact .closeSection hpath rfl
  · exact .refuse (.inr ⟨_, _, rfl⟩)

/-- The tag that would close a section named `each` closes an `each` block. -/
theorem kind_ne_sectionClose_each (t : Tag) : t.kind ≠ .sectionClose "each".toList := by
  unfold Tag.kind
  intro h
  split at h
  · simp at h
  · split at h
    · simp at h
    · split at h
      · split at h
        · simp at h
        · next hne => exact hne (by simpa using h)
      all_goals simp at h

theorem move_builtIn (scopes : List Scope) (offset : Nat) {kind : Tag.Kind}
    (h : kind ≠ .sectionClose "each".toList) : Move scopes offset (builtIn scopes offset kind) := by
  cases kind with
  | eachOpen path => exact move_openEach ..
  | eachClose => exact move_closeEach ..
  | sectionOpen path => exact move_openSection scopes offset (.inl rfl)
  | invertedOpen path => exact move_openSection scopes offset (.inr rfl)
  | sectionClose path =>
    refine move_closeSection scopes offset (fun hpath => h ?_)
    rw [← hpath, String.toList_ofList]
  | unescaped path => exact .value (.inr rfl)
  | comment => exact .comment
  | plain path => exact .value (.inl rfl)

/-- Every tag makes a move. -/
theorem move_step (options : Options) (scopes : List Scope) (offset : Nat) (tag : Tag) :
    Move scopes offset (step options scopes offset tag) := by
  unfold step
  split
  · exact .custom _ _
  · exact move_builtIn scopes offset (kind_ne_sectionClose_each tag)

/-- A run has no fault if neither its first tag nor the rest has one. -/
theorem faults_run_tag_eq_nil {options : Options} {offset : Nat} {scopes : List Scope} {t : Tag}
    {ps : List Piece} :
    let effect := step options scopes offset t
    (run options offset scopes (.tag t :: ps)).faults = [] ↔
      effect.fault = none ∧
        (run options (offset + Text.byteSize t.chars) effect.scopes ps).faults = [] := by
  simp only [run, List.append_eq_nil_iff, List.map_eq_nil_iff, Option.toList_eq_nil_iff]

end Tokenizer

end Stencil
