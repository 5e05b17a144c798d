import Stencil.Path
import Stencil.Tag
/-
  Valid paths as text. A valid path has no braces, no blanks and no sigil at its start, so it can
  be written into a tag as it is and is read back from it unchanged.
-/

namespace Stencil

open Text

/-! ## Trimming -/

namespace Text

theorem dropWhile_isBlank {cs : List Char} (h : ∀ c ∈ cs, isBlank c = false) :
    cs.dropWhile isBlank = cs := by
  cases cs with
  | nil => rfl
  | cons c cs => exact List.dropWhile_cons_of_neg (by simp [h c List.mem_cons_self])

theorem trim_eq_self {cs : List Char} (h : ∀ c ∈ cs, isBlank c = false) : trim cs = cs := by
  have hrev : ∀ c ∈ cs.reverse, isBlank c = false := fun c hc => h c (List.mem_reverse.1 hc)
  rw [trim, trimStart, dropWhile_isBlank h, trimEnd, dropWhile_isBlank hrev, List.reverse_reverse]

theorem trim_space (cs : List Char) : trim (' ' :: cs) = trim cs := by
  rw [trim, trimStart, List.dropWhile_cons_of_pos (by decide)]
  rfl

end Text

namespace Path

/-! ## Characters -/

/-- The characters that words are made of. -/
def isPathChar (c : Char) : Bool := c == '.' || c == '/' || isNameChar c

theorem isPathChar_of_words? {cs : List Char} {ws : List Word} (h : words? cs = some ws) :
    ∀ c ∈ cs, isPathChar c = true := by
  have hsplit : ∀ {p : Char → Bool} {cs : List Char} {c : Char}, c ∈ cs →
      p c = true ∨ c ∈ cs.dropWhile p := by
    intro p cs c hc
    rw [← List.takeWhile_append_dropWhile (p := p) (l := cs), List.mem_append] at hc
    rcases hc with hc | hc
    · exact .inl (List.all_eq_true.1 List.all_takeWhile c hc)
    · exact .inr hc
  fun_induction words? cs generalizing ws with
  | case1 => exact fun c hc => absurd hc (by simp)
  | case2 cs ih =>
    obtain ⟨rest, hrest, -⟩ := Option.map_eq_some_iff.1 h
    intro d hd
    rcases List.mem_cons.1 hd with rfl | hd
    · rfl
    · rcases hsplit (p := (decide <| · = '.')) hd with hdot | hd
      · obtain rfl : d = '.' := by simpa using hdot
        rfl
      · exact ih hrest d hd
  | case3 cs _ ih =>
    obtain ⟨rest, hrest, -⟩ := Option.map_eq_some_iff.1 h
    intro d hd
    rcases List.mem_cons.1 hd with rfl | hd
    · rfl
    · exact ih hrest d hd
  | case4 c cs _ _ hname ih =>
    obtain ⟨rest, hrest, -⟩ := Option.map_eq_some_iff.1 h
    intro d hd
    rcases List.mem_cons.1 hd with rfl | hd
    · simp [isPathChar, hname]
    · rcases hsplit (p := isNameChar) hd with hname | hd
      · simp [isPathChar, hname]
      · exact ih hrest d hd
  | case5 => simp at h

/-- A fact about all ASCII characters, from their code points. -/
theorem ascii_forall {P : Char → Prop} (h : ∀ n, n < 128 → P (Char.ofNat n)) (c : Char)
    (hc : c.toNat < 128) : P c := by
  have := h c.toNat hc
  rwa [Char.ofNat_toNat] at this

theorem isPathChar_lt {c : Char} (h : isPathChar c = true) : c.toNat < 128 := by
  have hle : ∀ d : Char, c ≤ d → d.toNat < 128 → c.toNat < 128 :=
    fun d hcd hd => Nat.lt_of_le_of_lt (UInt32.le_iff_toNat_le.1 hcd) hd
  change (c == '.' || c == '/' || ((decide ('A' ≤ c ∧ c ≤ 'Z') || ('a' ≤ c && c ≤ 'z'))
    || ('0' ≤ c && c ≤ '9') || c == '_')) = true at h
  simp only [Bool.or_eq_true, Bool.and_eq_true, decide_eq_true_eq, beq_iff_eq] at h
  rcases h with (rfl | rfl) | (((⟨-, h⟩ | ⟨-, h⟩) | ⟨-, h⟩) | rfl)
  · decide
  · decide
  · exact hle 'Z' h (by decide)
  · exact hle 'z' h (by decide)
  · exact hle '9' h (by decide)
  · decide

/-- A path's characters mean nothing else in a tag. -/
theorem isPathChar_plain {c : Char} (h : isPathChar c = true) :
    Tag.isBrace c = false ∧ isBlank c = false ∧ c ∉ ['#', '^', '&', '!'] :=
  ascii_forall (P := fun c => isPathChar c = true →
      Tag.isBrace c = false ∧ isBlank c = false ∧ c ∉ ['#', '^', '&', '!'])
    (by decide +kernel) c (isPathChar_lt h) h

/-! ## Valid paths -/

variable {path : String}

theorem isPathChar_of_isValid (h : isValid path = true) :
    ∀ c ∈ path.toList, isPathChar c = true := by
  unfold isValid at h
  split at h
  · next ws hws => exact isPathChar_of_words? hws
  · simp at h

theorem no_brace_of_isValid (h : isValid path = true) :
    ∀ c ∈ path.toList, Tag.isBrace c = false :=
  fun c hc => (isPathChar_plain (isPathChar_of_isValid h c hc)).1

theorem no_blank_of_isValid (h : isValid path = true) : ∀ c ∈ path.toList, isBlank c = false :=
  fun c hc => (isPathChar_plain (isPathChar_of_isValid h c hc)).2.1

/-- A slash stands after two dots and so never first. -/
theorem head_ne_slash (h : isValid path = true) (cs : List Char) : path.toList ≠ '/' :: cs := by
  intro heq
  rw [isValid, heq, words?] at h
  simp only [show ¬('/' = '.') by decide, if_true, if_false] at h
  cases hws : words? cs with
  | none => simp [hws] at h
  | some ws => simp [hws, wellFormed] at h

/-- A valid path does not begin like a tag with a sigil. -/
theorem head_ne_sigil (h : isValid path = true) {c : Char} {cs : List Char}
    (heq : path.toList = c :: cs) : c ∉ ['/', '#', '^', '&', '!'] := by
  intro hmem
  rcases List.mem_cons.1 hmem with rfl | hmem
  · exact head_ne_slash h cs heq
  · have hc := isPathChar_of_isValid h c (by rw [heq]; exact List.mem_cons_self)
    exact (isPathChar_plain hc).2.2 hmem

end Path

end Stencil
