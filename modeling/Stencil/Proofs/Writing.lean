import Stencil.Files
/-
  What writing a file changes. A path is followed through directories that exist, so the place
  that it leads to has them all above it (`Founded`), and a file put there brings no directory
  into being. The written file reads back as the text, and every other place is as it was.
-/

namespace Stencil

namespace Files

variable {files after : Files} {place other : List String} {content : ByteArray}

/-! ## One place -/

theorem find?_put_self : (files.put place content).find? place = some (.file content) := by
  simp [find?, put]

theorem lookup_filter_ne {entries : List (List String × FileEntry)} (hne : other ≠ place) :
    (entries.filter (·.1 ≠ place)).lookup other = entries.lookup other := by
  induction entries with
  | nil => rfl
  | cons entry entries ih =>
    by_cases hentry : entry.1 = place
    · rw [List.filter_cons_of_neg (by simpa using hentry), ih, List.lookup_cons, hentry,
        beq_false_of_ne hne]
    · rw [List.filter_cons_of_pos (by simpa using hentry), List.lookup_cons, List.lookup_cons, ih]

/-- Something stands at the place or below it. -/
def Holds (files : Files) (place : List String) : Prop :=
  place <+: files.here ∨ ∃ entry ∈ files.entries, place <+: entry.1

theorem holds_iff : files.Holds place ↔
    (place.isPrefixOf files.here || files.entries.any (place.isPrefixOf ·.1)) = true := by
  simp [Holds]

theorem holds_put : (files.put place content).Holds other ↔ other <+: place ∨ files.Holds other := by
  by_cases hplace : other <+: place
  · simp [Holds, put, hplace]
  · have hentry : ∀ entry : List String × FileEntry, other <+: entry.1 → entry.1 ≠ place :=
      fun entry hprefix heq => hplace (heq ▸ hprefix)
    simp only [Holds, put, List.mem_cons, List.mem_filter, decide_eq_true_eq, exists_eq_or_imp,
      hplace, false_or]
    refine or_congr Iff.rfl ⟨?_, ?_⟩
    · rintro ⟨entry, ⟨hmem, -⟩, hprefix⟩
      exact ⟨entry, hmem, hprefix⟩
    · rintro ⟨entry, hmem, hprefix⟩
      exact ⟨entry, ⟨hmem, hentry entry hprefix⟩, hprefix⟩

/-- What is not listed is a directory if it holds something. -/
theorem find?_congr {more : Files} (hlookup : more.entries.lookup other = files.entries.lookup other)
    (hholds : files.entries.lookup other = none → (more.Holds other ↔ files.Holds other)) :
    more.find? other = files.find? other := by
  unfold find?
  rw [hlookup]
  cases hfiles : files.entries.lookup other with
  | some entry => rfl
  | none =>
    have hdirectory := (holds_iff.symm.trans (hholds hfiles)).trans holds_iff
    simp only [hdirectory]

/-- Everything above the place exists. -/
def Founded (files : Files) (place : List String) : Prop :=
  ∀ above, above <+: place → above ≠ place → files.find? above ≠ none

/-- A new file makes no directory if all above it are there. -/
theorem find?_put_of_ne (hfounded : files.Founded place) (hne : other ≠ place) :
    (files.put place content).find? other = files.find? other := by
  refine find?_congr ?_ fun hlookup => ?_
  · rw [put, List.lookup_cons, beq_false_of_ne hne]
    exact lookup_filter_ne hne
  · rw [holds_put, or_iff_right_iff_imp]
    intro hprefix
    have hthere := hfounded other hprefix hne
    rw [find?, hlookup, Option.none_or, ne_eq, ite_eq_right_iff, Classical.not_imp] at hthere
    exact holds_iff.2 hthere.1

/-! ## The way to a place -/

/-- A step starts from a directory, and goes on below it, stays or goes up. -/
theorem step_cases {name : List Char} {next : List String} (h : files.step place name = .ok next) :
    files.find? place = some .directory ∧
      (next = place ∨ next = place.dropLast ∨ ∃ below, next = place ++ [below]) := by
  unfold step at h
  split at h
  · cases h
  · cases h
  · refine ⟨‹_›, ?_⟩
    split at h
    · cases h
      exact .inl rfl
    split at h
    · cases h
      exact .inr (.inl rfl)
    split at h
    · cases h
    · cases h
      exact .inr (.inr ⟨_, rfl⟩)

theorem founded_step {name : List Char} {next : List String} (hfounded : files.Founded place)
    (h : files.step place name = .ok next) : files.Founded next := by
  obtain ⟨hdirectory, rfl | rfl | ⟨below, rfl⟩⟩ := step_cases h
  · exact hfounded
  · intro above habove hne
    refine hfounded above (habove.trans (List.dropLast_prefix place)) ?_
    -- only the root is above its own parent, and it is its own parent
    rintro rfl
    exact hne (habove.eq_of_length_le (List.dropLast_prefix above).length_le)
  · intro above habove hne
    obtain rfl | habove := List.prefix_concat_iff.1 habove
    · exact absurd rfl hne
    by_cases hplace : above = place
    · rw [hplace, hdirectory]
      exact Option.some_ne_none _
    · exact hfounded above habove hplace

theorem founded_here : files.Founded files.here := by
  intro above habove _
  simp only [find?, List.isPrefixOf_iff_prefix.2 habove, Bool.true_or, if_true]
  cases files.entries.lookup above <;> simp

/-- Where the way of a path begins. -/
def start (files : Files) (path : String) : List String :=
  if Location.isAbsolute path then [] else files.here

theorem locate_eq_ok_iff {path : String} : files.locate path = .ok place ↔
    (path.toList.contains '\x00' = false ∧ path ≠ "" ∧ path.utf8ByteSize < 4096) ∧
      (Location.names path.toList).foldlM files.step (files.start path) = .ok place := by
  unfold locate start
  split
  next hnul => simp only [hnul, reduceCtorEq, false_and]
  next hnul =>
    split
    next hempty => simp [hempty]
    next hempty =>
      split
      next hlong => simp [Nat.not_lt.2 hlong]
      next hlong =>
        exact (and_iff_right ⟨Bool.eq_false_iff.2 hnul, hempty, Nat.not_le.1 hlong⟩).symm

theorem founded_start (path : String) : files.Founded (files.start path) := by
  unfold start
  split
  · intro above habove hne
    exact absurd (List.prefix_nil.1 habove) hne
  · exact founded_here

theorem exists_step_of_foldlM_cons {name : List Char} {names : List (List Char)}
    {start : List String} (h : (name :: names).foldlM files.step start = .ok place) :
    ∃ next, files.step start name = .ok next ∧ names.foldlM files.step next = .ok place := by
  rw [List.foldlM_cons] at h
  cases hstep : files.step start name with
  | error fault => rw [hstep] at h; cases h
  | ok next => rw [hstep] at h; exact ⟨next, rfl, h⟩

theorem founded_foldlM {names : List (List Char)} {start : List String}
    (hstart : files.Founded start) (h : names.foldlM files.step start = .ok place) :
    files.Founded place := by
  induction names generalizing start with
  | nil =>
    cases h
    exact hstart
  | cons name names ih =>
    obtain ⟨next, hstep, hrest⟩ := exists_step_of_foldlM_cons h
    exact ih (founded_step hstart hstep) hrest

theorem founded_locate {path : String} (h : files.locate path = .ok place) :
    files.Founded place :=
  founded_foldlM (founded_start path) (locate_eq_ok_iff.1 h).2

/-! ## Overwriting -/

/-- The way to a place passes directories alone, so a file that is put there does not bend it. -/
theorem foldlM_step_put (hfounded : files.Founded place)
    (hplace : files.find? place ≠ some .directory) {names : List (List Char)}
    {start : List String} (h : names.foldlM files.step start = .ok place) :
    names.foldlM (files.put place content).step start = .ok place := by
  induction names generalizing start with
  | nil => exact h
  | cons name names ih =>
    obtain ⟨next, hstep, hrest⟩ := exists_step_of_foldlM_cons h
    -- the step starts from a directory, so not from the place itself
    have hne : start ≠ place := fun heq => hplace (heq ▸ (step_cases hstep).1)
    have hsame : (files.put place content).step start name = files.step start name := by
      rw [step, find?_put_of_ne hfounded hne]
      rfl
    rw [List.foldlM_cons, hsame, hstep]
    exact ih hrest

theorem locate_put {path : String} (h : files.locate path = .ok place)
    (hplace : files.find? place ≠ some .directory) :
    (files.put place content).locate path = .ok place := by
  obtain ⟨husable, hway⟩ := locate_eq_ok_iff.1 h
  exact locate_eq_ok_iff.2 ⟨husable, foldlM_step_put (founded_locate h) hplace hway⟩

/-- The file that a path leads to now holds the text, and every other place is as it was. -/
structure Replaced (files : Files) (path text : String) (after : Files) : Prop where
  reads : after.readText path = .ok text
  others : ∀ place, files.locate path ≠ .ok place → after.find? place = files.find? place

theorem decode_toUTF8 (text : String) : decode text.toUTF8 = .ok text := by
  simp only [decode, String.fromUTF8?, String.toUTF8_eq_toByteArray, dif_pos text.isValidUTF8]
  rfl

theorem replaced_put {path text : String} (h : files.locate path = .ok place)
    (hplace : files.find? place ≠ some .directory) :
    files.Replaced path text (files.put place text.toUTF8) where
  reads := by
    rw [readText, read, locate_put h hplace]
    simp only [bind, Except.bind, find?_put_self]
    exact decode_toUTF8 text
  others other hother :=
    find?_put_of_ne (founded_locate h) fun heq => hother (heq ▸ h)

theorem replaced_of_write {path text : String} (h : files.write path text = .ok after) :
    files.Replaced path text after := by
  unfold write at h
  cases hlocate : files.locate path with
  | error fault => rw [hlocate] at h; cases h
  | ok place =>
    rw [hlocate] at h
    simp only [bind, Except.bind] at h
    split at h
    · cases h
    next hplace =>
      cases h
      exact replaced_put hlocate fun hdirectory => hplace hdirectory

end Files

end Stencil
