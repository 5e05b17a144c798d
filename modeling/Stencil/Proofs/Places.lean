import Stencil.Place
/-
  Places told by the text before them. Where a text is cut, the table of its lines gives the place
  right behind the first part (`place_ofChars`), whatever the second part is; and more text before
  a place moves it on in reading order (`behind_lt_behind`).
-/

namespace Stencil

open Text

/-! ## Reading order -/

/-- Places in the order in which they are read: by their line, and in a line by their column. -/
instance : LT Place := ⟨fun p q => p.line < q.line ∨ p.line = q.line ∧ p.column < q.column⟩

theorem Place.lt_iff {p q : Place} :
    p < q ↔ p.line < q.line ∨ p.line = q.line ∧ p.column < q.column := Iff.rfl

theorem Place.lt_irrefl (p : Place) : ¬p < p := by
  rw [Place.lt_iff]
  omega

/-! ## The text since the last newline -/

/-- The characters behind the last newline. -/
def lastLine (cs : List Char) : List Char := (cs.reverse.takeWhile (· ≠ '\n')).reverse

theorem ne_newline {cs : List Char} (h : '\n' ∉ cs) : ∀ c ∈ cs, decide (c ≠ '\n') = true := by
  intro c hc
  rw [decide_eq_true_iff]
  exact fun heq => h (heq ▸ hc)

theorem lastLine_of_not_mem {cs : List Char} (h : '\n' ∉ cs) : lastLine cs = cs := by
  have hrev : '\n' ∉ cs.reverse := fun hmem => h (List.mem_reverse.1 hmem)
  have htake := @List.takeWhile_append_of_pos _ _ cs.reverse [] (ne_newline hrev)
  rw [List.append_nil, List.takeWhile_nil, List.append_nil] at htake
  rw [lastLine, htake, List.reverse_reverse]

/-- What stands before a newline is not on the last line. -/
theorem lastLine_newline (cs ds : List Char) : lastLine (cs ++ '\n' :: ds) = lastLine ds := by
  have htake : ∀ xs ys : List Char,
      (xs ++ '\n' :: ys).takeWhile (· ≠ '\n') = xs.takeWhile (· ≠ '\n') := by
    intro xs ys
    induction xs with
    | nil => rfl
    | cons x xs ih =>
      rw [List.cons_append, List.takeWhile_cons, List.takeWhile_cons, ih]
  rw [lastLine, List.reverse_append, List.reverse_cons, List.append_assoc, List.singleton_append,
    htake, lastLine]

theorem lastLine_append (cs : List Char) {ds : List Char} (h : '\n' ∉ ds) :
    lastLine (cs ++ ds) = lastLine cs ++ ds := by
  have hrev : '\n' ∉ ds.reverse := fun hmem => h (List.mem_reverse.1 hmem)
  rw [lastLine, List.reverse_append, List.takeWhile_append_of_pos (ne_newline hrev),
    List.reverse_append, List.reverse_reverse, lastLine]

/-! ## The place behind a text -/

/-- The place right behind some text: one line more than newlines, and one column more than
    characters since the last of them. -/
def Place.behind (cs : List Char) : Place := ⟨cs.count '\n' + 1, (lastLine cs).length + 1⟩

/-- Every further character moves the place on. -/
theorem Place.behind_lt_behind (cs : List Char) {ds : List Char} (h : ds ≠ []) :
    behind cs < behind (cs ++ ds) := by
  rw [Place.lt_iff, behind, behind, List.count_append]
  by_cases hds : '\n' ∈ ds
  · have hcount : 0 < ds.count '\n' := List.count_pos_iff.2 hds
    left
    dsimp only
    omega
  · have hlength : 0 < ds.length := List.length_pos_iff.2 h
    right
    rw [List.count_eq_zero.2 hds, lastLine_append cs hds, List.length_append]
    dsimp only
    omega

namespace LineTable

/-! ## Lines -/

theorem linesFrom_of_not_mem {cs : List Char} (h : '\n' ∉ cs) (start : Nat) :
    linesFrom start cs = [⟨start, cs⟩] := by
  have hdrop := @List.dropWhile_append_of_pos _ _ cs [] (ne_newline h)
  rw [List.append_nil, List.dropWhile_nil] at hdrop
  rw [linesFrom]
  split
  · rfl
  · next heq => rw [hdrop] at heq; simp at heq

theorem linesFrom_newline {line : List Char} (h : '\n' ∉ line) (start : Nat) (rest : List Char) :
    linesFrom start (line ++ '\n' :: rest) =
      ⟨start, line ++ ['\n']⟩ :: linesFrom (start + byteSize (line ++ ['\n'])) rest := by
  have htake : (line ++ '\n' :: rest).takeWhile (· ≠ '\n') = line := by
    rw [List.takeWhile_append_of_pos (ne_newline h)]
    simp
  have hdrop : (line ++ '\n' :: rest).dropWhile (· ≠ '\n') = '\n' :: rest := by
    rw [List.dropWhile_append_of_pos (ne_newline h)]
    simp
  rw [linesFrom]
  split
  · next heq => rw [hdrop] at heq; simp at heq
  · next nl rest' heq =>
    rw [hdrop] at heq
    obtain ⟨rfl, rfl⟩ := List.cons.inj heq
    rw [htake]

theorem linesFrom_eq_cons (start : Nat) (cs : List Char) :
    ∃ chars lines, linesFrom start cs = ⟨start, chars⟩ :: lines := by
  by_cases h : '\n' ∈ cs
  · obtain ⟨line, rest, rfl, hline⟩ := List.eq_append_cons_of_mem h
    exact ⟨_, _, linesFrom_newline hline start rest⟩
  · exact ⟨_, _, linesFrom_of_not_mem h start⟩

/-- The lines that start at or before a cut: one for every newline before it, and the line that the
    cut is in, which begins with what stands before the cut. -/
theorem takeWhile_linesFrom (start : Nat) (cs ds : List Char) :
    ∃ lines before more, cs = before ++ lastLine cs ∧ lines.length = cs.count '\n' ∧
      (linesFrom start (cs ++ ds)).takeWhile (·.start ≤ start + byteSize cs) =
        lines ++ [⟨start + byteSize before, lastLine cs ++ more⟩] := by
  by_cases hcs : '\n' ∈ cs
  · obtain ⟨line, rest, rfl, hline⟩ := List.eq_append_cons_of_mem hcs
    have hsize : start + byteSize (line ++ '\n' :: rest) =
        start + byteSize (line ++ ['\n']) + byteSize rest := by
      simp only [byteSize_append, byteSize_cons, byteSize_nil]
      omega
    obtain ⟨lines, before, more, hrest, hlength, htake⟩ :=
      takeWhile_linesFrom (start + byteSize (line ++ ['\n'])) rest ds
    refine ⟨⟨start, line ++ ['\n']⟩ :: lines, line ++ '\n' :: before, more, ?_, ?_, ?_⟩
    · rw [lastLine_newline, List.append_assoc, List.cons_append, ← hrest]
    · simp [hlength, List.count_eq_zero.2 hline]
    · rw [List.append_assoc, List.cons_append, linesFrom_newline hline,
        List.takeWhile_cons_of_pos (by simp), hsize, htake, lastLine_newline]
      simp [Nat.add_assoc]
  · have hcount := List.count_eq_zero.2 hcs
    by_cases hds : '\n' ∈ ds
    · -- the next line starts behind the cut
      obtain ⟨line, rest, rfl, hline⟩ := List.eq_append_cons_of_mem hds
      have hboth : '\n' ∉ cs ++ line := by simp [hcs, hline]
      obtain ⟨chars, lines, hnext⟩ :=
        linesFrom_eq_cons (start + byteSize (cs ++ line ++ ['\n'])) rest
      have hbehind : ¬start + byteSize (cs ++ line ++ ['\n']) ≤ start + byteSize cs := by
        have hpos := Char.utf8Size_pos '\n'
        simp only [byteSize_append, byteSize_cons, byteSize_nil]
        omega
      refine ⟨[], [], line ++ ['\n'], by rw [lastLine_of_not_mem hcs]; rfl, hcount.symm, ?_⟩
      rw [← List.append_assoc, linesFrom_newline hboth,
        List.takeWhile_cons_of_pos (by simp), hnext,
        List.takeWhile_cons_of_neg (by simpa using hbehind), lastLine_of_not_mem hcs]
      simp
    · have hboth : '\n' ∉ cs ++ ds := by simp [hcs, hds]
      refine ⟨[], [], ds, by rw [lastLine_of_not_mem hcs]; rfl, hcount.symm, ?_⟩
      rw [linesFrom_of_not_mem hboth, List.takeWhile_cons_of_pos (by simp),
        lastLine_of_not_mem hcs]
      rfl
termination_by cs.length

/-! ## Places -/

/-- The bytes of a first part hold its characters. -/
theorem charsIn?_append (cs ds : List Char) :
    charsIn? (cs ++ ds) (byteSize cs) = some cs.length := by
  induction cs with
  | nil => rw [byteSize_nil, charsIn?]; rfl
  | cons c cs ih =>
    obtain ⟨n, hn⟩ : ∃ n, byteSize (c :: cs) = n + 1 := by
      have hpos := c.utf8Size_pos
      exact ⟨byteSize (c :: cs) - 1, by rw [byteSize_cons]; omega⟩
    have hle : c.utf8Size ≤ byteSize (c :: cs) := Nat.le_add_right _ _
    have hrest : byteSize (c :: cs) - c.utf8Size = byteSize cs := Nat.add_sub_cancel_left _ _
    rw [hn] at hle hrest ⊢
    rw [List.cons_append, charsIn?, if_pos hle, hrest, ih]
    · rfl
    · exact Nat.succ_ne_zero n

/-- Where a text is cut, the place is right behind the first part. -/
theorem place_ofChars (cs ds : List Char) :
    (ofChars (cs ++ ds)).place (byteSize cs) = .behind cs := by
  obtain ⟨lines, before, more, hcs, hlength, htake⟩ := takeWhile_linesFrom 0 cs ds
  rw [Nat.zero_add, Nat.zero_add] at htake
  have hoffset : min (byteSize cs) (byteSize (cs ++ ds)) = byteSize cs := by
    rw [byteSize_append]
    omega
  have hbytes : byteSize cs - byteSize before = byteSize (lastLine cs) := by
    have hsize := congrArg byteSize hcs
    rw [byteSize_append] at hsize
    omega
  simp only [place, ofChars, hoffset, htake, List.getLast?_concat, hbytes, charsIn?_append,
    Option.getD_some, List.length_append, List.length_singleton, hlength]
  rfl

end LineTable

end Stencil
