import Stencil.Proofs.Bytes
import Stencil.Proofs.TagScanner
/-
  The scanner is local. A match in the front of some bytes is one in the whole that ends there
  (`matchAt?_append_left`), and a match behind the cut does not depend on the front
  (`matchAt?_append_right`). So the runs over the front and over the whole go in step up to the cut,
  unless a span goes through it, and from there on the whole is scanned like the back alone.
-/

namespace Stencil.TagScanner

open Text

variable {as bs : List UInt8} {start depth stop i : Nat}

/-! ## Matches in the front -/

/-- What is matched in the front is what is matched in the whole and ends in the front. -/
theorem matchTag?_append_left :
    matchTag? as start (depth + 1) = some stop ↔
      matchTag? (as ++ bs) start (depth + 1) = some stop ∧ stop ≤ as.length := by
  constructor
  · intro h
    have hbounds := bounds_of_matchTag? h
    obtain ⟨interior, rest, hdrop, hne, hinterior, hstop⟩ := matchTag?_eq_some_iff.1 h
    refine ⟨matchTag?_eq_some_iff.2 ⟨interior, rest ++ bs, ?_, hne, hinterior, hstop⟩, hbounds.2⟩
    rw [List.drop_append_of_le_length (by omega), hdrop]
    simp only [List.append_assoc]
  · intro h
    obtain ⟨hmatch, hle⟩ := h
    have hbounds := bounds_of_matchTag? hmatch
    obtain ⟨interior, rest, hdrop, hne, hinterior, hstop⟩ := matchTag?_eq_some_iff.1 hmatch
    let tag := List.replicate (depth + 1) '{'.toUInt8 ++
      (interior ++ List.replicate (depth + 1) '}'.toUInt8)
    have htag : (as.drop start) ++ bs = tag ++ rest := by
      rw [← List.drop_append_of_le_length (by omega), hdrop]
      simp only [tag, List.append_assoc]
    have hlength : tag.length ≤ (as.drop start).length := by
      simp only [tag, List.length_append, List.length_replicate, List.length_drop]
      omega
    -- the tag is too short to reach behind the cut
    obtain ⟨front, hfront⟩ := List.prefix_of_prefix_length_le ⟨rest, htag.symm⟩
      (List.prefix_append (as.drop start) bs) hlength
    refine matchTag?_eq_some_iff.2 ⟨interior, front, ?_, hne, hinterior, hstop⟩
    rw [← hfront]
    simp only [tag, List.append_assoc]

/-- Where three braces are matched, two are not. -/
theorem matchTag?_two_of_three {bytes : List UInt8} (h : matchTag? bytes start 3 = some stop) :
    matchTag? bytes start 2 = none := by
  by_contra hsome
  obtain ⟨other, hother⟩ := Option.ne_none_iff_exists'.1 hsome
  obtain ⟨_, _, hthree, -⟩ := matchTag?_eq_some_iff.1 h
  obtain ⟨interior, _, htwo, hne, hinterior, -⟩ := matchTag?_eq_some_iff.1 hother
  obtain ⟨b, interior, rfl⟩ := List.exists_cons_of_ne_nil hne
  -- the third byte is a brace and not one
  have hthird := congrArg (·[2]?) (htwo.symm.trans hthree)
  obtain rfl : b = '{'.toUInt8 := by simpa using hthird
  have hbrace := hinterior _ List.mem_cons_self
  exact absurd hbrace (by decide)

theorem matchAt?_eq_some_iff_matchTag? {bytes : List UInt8} :
    matchAt? bytes i = some stop ↔
      matchTag? bytes i 2 = some stop ∨ matchTag? bytes i 3 = some stop := by
  rw [matchAt?, Option.or_eq_some_iff]
  constructor
  · intro h
    exact h.imp_right And.right
  · intro h
    exact h.imp_right fun hthree => ⟨matchTag?_two_of_three hthree, hthree⟩

theorem matchAt?_append_left :
    matchAt? as i = some stop ↔ matchAt? (as ++ bs) i = some stop ∧ stop ≤ as.length := by
  rw [matchAt?_eq_some_iff_matchTag?, matchAt?_eq_some_iff_matchTag?, or_and_right,
    ← matchTag?_append_left, ← matchTag?_append_left]

theorem matchAt?_left_eq_none (h : matchAt? (as ++ bs) i = none) : matchAt? as i = none := by
  by_contra hsome
  obtain ⟨stop, hstop⟩ := Option.ne_none_iff_exists'.1 hsome
  have hmatch : matchAt? (as ++ bs) i = some stop := (matchAt?_append_left.1 hstop).1
  rw [h] at hmatch
  exact absurd hmatch.symm (Option.some_ne_none stop)

/-! ## Matches behind the front -/

theorem matchTag?_append_right (as bs : List UInt8) (i depth : Nat) :
    matchTag? (as ++ bs) (as.length + i) depth = (matchTag? bs i depth).map (as.length + ·) := by
  unfold matchTag?
  simp only [Nat.add_assoc, List.drop_length_add_append]
  split
  · split
    · rfl
    · split
      · rfl
      · split
        · rfl
        · rfl
  · rfl

theorem matchAt?_append_right (as bs : List UInt8) (i : Nat) :
    matchAt? (as ++ bs) (as.length + i) = (matchAt? bs i).map (as.length + ·) := by
  rw [matchAt?, matchTag?_append_right, matchTag?_append_right, ← Option.map_or, matchAt?]

/-! ## The spans on both sides of a cut -/

/-- A span further back. -/
def shift (count : Nat) (s : Nat × Nat) : Nat × Nat := (count + s.1, count + s.2)

/-- Behind the front, the whole is scanned like the back alone. -/
theorem findFrom_append_right (as bs : List UInt8) (position : Nat) :
    findFrom (as ++ bs) (as.length + position) =
      (findFrom bs position).map (shift as.length) := by
  fun_induction findFrom bs position with
  | case1 position hfound =>
    rw [findFrom_eq, List.drop_length_add_append, hfound]
    rfl
  | case2 position found hfound stop hmatch ih =>
    rw [findFrom_eq, List.drop_length_add_append, hfound]
    simp only [tryAt, Nat.add_assoc, matchAt?_append_right, hmatch, Option.map_some, ih,
      List.map_cons, shift]
  | case3 position found hfound hmatch ih =>
    rw [findFrom_eq, List.drop_length_add_append, hfound]
    simp only [tryAt, Nat.add_assoc, matchAt?_append_right, hmatch, Option.map_none]
    simpa only [Nat.add_assoc] using ih

/-- The span goes through a cut: it starts before it and ends behind it. -/
def Crosses (cut : Nat) (s : Nat × Nat) : Prop := s.1 < cut ∧ cut < s.2

/-- Up to a cut that no span goes through, the whole is scanned like the front alone. -/
theorem findFrom_append_left {position : Nat} (hle : position ≤ as.length)
    (h : ∀ s ∈ findFrom (as ++ bs) position, ¬Crosses as.length s) :
    findFrom (as ++ bs) position = findFrom as position ++ findFrom (as ++ bs) as.length := by
  by_cases hend : position = as.length
  · rw [hend, findFrom_length, List.nil_append]
  · have hlt : position < as.length := by omega
    have hwhole : position < (as ++ bs).length := by
      rw [List.length_append]
      omega
    cases hmatch : matchAt? (as ++ bs) position with
    | none =>
      have hnone : matchAt? as position = none := matchAt?_left_eq_none hmatch
      rw [findFrom_succ hmatch hwhole] at h ⊢
      rw [findFrom_succ hnone hlt]
      exact findFrom_append_left hlt h
    | some stop =>
      have hstart := bounds_of_matchAt? hmatch
      rw [findFrom_of_match hmatch] at h ⊢
      have hstop : stop ≤ as.length := by
        have hcross := h (position, stop) List.mem_cons_self
        unfold Crosses at hcross
        dsimp only at hcross
        omega
      have hfront : matchAt? as position = some stop := matchAt?_append_left.2 ⟨hmatch, hstop⟩
      rw [findFrom_of_match hfront, List.cons_append]
      have hrest := findFrom_append_left hstop fun s hs => h s (List.mem_cons_of_mem _ hs)
      rw [← hrest]
termination_by as.length - position

/-- The spans of two stretches of bytes, put together, are those of the whole exactly when no span
    of the whole goes through the cut. -/
theorem findTags_append_iff (as bs : List UInt8) :
    findTags (as ++ bs) = findTags as ++ (findTags bs).map (shift as.length) ↔
      ∀ s ∈ findTags (as ++ bs), ¬Crosses as.length s := by
  constructor
  · intro h s hs hcross
    unfold Crosses at hcross
    rw [h, List.mem_append, List.mem_map] at hs
    rcases hs with hs | ⟨r, -, rfl⟩
    · have hbounds := bounds_of_matchAt? (matchAt?_of_mem_findFrom as 0 s hs).2
      omega
    · unfold shift at hcross
      dsimp only at hcross
      omega
  · intro h
    have hback := findFrom_append_right as bs 0
    rw [Nat.add_zero] at hback
    unfold findTags
    rw [findFrom_append_left (Nat.zero_le _) h, hback]

/-! ## Texts -/

theorem utf8_append (a b : String) : utf8 (a ++ b) = utf8 a ++ utf8 b := by
  rw [utf8_eq_bytes, utf8_eq_bytes, utf8_eq_bytes, String.toList_append, bytes_append]

/-- Where one text ends and another begins, the tags of both are those of the whole, the second
    ones shifted by the bytes of the first text, exactly if none of the whole goes through there. -/
theorem findTags_text_append (a b : String) :
    (∀ s ∈ findTags (utf8 (a ++ b)), ¬(s.1 < (utf8 a).length ∧ (utf8 a).length < s.2)) ↔
      findTags (utf8 (a ++ b)) =
        findTags (utf8 a) ++
          (findTags (utf8 b)).map fun s => ((utf8 a).length + s.1, (utf8 a).length + s.2) := by
  rw [utf8_append]
  exact (findTags_append_iff (utf8 a) (utf8 b)).symm

/-- Four opening braces around a cut, of which only the last two belong to a tag. -/
example : findTags (utf8 ("\x7b\x7ba\x7d\x7d\x7b\x7b" ++ "\x7b\x7bb\x7d\x7d")) =
    [(0, 5), (7, 12)] := by
  decide +kernel

end Stencil.TagScanner
