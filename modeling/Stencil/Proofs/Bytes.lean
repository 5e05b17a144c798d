import Mathlib.Tactic.ByContra
import Stencil.Proofs.Locality
/-
  Texts in UTF-8. The bytes below 128 are characters of their own and part of no others, so where
  such a byte stands in the bytes of a text, the text can be cut (`cut_at_ascii`).
-/

namespace Stencil.Text

/-- The characters in UTF-8. -/
def bytes (cs : List Char) : List UInt8 := cs.flatMap String.utf8EncodeChar

@[simp] theorem bytes_nil : bytes [] = [] := rfl

@[simp] theorem bytes_cons (c : Char) (cs : List Char) :
    bytes (c :: cs) = String.utf8EncodeChar c ++ bytes cs := rfl

@[simp] theorem bytes_append (cs ds : List Char) : bytes (cs ++ ds) = bytes cs ++ bytes ds :=
  List.flatMap_append

/-- The bytes of a string. -/
def utf8 (s : String) : List UInt8 := s.toUTF8.data.toList

theorem utf8_eq_bytes (s : String) : utf8 s = bytes s.toList := by
  rw [utf8, String.toUTF8_eq_toByteArray, ← String.utf8Encode_toList, List.utf8Encode]
  simp [bytes]

@[simp] theorem length_bytes (cs : List Char) : (bytes cs).length = byteSize cs := by
  induction cs with
  | nil => rfl
  | cons c cs ih =>
    rw [bytes_cons, List.length_append, String.length_utf8EncodeChar, ih, byteSize_cons]

theorem eq_nil_of_byteSize {cs : List Char} (h : byteSize cs = 0) : cs = [] := by
  by_contra hne
  exact Nat.ne_of_gt (byteSize_pos hne) h

theorem bytes_eq_nil {cs : List Char} (h : bytes cs = []) : cs = [] :=
  eq_nil_of_byteSize (by rw [← length_bytes, h, List.length_nil])

theorem encode_ascii {c : Char} (h : c.toNat < 128) : String.utf8EncodeChar c = [c.toUInt8] := by
  refine String.utf8EncodeChar_eq_singleton (Char.utf8Size_eq_one_iff.2 ?_)
  exact UInt32.le_iff_toNat_le.2 (Nat.le_of_lt_succ h)

/-- A byte below 128 is a character of its own. -/
theorem ascii_of_mem_encode {c : Char} {b : UInt8} (hmem : b ∈ String.utf8EncodeChar c)
    (hb : b.toNat < 128) : c.toNat < 128 := by
  by_contra hc
  have hne : ¬c.val.toNat ≤ 0x7f := fun hle => hc (Nat.lt_succ_of_le hle)
  have hhigh : ∀ n, 0x80 ≤ n % 0x100 → (UInt8.ofNat n).toNat = b.toNat → False := by
    intro n hn heq
    rw [UInt8.toNat_ofNat'] at heq
    omega
  simp only [String.utf8EncodeChar, if_neg hne] at hmem
  split at hmem
  · simp only [List.mem_cons, List.not_mem_nil, or_false] at hmem
    rcases hmem with rfl | rfl <;> exact hhigh _ (by omega) rfl
  · split at hmem
    · simp only [List.mem_cons, List.not_mem_nil, or_false] at hmem
      rcases hmem with rfl | rfl | rfl <;> exact hhigh _ (by omega) rfl
    · simp only [List.mem_cons, List.not_mem_nil, or_false] at hmem
      rcases hmem with rfl | rfl | rfl | rfl <;> exact hhigh _ (by omega) rfl

theorem toNat_toUInt8 {c : Char} (h : c.toNat < 128) : c.toUInt8.toNat = c.toNat := by
  rw [Char.toUInt8, UInt32.toNat_toUInt8]
  exact Nat.mod_eq_of_lt (Nat.lt_trans h (by decide))

theorem toUInt8_inj {c d : Char} (hc : c.toNat < 128) (hd : d.toNat < 128)
    (h : c.toUInt8 = d.toUInt8) : c = d := by
  have heq : c.toNat = d.toNat := by rw [← toNat_toUInt8 hc, ← toNat_toUInt8 hd, h]
  rw [← Char.ofNat_toNat c, ← Char.ofNat_toNat d, heq]

/-- A byte below 128 that stands in the bytes of a text is that of a character in it. -/
theorem cut_at_ascii {c : Char} (hc : c.toNat < 128) {cs : List Char} {xs ys : List UInt8}
    (h : bytes cs = xs ++ c.toUInt8 :: ys) :
    ∃ before after, cs = before ++ c :: after ∧ bytes before = xs ∧ bytes after = ys := by
  induction cs generalizing xs with
  | nil => simp at h
  | cons d cs ih =>
    rw [bytes_cons] at h
    have hlater : ∀ zs, xs = String.utf8EncodeChar d ++ zs → bytes cs = zs ++ c.toUInt8 :: ys →
        ∃ before after, d :: cs = before ++ c :: after ∧ bytes before = xs ∧ bytes after = ys := by
      rintro zs rfl hcs
      obtain ⟨before, after, rfl, rfl, rfl⟩ := ih hcs
      exact ⟨d :: before, after, rfl, rfl, rfl⟩
    rcases List.append_eq_append_iff.1 h with ⟨zs, hxs, hcs⟩ | ⟨zs, hd, hys⟩
    · exact hlater zs hxs hcs
    · cases zs with
      | nil => exact hlater [] (by simpa using hd.symm) (by simpa using hys.symm)
      | cons b zs =>
        -- the byte is among those of the first character, which is then the one looked for
        obtain ⟨rfl, rfl⟩ := List.cons.inj hys
        have hd' : d.toNat < 128 :=
          ascii_of_mem_encode (b := c.toUInt8) (by rw [hd]; simp) (by rwa [toNat_toUInt8 hc])
        rw [encode_ascii hd'] at hd
        obtain ⟨rfl, hd⟩ | ⟨xs, rfl, hd⟩ := List.cons_eq_append_iff.1 hd
        · obtain ⟨heq, rfl⟩ := List.cons.inj hd
          obtain rfl := toUInt8_inj hd' hc heq
          exact ⟨[], cs, rfl, rfl, rfl⟩
        · simp at hd

theorem bytes_replicate {c : Char} (hc : c.toNat < 128) (n : Nat) :
    bytes (List.replicate n c) = List.replicate n c.toUInt8 := by
  induction n with
  | zero => rfl
  | succ n ih =>
    rw [List.replicate_succ, bytes_cons, encode_ascii hc, ih, List.replicate_succ]
    rfl

theorem cut_at_run {c : Char} (hc : c.toNat < 128) {n : Nat} {cs : List Char}
    {xs ys : List UInt8} (h : bytes cs = xs ++ (List.replicate (n + 1) c.toUInt8 ++ ys)) :
    ∃ before after, cs = before ++ (List.replicate (n + 1) c ++ after) ∧ bytes before = xs ∧
      bytes after = ys := by
  induction n generalizing cs xs with
  | zero => exact cut_at_ascii hc h
  | succ n ih =>
    obtain ⟨before, after, rfl, rfl, hafter⟩ := cut_at_ascii hc h
    obtain ⟨none, after, rfl, hnone, rfl⟩ := @ih after [] hafter
    obtain rfl := bytes_eq_nil hnone
    exact ⟨before, after, rfl, rfl, rfl⟩

/-- Of two ways to cut a text, the one with the larger first part cuts the second part of the
    other. -/
theorem exists_of_byteSize_le {as bs cs ds : List Char} (h : as ++ bs = cs ++ ds)
    (hle : byteSize as ≤ byteSize cs) : ∃ es, cs = as ++ es ∧ bs = es ++ ds := by
  rcases List.append_eq_append_iff.1 h with ⟨es, hcs, hbs⟩ | ⟨es, has, hds⟩
  · exact ⟨es, hcs, hbs⟩
  · rw [has, byteSize_append] at hle
    obtain rfl := eq_nil_of_byteSize (show byteSize es = 0 by omega)
    exact ⟨[], by simpa using has.symm, by simpa using hds.symm⟩

theorem eq_of_byteSize_eq {as bs cs ds : List Char} (h : as ++ bs = cs ++ ds)
    (hsize : byteSize as = byteSize cs) : as = cs ∧ bs = ds := by
  obtain ⟨es, rfl, rfl⟩ := exists_of_byteSize_le h (Nat.le_of_eq hsize)
  rw [byteSize_append] at hsize
  obtain rfl := eq_nil_of_byteSize (show byteSize es = 0 by omega)
  exact ⟨(List.append_nil as).symm, rfl⟩

end Stencil.Text
