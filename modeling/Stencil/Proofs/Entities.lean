import Stencil.Proofs.Escaping
/-
  Escaping for HTML loses nothing. `Html.unescape` goes once through a text and puts back the
  character of every entity it comes upon; it goes on behind the entity, so that what it has put
  back is never read as part of another one. In an escaped text every entity stands for one
  character of the text (`unescapeChars_entity`), and therefore the text is found again, also one
  that looks like entities itself (`escape_lossless`).
-/

namespace Stencil.Html

/-! ## Escaping at the end of a buffer -/

/-- Writes a text behind what is there already, one character after the other. -/
def escapeOnto (output text : String) : String :=
  text.toList.foldl (fun out c => out ++ String.ofList (entity c)) output

theorem foldl_entity (cs : List Char) (output : String) :
    cs.foldl (fun out c => out ++ String.ofList (entity c)) output =
      output ++ String.ofList (escapeChars cs) := by
  induction cs generalizing output with
  | nil => exact String.append_empty.symm
  | cons c cs ih =>
    rw [List.foldl_cons, ih, String.append_assoc, ← String.ofList_append]
    rfl

theorem escapeOnto_eq (output text : String) : escapeOnto output text = output ++ escape text :=
  foldl_entity text.toList output

theorem escape_append (s t : String) : escape (s ++ t) = escape s ++ escape t := by
  unfold escape
  rw [String.toList_append, escapeChars_append, String.ofList_append]

/-! ## Putting the characters back -/

/-- Reads an entity at the start of a text: the character it stands for and what follows it. -/
def entityAt? (cs : List Char) : Option (Char × List Char) :=
  replacements.findSome? fun (e, c) => (Text.dropStart? e.toList cs).map (c, ·)

theorem exists_of_entityAt? {cs rest : List Char} {c : Char}
    (h : entityAt? cs = some (c, rest)) : ∃ e, (e, c) ∈ replacements ∧ cs = e.toList ++ rest := by
  obtain ⟨⟨e, d⟩, hmem, hread⟩ := List.exists_of_findSome?_eq_some h
  obtain ⟨rest', hdrop, heq⟩ := Option.map_eq_some_iff.1 hread
  obtain ⟨rfl, rfl⟩ := Prod.mk.inj heq
  exact ⟨e, hmem, Text.eq_append_of_dropStart? hdrop⟩

/-- Every entity begins with an ampersand. -/
theorem toList_of_mem_replacements {e : String} {c : Char} (h : (e, c) ∈ replacements) :
    ∃ body, e.toList = '&' :: body := by
  simp only [replacements, List.mem_cons, Prod.mk.injEq, List.not_mem_nil, or_false] at h
  rcases h with ⟨rfl, -⟩ | ⟨rfl, -⟩ | ⟨rfl, -⟩ | ⟨rfl, -⟩ | ⟨rfl, -⟩ <;> exact ⟨_, rfl⟩

theorem length_lt_of_entityAt? {cs rest : List Char} {c : Char}
    (h : entityAt? cs = some (c, rest)) : rest.length < cs.length := by
  obtain ⟨e, he, rfl⟩ := exists_of_entityAt? h
  obtain ⟨body, hbody⟩ := toList_of_mem_replacements he
  rw [hbody, List.length_append, List.length_cons]
  omega

/-- The text with every entity replaced by its character, in one pass from the left. -/
def unescapeChars : List Char → List Char
  | [] => []
  | c :: cs =>
    match _h : entityAt? (c :: cs) with
    | some (d, rest) => d :: unescapeChars rest
    | none => c :: unescapeChars cs
termination_by cs => cs.length
decreasing_by
  · exact length_lt_of_entityAt? _h
  · exact Nat.lt_succ_self _

def unescape (text : String) : String := String.ofList (unescapeChars text.toList)

theorem unescapeChars_nil : unescapeChars [] = [] := by
  rw [unescapeChars]

theorem unescapeChars_of_entityAt? {cs rest : List Char} {c : Char}
    (h : entityAt? cs = some (c, rest)) : unescapeChars cs = c :: unescapeChars rest := by
  have hlt := length_lt_of_entityAt? h
  cases cs with
  | nil => exact absurd hlt (Nat.not_lt_zero _)
  | cons d cs =>
    rw [unescapeChars]
    split
    · next heq =>
      obtain ⟨rfl, rfl⟩ := Prod.mk.inj (Option.some.inj (heq.symm.trans h))
      rfl
    · next heq => exact absurd (heq.symm.trans h) nofun

theorem unescapeChars_of_ne {c : Char} (hc : c ≠ '&') (cs : List Char) :
    unescapeChars (c :: cs) = c :: unescapeChars cs := by
  rw [unescapeChars]
  split
  · next heq =>
    obtain ⟨e, he, hcons⟩ := exists_of_entityAt? heq
    obtain ⟨body, hbody⟩ := toList_of_mem_replacements he
    rw [hbody] at hcons
    exact absurd (List.cons.inj hcons).1 hc
  · rfl

/-! ## Escaping and back -/

/-- The entity of a character is read as that character, whatever follows. -/
theorem unescapeChars_entity (c : Char) (cs : List Char) :
    unescapeChars (entity c ++ cs) = c :: unescapeChars cs := by
  unfold entity
  split
  · exact unescapeChars_of_entityAt? rfl
  · exact unescapeChars_of_entityAt? rfl
  · exact unescapeChars_of_entityAt? rfl
  · exact unescapeChars_of_entityAt? rfl
  · exact unescapeChars_of_entityAt? rfl
  · next hamp _ _ _ _ => exact unescapeChars_of_ne hamp cs

theorem unescapeChars_escapeChars (cs : List Char) : unescapeChars (escapeChars cs) = cs := by
  induction cs with
  | nil => exact unescapeChars_nil
  | cons c cs ih =>
    have hcons : escapeChars (c :: cs) = entity c ++ escapeChars cs := List.flatMap_cons
    rw [hcons, unescapeChars_entity, ih]

theorem unescape_escape (text : String) : unescape (escape text) = text := by
  unfold unescape escape
  rw [String.toList_ofList, unescapeChars_escapeChars, String.ofList_toList]

theorem escape_injective : Function.Injective escape :=
  Function.LeftInverse.injective unescape_escape

/-- Escaping a text onto a buffer leaves the buffer and behind it the escape, which has none of the
    four markup characters and no ampersand but those of the five entities. The text can be had back
    from it in one pass, so no other text has the same escape; and texts one behind the other are
    escaped one by one. -/
theorem escape_lossless (text output : String) :
    escapeOnto output text = output ++ escape text ∧
      (∀ c ∈ (escape text).toList, c ∉ ['<', '>', '"', '\'']) ∧
      (∀ tail, '&' :: tail <:+ (escape text).toList →
        ∃ e ∈ replacements, e.1.toList <+: '&' :: tail) ∧
      unescape (escape text) = text ∧
      (∀ other, escape other = escape text ↔ other = text) ∧
      ∀ more, escape (text ++ more) = escape text ++ escape more := by
  have hinert := inert_escape text
  refine ⟨escapeOnto_eq output text, hinert.no_markup, fun tail htail => ?_, unescape_escape text,
    fun other => escape_injective.eq_iff, escape_append text⟩
  obtain ⟨e, he, hprefix⟩ := hinert.ampersand tail htail
  rw [entities] at he
  obtain ⟨r, hr, rfl⟩ := List.mem_map.1 he
  exact ⟨r, hr, hprefix⟩

/-- What has been put back is not read again. -/
example : unescape "&amp;lt;" = "&lt;" ∧ escape "&lt;" = "&amp;lt;" := by decide +kernel

end Stencil.Html
