/-
  Maps as lists of pairs in the order in which the keys were first put in.
-/

namespace Stencil.Entries

/-- Changes the value under a key in its place; a key that is not there is put last, with `new`
    changed. -/
def modify {α : Type} (key : String) (new : α) (f : α → α) :
    List (String × α) → List (String × α)
  | [] => [(key, f new)]
  | (k, v) :: rest => if k = key then (k, f v) :: rest else (k, v) :: modify key new f rest

/-- Sets the value under a key. A key that is there keeps its place. -/
def insert {α : Type} (key : String) (v : α) (entries : List (String × α)) :
    List (String × α) :=
  modify key v (fun _ => v) entries

/-- A repeated key keeps its first place and takes its last value. -/
def ofPairs {α : Type} (pairs : List (String × α)) : List (String × α) :=
  pairs.foldl (fun entries (k, v) => insert k v entries) []

theorem keys_modify_of_mem {α : Type} {key : String} {new : α} {f : α → α}
    {entries : List (String × α)} (h : key ∈ entries.map (·.1)) :
    (modify key new f entries).map (·.1) = entries.map (·.1) := by
  induction entries with
  | nil => simp at h
  | cons e rest ih =>
    obtain ⟨k, v⟩ := e
    by_cases hk : k = key
    · simp [modify, hk]
    · rw [modify, if_neg hk]
      simp only [List.map_cons, List.mem_cons] at h ⊢
      rw [ih (h.resolve_left (Ne.symm hk))]

theorem keys_modify_of_not_mem {α : Type} {key : String} {new : α} {f : α → α}
    {entries : List (String × α)} (h : key ∉ entries.map (·.1)) :
    (modify key new f entries).map (·.1) = entries.map (·.1) ++ [key] := by
  induction entries with
  | nil => rfl
  | cons e rest ih =>
    obtain ⟨k, v⟩ := e
    simp only [List.map_cons, List.mem_cons, not_or] at h
    rw [modify, if_neg (Ne.symm h.1)]
    simp [ih h.2]

theorem lookup_cons {α : Type} (name k : String) (v : α) (rest : List (String × α)) :
    ((k, v) :: rest).lookup name = if name = k then some v else rest.lookup name := by
  rw [List.lookup_cons]
  by_cases hname : name = k
  · simp [hname]
  · simp [hname, beq_eq_false_iff_ne.2 hname]

theorem lookup_modify {α : Type} (key name : String) (new : α) (f : α → α)
    (entries : List (String × α)) :
    (modify key new f entries).lookup name =
      if name = key then some (f ((entries.lookup key).getD new)) else entries.lookup name := by
  induction entries with
  | nil => rw [modify, lookup_cons]; rfl
  | cons e rest ih =>
    obtain ⟨k, v⟩ := e
    by_cases hk : k = key
    · subst hk
      rw [modify, if_pos rfl, lookup_cons, lookup_cons, lookup_cons, if_pos rfl]
      split <;> rfl
    · rw [modify, if_neg hk, lookup_cons, lookup_cons, lookup_cons, ih, if_neg (Ne.symm hk)]
      by_cases hname : name = k
      · rw [if_pos hname, if_neg (hname ▸ hk), if_pos hname]
      · rw [if_neg hname, if_neg hname]

end Stencil.Entries
