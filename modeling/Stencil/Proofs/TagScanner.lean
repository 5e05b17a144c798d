import Mathlib.Data.List.Basic
import Mathlib.Data.Nat.Init
/-
  Finding tags in bytes. The scanner jumps to the next two opening braces, tries a tag of two
  braces there and then one of three, and goes on behind the tag or, if there is none, one byte
  later. Whatever the bytes are, its spans stand in order and apart, each is matched where it
  starts, and everything that can be matched starts in one of them (`findFrom_covers`).
-/

namespace Stencil.TagScanner

/-! ## The scanner -/

def isBrace (b : UInt8) : Bool := b == '{'.toUInt8 || b == '}'.toUInt8

/-- The first position at which some bytes stand. -/
def find? (needle : List UInt8) : List UInt8 → Option Nat
  | [] => none
  | b :: bs => if needle <+: b :: bs then some 0 else (find? needle bs).map (· + 1)

/-- Matches `depth` opening braces at a position, then bytes that are no braces, at least one, then
    `depth` closing braces. Gives the position behind them. -/
def matchTag? (bytes : List UInt8) (start depth : Nat) : Option Nat :=
  if List.replicate depth '{'.toUInt8 <+: bytes.drop start then
    match (bytes.drop (start + depth)).findIdx? isBrace with
    | none => none
    | some interior =>
      if interior = 0 then none
      else if List.replicate depth '}'.toUInt8 <+: bytes.drop (start + depth + interior) then
        some (start + depth + interior + depth)
      else none
  else none

/-- Matches a tag, one of two braces rather than one of three. -/
def matchAt? (bytes : List UInt8) (start : Nat) : Option Nat :=
  (matchTag? bytes start 2).or (matchTag? bytes start 3)

/-- A stretch of bytes up to a first one of a kind. -/
theorem findIdx?_eq_some_iff_append {p : UInt8 → Bool} {bytes : List UInt8} {k : Nat} :
    bytes.findIdx? p = some k ↔
      ∃ front b rest, bytes = front ++ b :: rest ∧ (∀ x ∈ front, p x = false) ∧ p b = true ∧
        front.length = k := by
  constructor
  · intro h
    obtain ⟨hlt, hb, hfront⟩ := List.findIdx?_eq_some_iff_getElem.1 h
    refine ⟨bytes.take k, bytes[k], bytes.drop (k + 1), ?_, fun x hx => ?_, hb, ?_⟩
    · rw [List.getElem_cons_drop, List.take_append_drop]
    · obtain ⟨j, hj, rfl⟩ := List.mem_take_iff_getElem.1 hx
      simpa using hfront j (Nat.lt_of_lt_of_le hj (Nat.min_le_left _ _))
    · rw [List.length_take, Nat.min_eq_left (Nat.le_of_lt hlt)]
  · rintro ⟨front, b, rest, rfl, hfront, hb, rfl⟩
    rw [List.findIdx?_append, List.findIdx?_eq_none_iff.2 hfront, List.findIdx?_cons, if_pos hb]
    simp

/-- Behind the bytes that stand at a position stands what follows them there. -/
theorem drop_add_of_drop_eq {bytes xs ys : List UInt8} {i n : Nat} (h : bytes.drop i = xs ++ ys)
    (hn : xs.length = n) : bytes.drop (i + n) = ys := by
  rw [← List.drop_drop, h, List.drop_left' hn]

/-- What is matched is opening braces, bytes that are no braces, and closing braces. -/
theorem matchTag?_eq_some_iff {bytes : List UInt8} {start depth stop : Nat} :
    matchTag? bytes start (depth + 1) = some stop ↔
      ∃ interior rest, bytes.drop start = List.replicate (depth + 1) '{'.toUInt8 ++
          (interior ++ (List.replicate (depth + 1) '}'.toUInt8 ++ rest)) ∧
        interior ≠ [] ∧ (∀ b ∈ interior, isBrace b = false) ∧
        stop = start + (depth + 1) + interior.length + (depth + 1) := by
  constructor
  · intro h
    unfold matchTag? at h
    split at h
    · next hopen =>
      obtain ⟨inside, hdrop⟩ := hopen
      rw [drop_add_of_drop_eq hdrop.symm (List.length_replicate ..)] at h
      split at h
      · simp at h
      · next k hk =>
        obtain ⟨interior, b, tail, rfl, hinterior, -, rfl⟩ := findIdx?_eq_some_iff_append.1 hk
        split at h
        · simp at h
        · next hne =>
          have hinside := drop_add_of_drop_eq hdrop.symm (List.length_replicate ..)
          rw [drop_add_of_drop_eq hinside rfl] at h
          split at h
          · next hclose =>
            obtain ⟨rest, hrest⟩ := hclose
            refine ⟨interior, rest, ?_, ?_, hinterior, (Option.some.inj h).symm⟩
            · rw [hrest, hdrop]
            · rintro rfl
              exact hne rfl
          · simp at h
    · simp at h
  · rintro ⟨interior, rest, hdrop, hne, hinterior, rfl⟩
    have hinside := drop_add_of_drop_eq hdrop (List.length_replicate ..)
    have hclosing := drop_add_of_drop_eq hinside rfl
    have hopen : List.replicate (depth + 1) '{'.toUInt8 <+: bytes.drop start :=
      ⟨_, hdrop.symm⟩
    have hindex : (bytes.drop (start + (depth + 1))).findIdx? isBrace = some interior.length :=
      findIdx?_eq_some_iff_append.2 ⟨interior, '}'.toUInt8,
        List.replicate depth '}'.toUInt8 ++ rest, hinside, hinterior, rfl, rfl⟩
    have hclose : List.replicate (depth + 1) '}'.toUInt8 <+:
        bytes.drop (start + (depth + 1) + interior.length) := ⟨rest, hclosing.symm⟩
    simp only [matchTag?, if_pos hopen, hindex, if_pos hclose, List.length_eq_zero_iff, if_neg hne]

theorem bounds_of_matchTag? {bytes : List UInt8} {start depth stop : Nat}
    (h : matchTag? bytes start (depth + 1) = some stop) : start < stop ∧ stop ≤ bytes.length := by
  obtain ⟨interior, rest, hdrop, -, -, rfl⟩ := matchTag?_eq_some_iff.1 h
  have hlength := congrArg List.length hdrop
  simp only [List.length_drop, List.length_append, List.length_replicate] at hlength
  omega

theorem bounds_of_matchAt? {bytes : List UInt8} {start stop : Nat}
    (h : matchAt? bytes start = some stop) : start < stop ∧ stop ≤ bytes.length := by
  rcases Option.or_eq_some_iff.1 h with h | ⟨-, h⟩
  · exact bounds_of_matchTag? h
  · exact bounds_of_matchTag? h

theorem lt_of_find? {needle bytes : List UInt8} {found : Nat} (h : find? needle bytes = some found) :
    found < bytes.length := by
  induction bytes generalizing found with
  | nil => simp [find?] at h
  | cons b bs ih =>
    rw [find?] at h
    split at h
    · obtain rfl := Option.some.inj h
      simp
    · obtain ⟨k, hk, rfl⟩ := Option.map_eq_some_iff.1 h
      exact Nat.succ_lt_succ (ih hk)

/-- The byte ranges of the tags that start at a position or behind it. -/
def findFrom (bytes : List UInt8) (position : Nat) : List (Nat × Nat) :=
  match _hfound : find? ['{'.toUInt8, '{'.toUInt8] (bytes.drop position) with
  | none => []
  | some found =>
    match _hmatch : matchAt? bytes (position + found) with
    | some stop => (position + found, stop) :: findFrom bytes stop
    | none => findFrom bytes (position + found + 1)
termination_by bytes.length - position
decreasing_by
  · have hfound := lt_of_find? _hfound
    have hmatch := bounds_of_matchAt? _hmatch
    rw [List.length_drop] at hfound
    omega
  · have hfound := lt_of_find? _hfound
    rw [List.length_drop] at hfound
    omega

/-- The byte ranges of all tags. -/
def findTags (bytes : List UInt8) : List (Nat × Nat) := findFrom bytes 0

/-! ## What is found -/

variable {bytes needle : List UInt8} {position i stop : Nat}

/-- The needle is found no later than where it stands. -/
theorem exists_find? (hne : needle ≠ []) (h : needle <+: bytes.drop i) :
    ∃ found ≤ i, find? needle bytes = some found := by
  induction bytes generalizing i with
  | nil => exact absurd (by simpa using h) hne
  | cons b bs ih =>
    by_cases hprefix : needle <+: b :: bs
    · exact ⟨0, Nat.zero_le i, by rw [find?, if_pos hprefix]⟩
    · cases i with
      | zero => exact absurd h hprefix
      | succ i =>
        obtain ⟨found, hle, hfound⟩ := ih h
        exact ⟨found + 1, Nat.succ_le_succ hle, by rw [find?, if_neg hprefix, hfound]; rfl⟩

theorem open_of_matchAt? (h : matchAt? bytes i = some stop) :
    ['{'.toUInt8, '{'.toUInt8] <+: bytes.drop i := by
  rcases Option.or_eq_some_iff.1 h with h | ⟨-, h⟩
  · obtain ⟨interior, rest, hdrop, -⟩ := matchTag?_eq_some_iff.1 h
    exact ⟨_, hdrop.symm⟩
  · obtain ⟨interior, rest, hdrop, -⟩ := matchTag?_eq_some_iff.1 h
    exact ⟨_, hdrop.symm⟩

/-- From where a tag is matched, the jump leads nowhere else but to a place before it. -/
theorem exists_jump (h : matchAt? bytes i = some stop) (hle : position ≤ i) :
    ∃ found, position + found ≤ i ∧
      find? ['{'.toUInt8, '{'.toUInt8] (bytes.drop position) = some found := by
  have hopen := open_of_matchAt? h
  have hdrop : bytes.drop i = (bytes.drop position).drop (i - position) := by
    rw [List.drop_drop, Nat.add_sub_cancel' hle]
  rw [hdrop] at hopen
  obtain ⟨found, hfound, heq⟩ := exists_find? (by simp) hopen
  exact ⟨found, by omega, heq⟩

/-- The spans stand behind the position, and each is what is matched at its start. -/
theorem matchAt?_of_mem_findFrom (bytes : List UInt8) (position : Nat) :
    ∀ s ∈ findFrom bytes position, position ≤ s.1 ∧ matchAt? bytes s.1 = some s.2 := by
  fun_induction findFrom bytes position with
  | case1 => simp
  | case2 position found hfound stop hmatch ih =>
    intro s hs
    rcases List.mem_cons.1 hs with rfl | hs
    · exact ⟨Nat.le_add_right _ _, hmatch⟩
    · obtain ⟨hle, hs⟩ := ih s hs
      have hlt := bounds_of_matchAt? hmatch
      exact ⟨by omega, hs⟩
  | case3 position found hfound hmatch ih =>
    intro s hs
    obtain ⟨hle, hs⟩ := ih s hs
    exact ⟨by omega, hs⟩

/-- The spans are in order and do not overlap. -/
theorem pairwise_findFrom (bytes : List UInt8) (position : Nat) :
    (findFrom bytes position).Pairwise fun a b => a.2 ≤ b.1 := by
  fun_induction findFrom bytes position with
  | case1 => exact .nil
  | case2 position found hfound stop hmatch ih =>
    exact .cons (fun s hs => (matchAt?_of_mem_findFrom bytes stop s hs).1) ih
  | case3 position found hfound hmatch ih => exact ih

/-- Whatever can be matched starts in one of the spans. -/
theorem findFrom_covers (h : matchAt? bytes i = some stop) (hle : position ≤ i) :
    ∃ s ∈ findFrom bytes position, s.1 ≤ i ∧ i < s.2 := by
  fun_induction findFrom bytes position with
  | case1 position hfound =>
    obtain ⟨found, -, heq⟩ := exists_jump h hle
    rw [hfound] at heq
    simp at heq
  | case2 position found hfound stop' hmatch ih =>
    obtain ⟨found, hjump, heq⟩ := exists_jump h hle
    obtain rfl := Option.some.inj (hfound.symm.trans heq)
    by_cases hi : i < stop'
    · exact ⟨_, List.mem_cons_self, hjump, hi⟩
    · obtain ⟨s, hs, hcover⟩ := ih (Nat.le_of_not_lt hi)
      exact ⟨s, List.mem_cons_of_mem _ hs, hcover⟩
  | case3 position found hfound hmatch ih =>
    obtain ⟨found, hjump, heq⟩ := exists_jump h hle
    obtain rfl := Option.some.inj (hfound.symm.trans heq)
    have hne : position + found ≠ i := by
      rintro rfl
      rw [hmatch] at h
      simp at h
    exact ih (by omega)

/-! ## Step by step -/

/-- What the scanner gives once it has jumped to two opening braces. -/
def tryAt (bytes : List UInt8) (start : Nat) : List (Nat × Nat) :=
  match matchAt? bytes start with
  | some stop => (start, stop) :: findFrom bytes stop
  | none => findFrom bytes (start + 1)

theorem findFrom_eq (bytes : List UInt8) (position : Nat) :
    findFrom bytes position =
      match find? ['{'.toUInt8, '{'.toUInt8] (bytes.drop position) with
      | none => []
      | some found => tryAt bytes (position + found) := by
  rw [findFrom]
  split
  · next hfound => rw [hfound]
  · next found hfound =>
    rw [hfound]
    simp only [tryAt]
    split
    · next stop hmatch => rw [hmatch]
    · next hmatch => rw [hmatch]

theorem findFrom_of_match (h : matchAt? bytes i = some stop) :
    findFrom bytes i = (i, stop) :: findFrom bytes stop := by
  obtain ⟨found, hle, hfound⟩ := exists_jump h (Nat.le_refl i)
  obtain rfl : found = 0 := by omega
  rw [findFrom_eq, hfound]
  simp only [tryAt, Nat.add_zero, h]

/-- A jump passes the bytes at which nothing can be matched one by one. -/
theorem findFrom_succ (h : matchAt? bytes i = none) (hlt : i < bytes.length) :
    findFrom bytes i = findFrom bytes (i + 1) := by
  rw [findFrom_eq, List.drop_eq_getElem_cons hlt, find?]
  by_cases hopen : ['{'.toUInt8, '{'.toUInt8] <+: bytes[i] :: bytes.drop (i + 1)
  · simp only [if_pos hopen, tryAt, Nat.add_zero, h]
  · rw [if_neg hopen, findFrom_eq bytes (i + 1)]
    cases find? ['{'.toUInt8, '{'.toUInt8] (bytes.drop (i + 1)) with
    | none => rfl
    | some found => simp only [Option.map_some, Nat.add_right_comm, Nat.add_assoc]

theorem findFrom_skip {k : Nat} (hle : position ≤ k) (hk : k ≤ bytes.length)
    (h : ∀ j, position ≤ j → j < k → matchAt? bytes j = none) :
    findFrom bytes position = findFrom bytes k := by
  induction k, hle using Nat.le_induction with
  | base => rfl
  | succ k hle ih =>
    rw [ih (Nat.le_of_lt hk) fun j hj hlt => h j hj (Nat.lt_succ_of_lt hlt)]
    exact findFrom_succ (h k hle (Nat.lt_succ_self k)) hk

theorem findFrom_length (bytes : List UInt8) : findFrom bytes bytes.length = [] := by
  rw [findFrom_eq, List.drop_length]
  rfl

end Stencil.TagScanner
