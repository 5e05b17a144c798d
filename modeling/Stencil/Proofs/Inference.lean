import Mathlib.Data.List.Induction
import Stencil.Proofs.Forest
/-
  What the shape of a template records. `Node.buildTree` builds the tree and records uses on the
  way, in one pass that hands one shape through all blocks; it builds what `ofTokens` builds and
  records what `Shape.ofTokens` records. `Shape.Records` says what that is: the keys of every path
  that a token uses, each with its first use, in the order in which they are first met.
-/

namespace Stencil

/-! ## One use -/

namespace Shape

/-- The part of a shape under some keys, one below the other. -/
def at? (s : Shape) (keys : List String) : Option Shape := keys.foldlM child? s

def childNames (s : Shape) : List String := s.children.map (·.1)

/-- Records the use that a token makes of its path, if it makes any. -/
def note (s : Shape) (t : Token) : Shape :=
  match useOf? t with
  | some (path, use) => s.register path use
  | none => s

theorem ofTokens_eq_foldl (ts : List Token) : ofTokens ts = ts.foldl note empty := by
  rw [ofTokens, List.foldl_filterMap]
  congr 1
  funext s t
  unfold note
  cases useOf? t <;> rfl

theorem ofTokens_concat (ts : List Token) (t : Token) :
    ofTokens (ts ++ [t]) = (ofTokens ts).note t := by
  simp only [ofTokens_eq_foldl, List.foldl_append, List.foldl_cons, List.foldl_nil]

/-! ## Lookup -/

theorem at?_nil (s : Shape) : s.at? [] = some s := rfl

theorem at?_cons (s : Shape) (k : String) (ks : List String) :
    s.at? (k :: ks) = (s.child? k).bind (·.at? ks) := rfl

theorem at?_concat (s : Shape) (ks : List String) (k : String) :
    s.at? (ks ++ [k]) = (s.at? ks).bind (·.child? k) := by
  unfold at?
  rw [List.foldlM_append]
  exact congrArg _ (funext fun c => bind_pure (c.child? k))

/-- Below a part that is not there, everything is as below an empty one. -/
theorem getD_at?_cons (s : Shape) (k : String) (ks : List String) :
    (s.at? (k :: ks)).getD empty = (((s.child? k).getD empty).at? ks).getD empty := by
  rw [at?_cons]
  cases s.child? k with
  | some c => rfl
  | none => cases ks <;> rfl

theorem mem_childNames {s : Shape} {k : String} :
    k ∈ s.childNames ↔ (s.child? k).isSome = true := by
  rw [child?, List.lookup_isSome_iff, childNames, List.mem_map]
  constructor
  · rintro ⟨e, he, rfl⟩
    exact ⟨e, he, beq_self_eq_true _⟩
  · rintro ⟨e, he, hk⟩
    exact ⟨e, he, (beq_iff_eq.1 hk).symm⟩

theorem child?_recordKeys (use : Usage) (k : String) (ks : List String) (s : Shape)
    (name : String) : (recordKeys use (k :: ks) s).child? name =
      if name = k then some (recordKeys use ks ((s.child? k).getD empty)) else s.child? name := by
  obtain ⟨usage, children⟩ := s
  exact Entries.lookup_modify k name empty (recordKeys use ks) children

theorem childNames_recordKeys (use : Usage) (k : String) (ks : List String) (s : Shape) :
    (recordKeys use (k :: ks) s).childNames =
      if k ∈ s.childNames then s.childNames else s.childNames ++ [k] := by
  obtain ⟨usage, children⟩ := s
  split
  · next h => exact Entries.keys_modify_of_mem h
  · next h => exact Entries.keys_modify_of_not_mem h

theorem usage_recordKeys (use : Usage) (ks : List String) (s : Shape) :
    (recordKeys use ks s).usage = if ks = [] then s.usage.or (some use) else s.usage := by
  obtain ⟨usage, children⟩ := s
  cases ks <;> rfl

theorem childNames_recordKeys_nil (use : Usage) (s : Shape) :
    (recordKeys use [] s).childNames = s.childNames := by
  obtain ⟨usage, children⟩ := s
  rfl

/-- Recording changes the parts on the way to the last key and no others. -/
theorem at?_recordKeys (use : Usage) (ks : List String) (s : Shape) (q : List String) :
    (recordKeys use ks s).at? q =
      if q <+: ks then some (recordKeys use (ks.drop q.length) ((s.at? q).getD empty))
      else s.at? q := by
  induction q generalizing ks s with
  | nil => simp [at?_nil]
  | cons k q ih =>
    cases ks with
    | nil =>
      obtain ⟨usage, children⟩ := s
      simp only [List.prefix_nil, List.cons_ne_nil, if_false]
      rfl
    | cons j ks =>
      rw [at?_cons, child?_recordKeys]
      by_cases hk : k = j
      · subst hk
        rw [if_pos rfl, Option.bind_some, ih]
        simp only [List.prefix_cons_inj, List.length_cons, List.drop_succ_cons, getD_at?_cons]
        split
        · rfl
        · next hq =>
          -- here some key follows, and below an empty part there is none
          have hne : q ≠ [] := by
            rintro rfl
            exact hq List.nil_prefix
          obtain ⟨i, q, rfl⟩ := List.exists_cons_of_ne_nil hne
          rw [at?_cons s]
          cases s.child? k <;> rfl
      · rw [if_neg hk, if_neg (fun h => hk (List.cons_prefix_cons.1 h).1), ← at?_cons]

/-! ## One token -/

/-- The use that a token makes of these very keys: a value tag uses a scalar, the opening tag of a
    section a condition, and the opening tag of a loop a collection. -/
def useOfKeys? (keys : List String) : Token → Option Usage
  | .escaped path | .unescaped path => if Path.keys path = keys then some .scalar else none
  | .sectionOpen path | .invertedOpen path =>
    if Path.keys path = keys then some .conditional else none
  | .eachOpen path => if Path.keys path = keys then some .collection else none
  | .content _ | .sectionClose _ | .eachClose _ | .custom _ _ => none

/-- Whether the token is a value tag or an opening tag whose path begins with the keys. -/
def mentions (keys : List String) : Token → Bool
  | .escaped path | .unescaped path | .sectionOpen path | .invertedOpen path | .eachOpen path =>
    keys.isPrefixOf (Path.keys path)
  | .content _ | .sectionClose _ | .eachClose _ | .custom _ _ => false

section Recorded

variable {t : Token} {path : String} {use : Usage}

theorem useOfKeys?_eq (h : useOf? t = some (path, use)) (keys : List String) :
    useOfKeys? keys t = if Path.keys path = keys then some use else none := by
  cases t <;> cases h <;> rfl

theorem mentions_iff (h : useOf? t = some (path, use)) {keys : List String} :
    mentions keys t = true ↔ keys <+: Path.keys path := by
  rw [← List.isPrefixOf_iff_prefix]
  cases t <;> cases h <;> rfl

/-- A token whose use is not recorded mentions no keys and uses none. -/
theorem unused_of_none (h : useOf? t = none) (keys : List String) :
    mentions keys t = false ∧ useOfKeys? keys t = none := by
  cases t <;> cases h <;> exact ⟨rfl, rfl⟩

end Recorded

/-- What a token does to a shape: nothing, if its path has no keys, or else it records its use
    under them. -/
theorem note_cases (t : Token) :
    (∀ s : Shape, s.note t = s) ∧ (∀ q, q ≠ [] → mentions q t = false ∧ useOfKeys? q t = none) ∨
      ∃ keys use, keys ≠ [] ∧ (∀ s : Shape, s.note t = recordKeys use keys s) ∧
        (∀ q, mentions q t = true ↔ q <+: keys) ∧
        ∀ q, useOfKeys? q t = if keys = q then some use else none := by
  cases hused : useOf? t with
  | none =>
    exact .inl ⟨fun s => by simp [note, hused], fun q _ => unused_of_none hused q⟩
  | some u =>
    obtain ⟨path, use⟩ := u
    cases hkeys : Path.keys path with
    | nil =>
      refine .inl ⟨fun s => by simp [note, hused, register, hkeys], fun q hq => ⟨?_, ?_⟩⟩
      · rw [← Bool.not_eq_true, mentions_iff hused, hkeys, List.prefix_nil]
        exact hq
      · rw [useOfKeys?_eq hused, hkeys, if_neg hq.symm]
    | cons k ks =>
      refine .inr ⟨k :: ks, use, List.cons_ne_nil k ks, fun s => ?_, fun q => ?_, fun q => ?_⟩
      · simp [note, hused, register, hkeys]
      · rw [mentions_iff hused, hkeys]
      · rw [useOfKeys?_eq hused, hkeys]

/-- A part is there afterwards if it was there before or the token mentions its keys. -/
theorem isSome_at?_note (s : Shape) (t : Token) {q : List String} (hq : q ≠ []) :
    ((s.note t).at? q).isSome = ((s.at? q).isSome || mentions q t) := by
  rcases note_cases t with ⟨hsame, hnone⟩ | ⟨keys, use, -, hnote, hmentions, -⟩
  · rw [hsame, (hnone q hq).1, Bool.or_false]
  · rw [hnote, at?_recordKeys, Bool.eq_iff_iff, Bool.or_eq_true, hmentions]
    split <;> simp [*]

/-- A use that is there stays, and one that is not is the token's if the token uses these keys. -/
theorem usage_at?_note (s : Shape) (t : Token) {q : List String} (hq : q ≠ []) :
    ((s.note t).at? q).bind usage = ((s.at? q).bind usage).or (useOfKeys? q t) := by
  rcases note_cases t with ⟨hsame, hnone⟩ | ⟨keys, use, -, hnote, -, huse⟩
  · rw [hsame, (hnone q hq).2, Option.or_none]
  · have hold : ((s.at? q).getD empty).usage = (s.at? q).bind usage := by
      cases s.at? q <;> rfl
    rw [hnote, huse, at?_recordKeys]
    split
    · next hstart =>
      have hlast : keys.drop q.length = [] ↔ keys = q := by
        rw [List.drop_eq_nil_iff]
        exact ⟨fun hle => (hstart.eq_of_length_le hle).symm, fun h => h ▸ Nat.le_refl _⟩
      rw [Option.bind_some, usage_recordKeys, hold]
      simp only [hlast]
      split
      · rfl
      · rw [Option.or_none]
    · next hstart =>
      rw [if_neg (fun h : keys = q => hstart (h ▸ List.prefix_rfl)), Option.or_none]

/-- A token adds at most one name below a part, at the end, and mentions it. -/
theorem childNames_note (s : Shape) (t : Token) (q : List String) :
    (((s.note t).at? q).getD empty).childNames = ((s.at? q).getD empty).childNames ∨
      ∃ k, k ∉ ((s.at? q).getD empty).childNames ∧ mentions (q ++ [k]) t = true ∧
        (((s.note t).at? q).getD empty).childNames =
          ((s.at? q).getD empty).childNames ++ [k] := by
  rcases note_cases t with ⟨hsame, -⟩ | ⟨keys, use, -, hnote, hmentions, -⟩
  · exact .inl (by rw [hsame])
  · rw [hnote, at?_recordKeys]
    split
    · next hstart =>
      obtain ⟨ks, rfl⟩ := hstart
      rw [List.drop_left, Option.getD_some]
      cases ks with
      | nil => exact .inl (childNames_recordKeys_nil use _)
      | cons k ks =>
        rw [childNames_recordKeys]
        split
        · exact .inl rfl
        · next hk =>
          refine .inr ⟨k, hk, (hmentions _).2 ?_, rfl⟩
          exact ⟨ks, by simp⟩
    · exact .inl rfl

/-- A part whose child is named is there, and so is the child. -/
theorem isSome_at?_concat {s : Shape} {q : List String} {k : String} :
    (s.at? (q ++ [k])).isSome = true ↔ k ∈ ((s.at? q).getD empty).childNames := by
  rw [at?_concat]
  cases s.at? q with
  | none => simp [childNames, empty, children]
  | some c => rw [Option.bind_some, Option.getD_some, mem_childNames]

/-! ## All tokens -/

/-- The use that the first token with exactly these keys makes of them. -/
def firstUse? (keys : List String) (ts : List Token) : Option Usage :=
  ts.findSome? (useOfKeys? keys)

/-- The number of the first token that mentions the keys. -/
def firstMention (keys : List String) (ts : List Token) : Nat := ts.findIdx (mentions keys)

theorem isSome_at?_ofTokens (ts : List Token) {q : List String} (hq : q ≠ []) :
    ((ofTokens ts).at? q).isSome = ts.any (mentions q) := by
  induction ts using List.reverseRecOn with
  | nil =>
    obtain ⟨k, q, rfl⟩ := List.exists_cons_of_ne_nil hq
    rfl
  | append_singleton ts t ih =>
    rw [ofTokens_concat, isSome_at?_note _ t hq, ih, List.any_append]
    simp

theorem usage_at?_ofTokens (ts : List Token) {q : List String} (hq : q ≠ []) :
    ((ofTokens ts).at? q).bind usage = firstUse? q ts := by
  induction ts using List.reverseRecOn with
  | nil =>
    obtain ⟨k, q, rfl⟩ := List.exists_cons_of_ne_nil hq
    rfl
  | append_singleton ts t ih =>
    rw [ofTokens_concat, usage_at?_note _ t hq, ih, firstUse?, firstUse?, List.findSome?_append]
    simp

theorem usage_ofTokens (ts : List Token) : (ofTokens ts).usage = none := by
  induction ts using List.reverseRecOn with
  | nil => rfl
  | append_singleton ts t ih =>
    rw [ofTokens_concat]
    rcases note_cases t with ⟨hsame, -⟩ | ⟨keys, use, hne, hnote, -⟩
    · rw [hsame, ih]
    · rw [hnote, usage_recordKeys, if_neg hne, ih]

theorem firstMention_lt {keys : List String} {ts : List Token} :
    firstMention keys ts < ts.length ↔ ts.any (mentions keys) = true := by
  rw [firstMention, List.findIdx_lt_length, List.any_eq_true]

/-- More tokens do not change where keys are first mentioned. -/
theorem firstMention_concat {keys : List String} {ts : List Token} (t : Token)
    (h : ts.any (mentions keys) = true) : firstMention keys (ts ++ [t]) = firstMention keys ts := by
  have hlt := firstMention_lt.2 h
  unfold firstMention at hlt ⊢
  rw [List.findIdx_append, if_pos hlt]

theorem firstMention_concat_new {keys : List String} {ts : List Token} {t : Token}
    (h : ts.any (mentions keys) = false) (ht : mentions keys t = true) :
    firstMention keys (ts ++ [t]) = ts.length := by
  have hlt : ¬firstMention keys ts < ts.length := by
    rw [firstMention_lt, h]
    exact Bool.false_ne_true
  unfold firstMention at hlt ⊢
  rw [List.findIdx_append, if_neg hlt]
  simp [ht]

/-- The names below a part stand in the order of the tokens that first mention them. -/
theorem pairwise_childNames (ts : List Token) (q : List String) :
    (((ofTokens ts).at? q).getD empty).childNames.Pairwise fun a b =>
      firstMention (q ++ [a]) ts < firstMention (q ++ [b]) ts := by
  induction ts using List.reverseRecOn with
  | nil =>
    cases q with
    | nil => exact .nil
    | cons k q => exact .nil
  | append_singleton ts t ih =>
    have hmentioned : ∀ a, ts.any (mentions (q ++ [a])) = true ↔
        a ∈ (((ofTokens ts).at? q).getD empty).childNames := by
      intro a
      rw [← isSome_at?_ofTokens ts (by simp), isSome_at?_concat]
    -- names that are there already keep their places in the order
    have hold : (((ofTokens ts).at? q).getD empty).childNames.Pairwise fun a b =>
        firstMention (q ++ [a]) (ts ++ [t]) < firstMention (q ++ [b]) (ts ++ [t]) := by
      refine ih.imp_of_mem fun ha hb hlt => ?_
      rwa [firstMention_concat t ((hmentioned _).2 ha), firstMention_concat t ((hmentioned _).2 hb)]
    rw [ofTokens_concat]
    rcases childNames_note (ofTokens ts) t q with hsame | ⟨k, hk, hkt, hnames⟩
    · rwa [hsame]
    · rw [hnames, List.pairwise_append]
      refine ⟨hold, List.pairwise_singleton _ k, fun a ha b hb => ?_⟩
      obtain rfl := List.mem_singleton.1 hb
      have hnew : ts.any (mentions (q ++ [b])) = false := by
        rw [← Bool.not_eq_true, hmentioned]
        exact hk
      rw [firstMention_concat_new hnew hkt, firstMention_concat t ((hmentioned a).2 ha)]
      exact firstMention_lt.2 ((hmentioned a).2 ha)

/-- What the shape of some tokens says. -/
structure Records (s : Shape) (ts : List Token) : Prop where
  root : s.usage = none
  /-- There is a part for the keys at the beginning of every path that is used, and no other. -/
  isSome_get? : ∀ q, Path.keys q ≠ [] →
    ((s.get? q).isSome = true ↔ ∃ t ∈ ts, mentions (Path.keys q) t = true)
  usage : ∀ q c, Path.keys q ≠ [] → s.get? q = some c → c.usage = firstUse? (Path.keys q) ts
  /-- So no name stands twice below a part. -/
  order : ∀ keys c, s.at? keys = some c → c.childNames.Pairwise fun a b =>
    firstMention (keys ++ [a]) ts < firstMention (keys ++ [b]) ts

theorem records_ofTokens (ts : List Token) : (ofTokens ts).Records ts where
  root := usage_ofTokens ts
  isSome_get? q hq := by
    change ((ofTokens ts).at? (Path.keys q)).isSome = true ↔ _
    rw [isSome_at?_ofTokens ts hq, List.any_eq_true]
  usage q c hq hc := by
    have huse := usage_at?_ofTokens ts hq
    rw [show (ofTokens ts).at? (Path.keys q) = some c from hc] at huse
    exact huse
  order keys c hc := by
    have horder := pairwise_childNames ts keys
    rwa [hc] at horder

end Shape

/-! ## Tree and shape in one pass -/

namespace Node

/-- Builds nodes as `build` does, and records every use in a shape, if there is one, when its token
    is read. The body of a block goes on with the shape that its opening token has left. -/
def buildNoting (nested : Bool) (shape? : Option Shape) :
    (tokens : List Token) → Built tokens × Option Shape
  | [] => (⟨[], [], Nat.le_refl _⟩, shape?)
  | t :: ts =>
    match role t with
    | .leaf node =>
      let r := buildNoting nested (shape?.map (·.note t)) ts
      (⟨node :: r.1.nodes, r.1.rest, Nat.le_succ_of_le r.1.rest_le⟩, r.2)
    | .opens block =>
      let inner := buildNoting true (shape?.map (·.note t)) ts
      let r := buildNoting nested inner.2 inner.1.rest
      (⟨block inner.1.nodes :: r.1.nodes, r.1.rest,
        Nat.le_succ_of_le (Nat.le_trans r.1.rest_le inner.1.rest_le)⟩, r.2)
    | .closes =>
      if nested then (⟨[], ts, Nat.le_succ _⟩, shape?)
      else
        let r := buildNoting nested shape? ts
        (⟨r.1.nodes, r.1.rest, Nat.le_succ_of_le r.1.rest_le⟩, r.2)
termination_by tokens => tokens.length
decreasing_by
  · exact Nat.lt_succ_self _
  · exact Nat.lt_succ_self _
  · exact Nat.lt_succ_of_le (Built.rest_le _)
  · exact Nat.lt_succ_self _

/-- The tree of some tokens, and a shape with their uses recorded in it. -/
def buildTree (ts : List Token) (shape? : Option Shape) : List Node × Option Shape :=
  ((buildNoting false shape? ts).1.nodes, (buildNoting false shape? ts).2)

/-- The nodes built from the front of some tokens and the tokens left, and the shape. -/
def noting (nested : Bool) (shape? : Option Shape) (ts : List Token) :
    (List Node × List Token) × Option Shape :=
  let r := buildNoting nested shape? ts
  ((r.1.nodes, r.1.rest), r.2)

theorem noting_nil (nested : Bool) (shape? : Option Shape) :
    noting nested shape? [] = (([], []), shape?) := by
  simp [noting, buildNoting]

theorem noting_leaf {t : Token} {n : Node} (h : role t = .leaf n) (nested : Bool)
    (shape? : Option Shape) (ts : List Token) :
    noting nested shape? (t :: ts) =
      let r := noting nested (shape?.map (·.note t)) ts
      ((n :: r.1.1, r.1.2), r.2) := by
  simp only [noting]
  rw [buildNoting]
  simp only [h]

theorem noting_opens {t : Token} {block : List Node → Node} (h : role t = .opens block)
    (nested : Bool) (shape? : Option Shape) (ts : List Token) :
    noting nested shape? (t :: ts) =
      let inner := noting true (shape?.map (·.note t)) ts
      let r := noting nested inner.2 inner.1.2
      ((block inner.1.1 :: r.1.1, r.1.2), r.2) := by
  simp only [noting]
  rw [buildNoting]
  simp only [h]

theorem noting_closes {t : Token} (h : role t = .closes) (shape? : Option Shape)
    (ts : List Token) : noting true shape? (t :: ts) = (([], ts), shape?) := by
  simp only [noting]
  rw [buildNoting]
  simp only [h, if_true]

theorem noting_skips {t : Token} (h : role t = .closes) (shape? : Option Shape)
    (ts : List Token) : noting false shape? (t :: ts) = noting false shape? ts := by
  simp only [noting]
  rw [buildNoting]
  simp [h]

theorem note_of_closes {t : Token} (h : role t = .closes) (s : Shape) : s.note t = s := by
  cases t <;> first | rfl | simp [role] at h

/-- Recording on the way changes nothing of what is built, and records the tokens that are used
    up, one after the other. -/
theorem noting_eq (nested : Bool) (ts : List Token) (shape? : Option Shape) :
    ∃ used, ts = used ++ (built nested ts).2 ∧
      noting nested shape? ts = (built nested ts, shape?.map (used.foldl Shape.note ·)) := by
  induction nested, ts using build.induct generalizing shape? with
  | case1 nested =>
    rw [built_nil, noting_nil]
    exact ⟨[], rfl, by simp⟩
  | case2 nested t ts node hrole ih =>
    obtain ⟨used, hts, hnoting⟩ := ih (shape?.map (·.note t))
    rw [built_leaf hrole, noting_leaf hrole, hnoting, Option.map_map]
    exact ⟨t :: used, congrArg (t :: ·) hts, rfl⟩
  | case3 nested t ts block hrole _ ihbody ihrest =>
    obtain ⟨used, hts, hbody⟩ := ihbody (shape?.map (·.note t))
    obtain ⟨used', hrest, hnoting⟩ := ihrest (shape?.map fun s => used.foldl Shape.note (s.note t))
    rw [Option.map_map] at hbody
    rw [built_opens hrole, noting_opens hrole, hbody]
    -- the tokens of the body come before those behind the block
    refine ⟨t :: (used ++ used'), ?_, ?_⟩
    · rw [List.cons_append, List.append_assoc]
      exact congrArg (t :: ·) (hts.trans (congrArg (used ++ ·) hrest))
    · have hall : (shape?.map fun s => used.foldl Shape.note (s.note t)).map
          (used'.foldl Shape.note ·) = shape?.map ((t :: (used ++ used')).foldl Shape.note ·) := by
        rw [Option.map_map]
        simp only [List.foldl_cons, List.foldl_append]
        rfl
      rw [hall] at hnoting
      exact congrArg (fun r => ((block (built true ts).1 :: r.1.1, r.1.2), r.2)) hnoting
  | case4 t ts hrole =>
    rw [built_closes hrole, noting_closes hrole]
    exact ⟨[t], rfl, by simp [note_of_closes hrole]⟩
  | case5 nested t ts hrole hnested ih =>
    obtain rfl : nested = false := by simpa using hnested
    obtain ⟨used, hts, hnoting⟩ := ih shape?
    rw [built_skips hrole, noting_skips hrole, hnoting]
    exact ⟨t :: used, congrArg (t :: ·) hts, by simp [note_of_closes hrole]⟩

/-- Outside all blocks every token is used up. -/
theorem built_false_rest (ts : List Token) : (built false ts).2 = [] := by
  generalize hnested : false = nested
  induction nested, ts using build.induct with
  | case1 nested => rw [built_nil]
  | case2 nested t ts node hrole ih => rw [built_leaf hrole, ih hnested]
  | case3 nested t ts block hrole _ _ ihrest =>
    rw [built_opens hrole]
    exact ihrest hnested
  | case4 t ts hrole => cases hnested
  | case5 nested t ts hrole _ ih =>
    subst hnested
    rw [built_skips hrole, ih rfl]

/-- One pass builds the tree that is built without a shape, and records every use from the left. -/
theorem buildTree_eq (ts : List Token) (shape? : Option Shape) :
    buildTree ts shape? = (ofTokens ts, shape?.map (ts.foldl Shape.note ·)) := by
  obtain ⟨used, hts, hnoting⟩ := noting_eq false ts shape?
  rw [built_false_rest, List.append_nil] at hts
  subst hts
  exact congrArg (fun r => (r.1.1, r.2)) hnoting

end Node

/-! ## Templates -/

theorem Template.parseWithShape_eq (text : String) (options : Options) :
    parseWithShape text options =
      (parse text options).map fun t => (t, Shape.ofTokens (tokenize text options).tokens) := by
  unfold parseWithShape parse tokens
  dsimp only
  split <;> rfl

theorem Template.parseWithShape_eq_ok_iff {text : String} {options : Options} {t : Template}
    {shape : Shape} : parseWithShape text options = .ok (t, shape) ↔
      parse text options = .ok t ∧ shape = Shape.ofTokens (tokenize text options).tokens := by
  rw [parseWithShape_eq]
  cases parse text options with
  | error e => simp [Except.map]
  | ok t' => simp [Except.map, eq_comm]

/-- Building tree and shape in one pass gives the tree that is built without a shape, and the shape
    records just the first use of every path. So reading a template with its shape fails where
    reading it alone does, with the same error, and otherwise gives the same template. -/
theorem shape_exact :
    (∀ ts : List Token, Node.buildTree ts none = (Node.ofTokens ts, none) ∧
      Node.buildTree ts (some .empty) = (Node.ofTokens ts, some (Shape.ofTokens ts)) ∧
      (Shape.ofTokens ts).Records ts) ∧
    ∀ text options,
      (Template.parseWithShape text options).map (·.1) = Template.parse text options ∧
      ∀ t shape, Template.parseWithShape text options = .ok (t, shape) →
        Node.buildTree (tokenize text options).tokens (some .empty) = (t.nodes, some shape) := by
  have htree : ∀ ts, Node.buildTree ts (some .empty) =
      (Node.ofTokens ts, some (Shape.ofTokens ts)) := by
    intro ts
    rw [Node.buildTree_eq, Shape.ofTokens_eq_foldl]
    rfl
  refine ⟨fun ts => ⟨Node.buildTree_eq ts none, htree ts, Shape.records_ofTokens ts⟩,
    fun text options => ⟨?_, fun t shape h => ?_⟩⟩
  · rw [Template.parseWithShape_eq]
    cases Template.parse text options <;> rfl
  · obtain ⟨hparse, rfl⟩ := Template.parseWithShape_eq_ok_iff.1 h
    obtain ⟨-, rfl⟩ := Template.parse_eq_ok_iff.1 hparse
    exact htree _

end Stencil
