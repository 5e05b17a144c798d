import Stencil.Proofs.Inference
/-
  The tree builder as a stack machine. The machine reads tokens once, from the left, and keeps the
  blocks that are open in a stack; it has no recursion into blocks and no cursor. For all tokens,
  balanced or not, it makes the tree that the builder makes (`ofTokens_eq_assemble`), and the nodes
  of that tree, read block before body, are the tokens that close nothing (`origins_built`).
-/

namespace Stencil

namespace Node

/-! ## The machine -/

/-- A block that is not yet finished: what it will be made into, and its nodes so far. -/
structure OpenBlock where
  make : List Node → Node
  nodes : List Node

/-- What the machine has made: the nodes outside all blocks, and the open blocks, innermost
    first. -/
structure Assembly where
  top : List Node
  blocks : List OpenBlock

namespace Assembly

def empty : Assembly := ⟨[], []⟩

/-- Appends a node to the innermost open block, or outside all blocks if none is open. -/
def add (m : Assembly) (n : Node) : Assembly :=
  match m.blocks with
  | [] => { m with top := m.top ++ [n] }
  | b :: outer => { m with blocks := { b with nodes := b.nodes ++ [n] } :: outer }

/-- Begins a block inside the innermost one. -/
def enter (m : Assembly) (make : List Node → Node) : Assembly :=
  { m with blocks := ⟨make, []⟩ :: m.blocks }

/-- Finishes the innermost block, and appends it to the block around it. -/
def leave (m : Assembly) : Assembly :=
  match m.blocks with
  | [] => m
  | b :: outer => { m with blocks := outer }.add (b.make b.nodes)

/-- Reads one token. What block a closing token names makes no difference. -/
def read (m : Assembly) : Token → Assembly
  | .content text => m.add (.content text)
  | .escaped path => m.add (.value path true)
  | .unescaped path => m.add (.value path false)
  | .custom path expander => m.add (.custom path expander)
  | .sectionOpen path => m.enter (.conditional path)
  | .invertedOpen path => m.enter (.inverted path)
  | .eachOpen path => m.enter (.each path)
  | .sectionClose _ | .eachClose _ => m.leave

theorem length_blocks_add (m : Assembly) (n : Node) :
    (m.add n).blocks.length = m.blocks.length := by
  unfold add
  split
  · rfl
  · next h => simp [h]

/-- Finishes all open blocks, from the innermost outwards. -/
def finish (m : Assembly) : List Node :=
  match _h : m.blocks with
  | [] => m.top
  | _ :: _ => finish m.leave
termination_by m.blocks.length
decreasing_by
  rw [leave, _h]
  simp only [length_blocks_add, List.length_cons]
  omega

end Assembly

/-- The tree that the machine makes of some tokens. -/
def assemble (ts : List Token) : List Node := (ts.foldl Assembly.read .empty).finish

namespace Assembly

/-! ## Steps of the machine -/

theorem read_leaf {t : Token} {n : Node} (h : role t = .leaf n) (m : Assembly) :
    m.read t = m.add n := by
  cases t <;> simp only [role, Role.leaf.injEq, reduceCtorEq] at h <;> subst h <;> rfl

theorem read_opens {t : Token} {block : List Node → Node} (h : role t = .opens block)
    (m : Assembly) : m.read t = m.enter block := by
  cases t <;> simp only [role, Role.opens.injEq, reduceCtorEq] at h <;> subst h <;> rfl

theorem read_closes {t : Token} (h : role t = .closes) (m : Assembly) : m.read t = m.leave := by
  cases t <;> first | rfl | simp [role] at h

theorem finish_of_blocks_eq_nil {m : Assembly} (h : m.blocks = []) : m.finish = m.top := by
  rw [finish]
  split
  · rfl
  · next hcons => simp [h] at hcons

theorem finish_leave (m : Assembly) : m.leave.finish = m.finish := by
  cases hblocks : m.blocks with
  | nil => rw [leave, hblocks]
  | cons b outer =>
    rw [finish.eq_def m]
    split
    · next hnil => simp [hblocks] at hnil
    · rfl

theorem blocks_add_eq_nil {m : Assembly} (n : Node) : (m.add n).blocks = [] ↔ m.blocks = [] := by
  rw [← List.length_eq_zero_iff, length_blocks_add, List.length_eq_zero_iff]

/-- Appends nodes one after the other. -/
def addAll (m : Assembly) (ns : List Node) : Assembly := ns.foldl add m

theorem addAll_cons (m : Assembly) (n : Node) (ns : List Node) :
    m.addAll (n :: ns) = (m.add n).addAll ns := rfl

theorem addAll_of_blocks_eq_nil {m : Assembly} (h : m.blocks = []) (ns : List Node) :
    m.addAll ns = ⟨m.top ++ ns, []⟩ := by
  induction ns generalizing m with
  | nil =>
    obtain ⟨top, blocks⟩ := m
    obtain rfl : blocks = [] := h
    simp [addAll]
  | cons n ns ih =>
    rw [addAll_cons, ih ((blocks_add_eq_nil n).2 h)]
    simp [add, h]

theorem addAll_of_blocks_eq_cons {m : Assembly} {b : OpenBlock} {outer : List OpenBlock}
    (h : m.blocks = b :: outer) (ns : List Node) :
    m.addAll ns = ⟨m.top, ⟨b.make, b.nodes ++ ns⟩ :: outer⟩ := by
  induction ns generalizing m b with
  | nil =>
    obtain ⟨top, blocks⟩ := m
    obtain rfl : blocks = b :: outer := h
    simp [addAll]
  | cons n ns ih =>
    have hadd : (m.add n).blocks = ⟨b.make, b.nodes ++ [n]⟩ :: outer := by simp [add, h]
    have htop : (m.add n).top = m.top := by simp [add, h]
    rw [addAll_cons, ih hadd, htop]
    simp

/-- A block that is begun, filled and finished is one node more. -/
theorem leave_addAll_enter (m : Assembly) (make : List Node → Node) (body : List Node) :
    ((m.enter make).addAll body).leave = m.add (make body) := by
  have hblocks : (m.enter make).blocks = ⟨make, []⟩ :: m.blocks := rfl
  rw [addAll_of_blocks_eq_cons hblocks]
  rfl

/-! ## The machine and the builder -/

/-- Inside a block the machine makes what the builder makes up to the block's end, finishes the
    block and goes on with the tokens that the builder leaves; outside all blocks it makes what the
    builder makes. -/
theorem finish_foldl_read (nested : Bool) (ts : List Token) (m : Assembly)
    (hm : m.blocks = [] ↔ nested = false) :
    (ts.foldl read m).finish =
      ((built nested ts).2.foldl read (m.addAll (built nested ts).1).leave).finish := by
  induction nested, ts using build.induct generalizing m with
  | case1 nested =>
    rw [built_nil]
    exact (finish_leave m).symm
  | case2 nested t ts node hrole ih =>
    have hadd : (m.add node).blocks = [] ↔ nested = false := by rw [blocks_add_eq_nil, hm]
    rw [List.foldl_cons, read_leaf hrole, ih _ hadd, built_leaf hrole, addAll_cons]
  | case3 nested t ts block hrole _ ihbody ihrest =>
    -- the machine finishes the block where the builder comes back from it
    have henter : (m.enter block).blocks = [] ↔ true = false := by simp [enter]
    have hadd : (m.add (block (built true ts).1)).blocks = [] ↔ nested = false := by
      rw [blocks_add_eq_nil, hm]
    rw [List.foldl_cons, read_opens hrole, ihbody _ henter, leave_addAll_enter, built_opens hrole,
      addAll_cons]
    exact ihrest _ hadd
  | case4 t ts hrole =>
    rw [List.foldl_cons, read_closes hrole, built_closes hrole]
    rfl
  | case5 nested t ts hrole hnested ih =>
    obtain rfl : nested = false := by simpa using hnested
    have hleave : m.leave = m := by rw [leave, hm.2 rfl]
    rw [List.foldl_cons, read_closes hrole, hleave, ih m hm, built_skips hrole]

end Assembly

theorem ofTokens_eq_assemble (ts : List Token) : ofTokens ts = assemble ts := by
  have hmachine := Assembly.finish_foldl_read false ts .empty (by simp [Assembly.empty])
  rw [assemble, hmachine, built_false_rest, List.foldl_nil, Assembly.finish_leave,
    Assembly.addAll_of_blocks_eq_nil rfl, Assembly.finish_of_blocks_eq_nil rfl]
  rfl

/-! ## The nodes in order -/

/-- The token that a node was made from; a block was made from the one that opens it. -/
def origin : Node → Token
  | .content text => .content text
  | .value path true => .escaped path
  | .value path false => .unescaped path
  | .conditional path _ => .sectionOpen path
  | .inverted path _ => .invertedOpen path
  | .each path _ => .eachOpen path
  | .custom path expander => .custom path expander

mutual

/-- A node and all nodes inside it, a block before its body. -/
def preorder : Node → List Node
  | .conditional path body => .conditional path body :: preorderAll body
  | .inverted path body => .inverted path body :: preorderAll body
  | .each path body => .each path body :: preorderAll body
  | .content text => [.content text]
  | .value path escaped => [.value path escaped]
  | .custom path expander => [.custom path expander]

def preorderAll : List Node → List Node
  | [] => []
  | n :: ns => preorder n ++ preorderAll ns

end

/-- The tokens that the nodes of some trees were made from. -/
def origins (ns : List Node) : List Token := (preorderAll ns).map origin

theorem origins_cons (n : Node) (ns : List Node) :
    origins (n :: ns) = n.preorder.map origin ++ origins ns := by
  rw [origins, preorderAll, List.map_append]
  rfl

theorem origin_leaf {t : Token} {n : Node} (h : role t = .leaf n) :
    n.preorder.map origin = [t] ∧ t.isClose = false := by
  cases t <;> simp only [role, Role.leaf.injEq, reduceCtorEq] at h <;> subst h <;>
    simp [preorder, origin, Token.isClose]

theorem origin_block {t : Token} {block : List Node → Node} (h : role t = .opens block)
    (body : List Node) :
    (block body).preorder.map origin = t :: origins body ∧ t.isClose = false := by
  cases t <;> simp only [role, Role.opens.injEq, reduceCtorEq] at h <;> subst h <;>
    simp [preorder, origin, origins, Token.isClose]

theorem isClose_of_role {t : Token} (h : role t = .closes) : t.isClose = true := by
  cases t <;> first | rfl | simp [role] at h

/-- The nodes that the builder makes, and then the tokens that it leaves: every token that closes
    nothing is found there once, and in its place. -/
theorem origins_built (nested : Bool) (ts : List Token) :
    origins (built nested ts).1 ++ (built nested ts).2.filter (!·.isClose) =
      ts.filter (!·.isClose) := by
  induction nested, ts using build.induct with
  | case1 nested => rw [built_nil]; rfl
  | case2 nested t ts node hrole ih =>
    obtain ⟨horigin, hclose⟩ := origin_leaf hrole
    rw [built_leaf hrole, origins_cons, horigin, List.filter_cons_of_pos (by simp [hclose]), ← ih]
    rfl
  | case3 nested t ts block hrole _ ihbody ihrest =>
    obtain ⟨horigin, hclose⟩ := origin_block hrole (built true ts).1
    -- the tokens that the body leaves are those of the nodes behind the block
    have hrest : origins (built nested (built true ts).2).1 ++
        (built nested (built true ts).2).2.filter (!·.isClose) =
          (built true ts).2.filter (!·.isClose) := ihrest
    rw [built_opens hrole, origins_cons, horigin, List.filter_cons_of_pos (by simp [hclose]),
      ← ihbody, ← hrest, List.cons_append, List.cons_append, List.append_assoc]
  | case4 t ts hrole =>
    rw [built_closes hrole, List.filter_cons_of_neg (by simp [isClose_of_role hrole])]
    rfl
  | case5 nested t ts hrole hnested ih =>
    obtain rfl : nested = false := by simpa using hnested
    rw [built_skips hrole, ih, List.filter_cons_of_neg (by simp [isClose_of_role hrole])]

/-- For all tokens, the builder makes the tree that the stack machine makes, whether or not it
    records a shape on the way. Every token but the closing ones becomes one node, and block before
    body these nodes stand in the order of their tokens. -/
theorem buildTree_eq_assemble (ts : List Token) :
    (∀ shape?, (buildTree ts shape?).1 = assemble ts) ∧ ofTokens ts = assemble ts ∧
      (preorderAll (assemble ts)).map origin = ts.filter (!·.isClose) := by
  have horigins := origins_built false ts
  rw [built_false_rest, List.filter_nil, List.append_nil] at horigins
  refine ⟨fun shape? => ?_, ofTokens_eq_assemble ts, ?_⟩
  · rw [buildTree_eq, ofTokens_eq_assemble]
  · rw [← ofTokens_eq_assemble]
    exact horigins

/-- A closing token outside all blocks, a block closed by another's token, and one left open. -/
example : assemble [.eachClose "x", .sectionOpen "a", .escaped "b", .eachClose "c", .content "d",
    .invertedOpen "e", .unescaped "f"] =
    [.conditional "a" [.value "b" true], .content "d", .inverted "e" [.value "f" false]] := by
  with_unfolding_all rfl

end Node

end Stencil
