import Stencil.Proofs.Forest
/-
  Rendering without an arena. A context is a `Chain`: the keys and values from it up to the root,
  and nothing else. `Chain.nodes` renders a tree against chains and so says what a rendering
  means; that the renderer over an arena does the same is proved in `Refinement`. What holds of
  every part of a rendering and is kept from part to part holds of the whole (`nodes_closed`).
-/

namespace Stencil

/-! ## Outcomes -/

/-- All that has been written, and the error that it ended in, if it did. -/
structure Outcome where
  output : String
  error : Option Error
deriving DecidableEq, Repr

/-- What two parts leave together: the second one's outcome follows the first one's output, unless
    that ended in an error. -/
def Outcome.followedBy (o next : Outcome) : Outcome :=
  match o with
  | ⟨out, none⟩ => ⟨out ++ next.output, next.error⟩
  | ⟨out, some e⟩ => ⟨out, some e⟩

/-- What a rendering leaves that begins with no output. -/
def Template.outcome (t : Template) (model : Value) : Outcome :=
  ⟨(t.renderOnto model "").output, (t.renderOnto model "").error⟩

/-- A part of a rendering that needs no arena: what has been written before it, and then its
    outcome. -/
def Writer := String → Outcome

namespace Writer

def skip : Writer := fun out => ⟨out, none⟩

def fail (e : Error) : Writer := fun out => ⟨out, some e⟩

def write (text : String) : Writer := fun out => ⟨out ++ text, none⟩

/-- The second part follows if the first one ends without error. -/
def andThen (a b : Writer) : Writer := fun out =>
  match a out with
  | ⟨out, none⟩ => b out
  | ⟨out, some e⟩ => ⟨out, some e⟩

theorem skip_andThen (a : Writer) : skip.andThen a = a := rfl

theorem andThen_skip (a : Writer) : a.andThen skip = a := by
  funext out
  simp only [andThen]
  match a out with
  | ⟨out, none⟩ => rfl
  | ⟨out, some e⟩ => rfl

theorem andThen_assoc (a b c : Writer) : (a.andThen b).andThen c = a.andThen (b.andThen c) := by
  funext out
  simp only [andThen]
  match a out with
  | ⟨out, none⟩ => rfl
  | ⟨out, some e⟩ => rfl

theorem write_andThen_write (s t : String) : (write s).andThen (write t) = write (s ++ t) := by
  funext out
  simp only [andThen, write, String.append_assoc]

/-- The part appends the same text whatever was written before it, and does nothing else. -/
def Appends (w : Writer) : Prop := ∀ out, w out = ⟨out ++ (w "").output, (w "").error⟩

/-- Parts that append leave together what they leave one by one. -/
theorem Appends.andThen_eq {a b : Writer} (hb : b.Appends) (out : String) :
    a.andThen b out = (a out).followedBy (b "") := by
  simp only [andThen]
  match a out with
  | ⟨mid, none⟩ => exact hb mid
  | ⟨mid, some e⟩ => rfl

/-- A property of parts that is kept when one part follows another. -/
structure Closed (P : Writer → Prop) : Prop where
  skip : P skip
  fail : ∀ e, P (fail e)
  andThen : ∀ {a b}, P a → P b → P (a.andThen b)

theorem closed_appends : Closed Appends where
  skip _ := by simp [Writer.skip]
  fail _ _ := by simp [Writer.fail]
  andThen {a b} ha hb out := by
    rw [hb.andThen_eq, hb.andThen_eq, ha out]
    match a "" with
    | ⟨mid, none⟩ => simp [Outcome.followedBy, String.append_assoc]
    | ⟨mid, some e⟩ => rfl

theorem appends_write (text : String) : (write text).Appends := fun _ => by simp [write]

end Writer

/-! ## Contexts -/

/-- A null value counts as absent. -/
def Value.nonNull? : Option Value → Option Value
  | some .null => none
  | value? => value?

theorem Value.filter_isNull (value? : Option Value) :
    value?.filter (!·.isNull) = nonNull? value? := by
  cases value? with
  | none => rfl
  | some v => cases v <;> rfl

/-- A context: its key and its value, then those of the contexts above it up to the root. -/
structure Chain where
  key : String
  value? : Option Value
  above : List (String × Option Value)

namespace Chain

def root (model : Value) : Chain := ⟨"", Value.nonNull? (some model), []⟩

/-- A context reached from this one. -/
def below (c : Chain) (key : String) (value? : Option Value) : Chain :=
  ⟨key, Value.nonNull? value?, (c.key, c.value?) :: c.above⟩

/-- The context that this one was reached from; the root was reached from none. -/
def parent? (c : Chain) : Option Chain :=
  match c.above with
  | [] => none
  | (key, value?) :: above => some ⟨key, value?, above⟩

def step (c : Chain) : Path.Step → Chain
  | .parent => c.parent?.getD c
  | .key name => c.below name (c.value?.bind (·.get? name))

def resolve (c : Chain) (path : String) : Chain := (Path.steps path).foldl step c

/-- Whether there is a value and it is truthy. -/
def holds (c : Chain) : Bool := c.value?.any (·.truthy)

/-- The context of an element of a collection. -/
def element (c : Chain) (index : Nat) (item : Value) : Chain :=
  c.below ("[" ++ toString index ++ "]") (some item)

/-! ## Rendering -/

/-- The context with a number among the tag's own and those obtained since; a number not given
    yet means the tag's own. -/
def slot (own : Chain) (obtained : List Chain) (n : Nat) : Chain :=
  (own :: obtained)[n]?.getD own

/-- Carries out what a custom tag does. -/
def inspect (own : Chain) (obtained : List Chain) : Inspection → Writer
  | .finish => .skip
  | .fail e => .fail e
  | .write text next => (Writer.write text).andThen (inspect own obtained next)
  | .output next => fun out => inspect own obtained (next out) out
  | .replace text next => fun _ => inspect own obtained next text
  | .resolve n path next => inspect own (obtained ++ [(slot own obtained n).resolve path]) next
  | .parent n next =>
    match (slot own obtained n).parent? with
    | some parent => inspect own (obtained ++ [parent]) (next true)
    | none => inspect own (obtained ++ [slot own obtained n]) (next false)
  | .look n next =>
    inspect own obtained (next (slot own obtained n).key (slot own obtained n).value?)

/-- Renders once for every element, in a context below that of the collection. -/
def elements (c : Chain) (each : Chain → Writer) : (index : Nat) → List Value → Writer
  | _, [] => .skip
  | index, item :: items =>
    (each (c.element index item)).andThen (elements c each (index + 1) items)

/-- Renders once for every item of a sequence or value of a map. Nothing else can be looped over. -/
def loop (c : Chain) (path : String) (each : Chain → Writer) : Value → Writer
  | .seq items => elements c each 0 items
  | .map entries => elements c each 0 (entries.map (·.2))
  | v => .fail (.scalarUsedAsCollection path (some v.kind))

mutual

/-- Renders a node in a context. -/
def node (settings : Settings) : Node → Chain → Writer
  | .content text, _ => .write text
  | .value path escaped, c =>
    match (c.resolve path).value? with
    | none => .skip
    | some v => .write (Action.valueText settings escaped v)
  | .conditional path body, c =>
    if (c.resolve path).holds then nodes settings body (c.resolve path) else .skip
  | .inverted path body, c =>
    if (c.resolve path).holds then .skip else nodes settings body (c.resolve path)
  | .each path body, c =>
    match (c.resolve path).value? with
    | none => .skip
    | some v => if v.truthy then loop (c.resolve path) path (nodes settings body) v else .skip
  | .custom path expander, c => inspect c [] (expander.render path settings)

/-- Renders nodes one after the other, up to the first error. -/
def nodes (settings : Settings) : List Node → Chain → Writer
  | [], _ => .skip
  | n :: ns, c => (node settings n c).andThen (nodes settings ns c)

end

/-- Elements are rendered alike below two contexts if each of them is. -/
theorem elements_congr {c d : Chain} {each each' : Chain → Writer}
    (h : ∀ index item, each (c.element index item) = each' (d.element index item)) (index : Nat)
    (items : List Value) : c.elements each index items = d.elements each' index items := by
  induction items generalizing index with
  | nil => rfl
  | cons item items ih => rw [elements, elements, h, ih]

theorem loop_congr {c d : Chain} {each each' : Chain → Writer}
    (h : ∀ index item, each (c.element index item) = each' (d.element index item)) (path : String)
    (v : Value) : c.loop path each v = d.loop path each' v := by
  cases v with
  | seq items => exact elements_congr h 0 items
  | map entries => exact elements_congr h 0 (entries.map (·.2))
  | _ => rfl

theorem nodes_append (settings : Settings) (ms ns : List Node) (c : Chain) :
    nodes settings (ms ++ ns) c = (nodes settings ms c).andThen (nodes settings ns c) := by
  induction ms with
  | nil => rw [nodes, Writer.skip_andThen, List.nil_append]
  | cons m ms ih => rw [List.cons_append, nodes, nodes, ih, Writer.andThen_assoc]

theorem nodes_singleton (settings : Settings) (n : Node) (c : Chain) :
    nodes settings [n] c = node settings n c := by
  rw [nodes, nodes, Writer.andThen_skip]

end Chain

/-! ## What holds of every part -/

/-- Everything that is written for the token, whatever the model, has a property. -/
def Token.Writes (settings : Settings) (P : Writer → Prop) : Token → Prop
  | .content text => P (.write text)
  | .escaped _ => ∀ v, P (.write (Action.valueText settings true v))
  | .unescaped _ => ∀ v, P (.write (Action.valueText settings false v))
  | .custom path expander => ∀ c, P (Chain.inspect c [] (expander.render path settings))
  | _ => True

namespace Chain

variable {settings : Settings} {P : Writer → Prop}

theorem elements_closed (hP : Writer.Closed P) {each : Chain → Writer} (heach : ∀ c, P (each c))
    (c : Chain) (index : Nat) (items : List Value) : P (c.elements each index items) := by
  induction items generalizing index with
  | nil => exact hP.skip
  | cons item items ih => exact hP.andThen (heach _) (ih (index + 1))

theorem loop_closed (hP : Writer.Closed P) {each : Chain → Writer} (heach : ∀ c, P (each c))
    (c : Chain) (path : String) (v : Value) : P (c.loop path each v) := by
  cases v with
  | seq items => exact elements_closed hP heach c 0 items
  | map entries => exact elements_closed hP heach c 0 (entries.map (·.2))
  | _ => exact hP.fail _

mutual

theorem node_closed (hP : Writer.Closed P) (n : Node)
    (h : ∀ t ∈ n.tokens, t.Writes settings P) (c : Chain) : P (node settings n c) := by
  match n with
  | .content text =>
    rw [node]
    exact h (.content text) (by simp [Node.tokens])
  | .value path escaped =>
    have hwrite : ∀ v, P (.write (Action.valueText settings escaped v)) := by
      cases escaped
      · exact h (.unescaped path) (by simp [Node.tokens])
      · exact h (.escaped path) (by simp [Node.tokens])
    rw [node]
    split
    · exact hP.skip
    · exact hwrite _
  | .conditional path body =>
    have hbody := nodes_closed hP body fun t ht => h t (by simp [Node.tokens, ht])
    rw [node]
    split
    · exact hbody _
    · exact hP.skip
  | .inverted path body =>
    have hbody := nodes_closed hP body fun t ht => h t (by simp [Node.tokens, ht])
    rw [node]
    split
    · exact hP.skip
    · exact hbody _
  | .each path body =>
    have hbody := nodes_closed hP body fun t ht => h t (by simp [Node.tokens, ht])
    rw [node]
    split
    · exact hP.skip
    · split
      · exact loop_closed hP hbody _ path _
      · exact hP.skip
  | .custom path expander =>
    rw [node]
    exact h (.custom path expander) (by simp [Node.tokens]) c

/-- What holds of all that a tree's tokens write, and is kept when one part follows another, holds
    of the rendering of the tree. -/
theorem nodes_closed (hP : Writer.Closed P) (ns : List Node)
    (h : ∀ t ∈ Node.tokensAll ns, t.Writes settings P) (c : Chain) : P (nodes settings ns c) := by
  match ns with
  | [] => exact hP.skip
  | n :: ns =>
    have hn := node_closed hP n (fun t ht => h t (by simp [Node.tokensAll, ht])) c
    have hns := nodes_closed hP ns (fun t ht => h t (by simp [Node.tokensAll, ht])) c
    rw [nodes]
    exact hP.andThen hn hns

end

end Chain

end Stencil
