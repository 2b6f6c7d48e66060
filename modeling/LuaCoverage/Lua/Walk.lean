import LuaCoverage.Lua.Node

/-!
# Walking a syntax tree

A tree is walked in source order, each node before its children. The walk keeps its own stack, so
that the nesting of the tree does not limit it. Comments, empty statements, labels and type
definitions are passed over with all they hold.

`a or b or c` groups to the left, as `(a or b) or c`; such a run of one logical operator is a
*chain*. Its outermost expression is its head, and the inner ones are marked as links of it.

Results:
* `Node.operands?_fst_mem`: the left operand of an expression is one of its children.
* `Visit.weight_next_lt`: what is pushed for a node weighs less than the node.
-/

namespace LuaCoverage.Lua

namespace Node

/-- Whether a node is passed over by the walk. -/
def isSkipped (n : Node) : Bool :=
  match n.kind with
  | .comment | .hashBangLine | .emptyStatement | .labelStatement | .typeDefinition => true
  | _ => false

/-- Whether the children of a node are statements. -/
def holdsStatements (n : Node) : Bool := n.kind == .chunk || n.kind == .block

/-- The children that the walk goes on to. -/
def walkedChildren (n : Node) : List Node := n.namedChildren.filter fun child => !child.isSkipped

/-- Whether two siblings are the same one. -/
def isSameSpan (a b : Node) : Bool := a.start == b.start && a.stop == b.stop

def operands? (n : Node) : Option (Node × Node) := do
  let named := n.namedChildren.filter fun child => child.kind != .comment
  let left ← (n.childInRole? .left).or named.head?
  let right ← (n.childInRole? .right).or named.getLast?
  if left.isSameSpan right then none else some (left, right)

/-- The logical operator of an expression that has one. -/
def logicalOperator? (n : Node) : Option String :=
  if n.kind == .binaryExpression then n.operator?.filter ["and", "or"].contains else none

/-- Whether a node is an expression with a given logical operator. -/
def isLogical (operator : String) (n : Node) : Bool := n.logicalOperator? == some operator

/-- The left operand of a logical expression, if it has the same operator. -/
def chainLink? (n : Node) : Option Node := do
  let operator ← n.logicalOperator?
  let (left, _) ← n.operands?
  if left.isLogical operator then some left else none

theorem mem_of_childInRole? {n child : Node} {role : Role}
    (h : n.childInRole? role = some child) : child ∈ n.children := List.mem_of_find?_eq_some h

theorem operands?_fst_mem {n left right : Node} (h : n.operands? = some (left, right)) :
    left ∈ n.children := by
  simp only [operands?, Option.bind_eq_bind, Option.bind_eq_some_iff] at h
  obtain ⟨l, hl, r, _, h⟩ := h
  split at h
  · simp at h
  · simp only [Option.some.injEq, Prod.mk.injEq] at h
    obtain ⟨rfl, _⟩ := h
    rcases Option.or_eq_some_iff.1 hl with hl | ⟨_, hl⟩
    · exact mem_of_childInRole? hl
    · have := List.mem_of_mem_head? hl
      simp only [namedChildren, List.mem_filter] at this
      exact this.1.1

end Node

/-- A node that the walk comes to: how deep it lies, whether it is a statement, and whether it is
an inner link of a chain. -/
structure Visit where
  node : Node
  depth : Nat
  isStatement : Bool
  isLink : Bool

namespace Visit

def ofRoot (root : Node) : Visit := ⟨root, 0, false, false⟩

/-- The visits that follow from a visit. -/
def next (v : Visit) : List Visit :=
  let link := v.node.chainLink?
  v.node.walkedChildren.map fun child =>
    ⟨child, v.depth + 1, v.node.holdsStatements, link.any child.isSameSpan⟩

/-- The number of nodes below the visits of a stack. -/
def weight : List Visit → Nat
  | [] => 0
  | v :: rest => v.node.size + weight rest

@[simp] theorem weight_append (a b : List Visit) : weight (a ++ b) = weight a + weight b := by
  induction a with
  | nil => simp [weight]
  | cons v rest ih => simp [weight, ih, Nat.add_assoc]

theorem weight_map {f : Node → Visit} (hf : ∀ n, (f n).node = n) (nodes : List Node) :
    weight (nodes.map f) = Node.sizeAll nodes := by
  induction nodes with
  | nil => rfl
  | cons n rest ih => simp [weight, Node.sizeAll, ih, hf]

theorem sizeAll_filter_le (p : Node → Bool) (nodes : List Node) :
    Node.sizeAll (nodes.filter p) ≤ Node.sizeAll nodes := by
  induction nodes with
  | nil => simp
  | cons n rest ih =>
    simp only [List.filter_cons]
    split <;> simp only [Node.sizeAll] <;> omega

theorem weight_next_lt (v : Visit) : weight v.next < v.node.size := by
  have h : weight v.next = Node.sizeAll v.node.walkedChildren := weight_map (fun _ => rfl) _
  rw [h]
  have h1 := sizeAll_filter_le (fun child => !child.isSkipped) v.node.namedChildren
  have h2 := sizeAll_filter_le Node.isNamed v.node.children
  unfold Node.walkedChildren
  unfold Node.namedChildren at *
  generalize v.node = n at *
  cases n with
  | mk kind role start stop children =>
    simp only [Node.children, Node.size] at *
    omega

end Visit

/-- The visits of all nodes on a stack and below. -/
def walk : List Visit → List Visit
  | [] => []
  | v :: rest => v :: walk (v.next ++ rest)
termination_by stack => Visit.weight stack
decreasing_by
  have := Visit.weight_next_lt v
  simp only [Visit.weight_append, Visit.weight]
  omega

def Node.visits (root : Node) : List Visit := walk [Visit.ofRoot root]

end LuaCoverage.Lua
