import LuaCoverage.Proofs.Lua.Spine

/-!
# The order of a walk

A walk keeps a stack. A traversal that calls itself for the children of a node needs none, and its
definition says at once in which order it comes to the nodes: first to a node, then to what is below
each of its children in turn. Both come to the same nodes in the same order, each as deep, and as a
statement if it is one.

Facts about a walk are proved for every stack, by the recursion of the walk: it takes a visit from
the stack and puts those that follow from it in its place.

Results:
* `Node.map_place_visits`: a walk comes to the places of the traversal.
* `Node.visits_statements`: the statements that it comes to are the children of chunks and blocks.
* `Node.visits_pairwise_start`: in a nested tree it does not go back.
-/

namespace LuaCoverage.Lua

/-- A node where a traversal comes to it: how deep it lies, and whether it is a statement. -/
structure Place where
  node : Node
  depth : Nat
  isStatement : Bool

def Visit.place (v : Visit) : Place := ⟨v.node, v.depth, v.isStatement⟩

namespace Node

mutual
/-- A node, and then the nodes below it: those of its children that a walk goes on to, one after the
other, each with what is below it. -/
def preorder (depth : Nat) (isStatement : Bool) : Node → List Place
  | mk kind role start stop children =>
    ⟨mk kind role start stop children, depth, isStatement⟩
      :: preorderAll (depth + 1) (mk kind role start stop children).holdsStatements children
/-- The nodes of those trees that a walk goes on to, one tree after the other. -/
def preorderAll (depth : Nat) (isStatement : Bool) : List Node → List Place
  | [] => []
  | n :: rest =>
    (if n.isWalked then n.preorder depth isStatement else []) ++ preorderAll depth isStatement rest
end

theorem preorderAll_eq (depth : Nat) (isStatement : Bool) (nodes : List Node) :
    preorderAll depth isStatement nodes
      = (nodes.filter isWalked).flatMap (preorder depth isStatement) := by
  induction nodes with
  | nil => rfl
  | cons n rest ih =>
    rw [preorderAll, ih]
    by_cases hn : n.isWalked = true
    · rw [if_pos hn, List.filter_cons_of_pos hn, List.flatMap_cons]
    · rw [if_neg hn, List.filter_cons_of_neg hn, List.nil_append]

theorem preorder_eq (depth : Nat) (isStatement : Bool) (n : Node) :
    n.preorder depth isStatement = ⟨n, depth, isStatement⟩
      :: n.walkedChildren.flatMap (preorder (depth + 1) n.holdsStatements) := by
  rw [walkedChildren_eq]
  cases n with
  | mk kind role start stop children => rw [preorder, preorderAll_eq]; rfl

end Node

open Visit

/-- A walk comes to the places of the traversals of its stack. -/
theorem map_place_walk (stack : List Visit) :
    (walk stack).map place = stack.flatMap fun v => v.node.preorder v.depth v.isStatement := by
  induction stack using walk.induct with
  | case1 => simp [walk]
  | case2 v rest ih =>
    rw [walk, List.map_cons, ih, List.flatMap_append, List.flatMap_cons, Node.preorder_eq, next,
      List.flatMap_map]
    rfl

/-- A walk comes to the places of the traversal. -/
theorem Node.map_place_visits (root : Node) : root.visits.map place = root.preorder 0 false := by
  rw [visits, map_place_walk]
  simp [ofRoot]

/-! ## Statements -/

theorem filter_isStatement_next (v : Visit) :
    (v.next.filter isStatement).map node
      = if v.node.holdsStatements then v.node.walkedChildren else [] := by
  rw [next, List.filter_map, List.map_map]
  cases hholds : v.node.holdsStatements with
  | false => simp [Function.comp_def]
  | true => simp [Function.comp_def]

/-- The statements that a walk comes to are those on its stack, and the children of the chunks and
blocks that it comes to. -/
theorem walk_statements (stack : List Visit) :
    (((walk stack).filter isStatement).map node).Perm
      ((stack.filter isStatement).map node
        ++ (((walk stack).map node).filter Node.holdsStatements).flatMap Node.walkedChildren) := by
  induction stack using walk.induct with
  | case1 => simp [walk]
  | case2 v rest ih =>
    have hbelow : (((v :: walk (v.next ++ rest)).map node).filter Node.holdsStatements).flatMap
        Node.walkedChildren = (v.next.filter isStatement).map node
          ++ (((walk (v.next ++ rest)).map node).filter Node.holdsStatements).flatMap
            Node.walkedChildren := by
      rw [filter_isStatement_next, List.map_cons, List.filter_cons]
      split
      · rfl
      · rfl
    rw [walk, hbelow]
    rw [List.filter_append, List.map_append, List.append_assoc] at ih
    -- What follows from the visit is put behind the rest of the stack.
    have hperm := ih.trans (List.perm_append_comm_assoc ..)
    by_cases hv : v.isStatement = true
    · rw [List.filter_cons_of_pos hv, List.filter_cons_of_pos hv]
      exact hperm.cons v.node
    · rw [List.filter_cons_of_neg hv, List.filter_cons_of_neg hv]
      exact hperm

/-- The statements that a walk of a tree comes to are the children of chunks and blocks. -/
theorem Node.visits_statements (root : Node) :
    ((root.visits.filter isStatement).map node).Perm
      ((root.reached.filter holdsStatements).flatMap walkedChildren) := by
  rw [← map_node_visits]
  simpa [ofRoot, visits] using walk_statements [ofRoot root]

/-! ## Offsets -/

/-- In a nested tree a walk does not go back. -/
theorem Node.visits_pairwise_start {root : Node} (hn : root.isNested = true) :
    root.visits.Pairwise fun v w => v.node.start ≤ w.node.start := by
  refine (visits_ordered hn).imp_of_mem ?_
  intro v w hv _ hordered
  have hnested := isNested_of_mem_visits hn hv
  rcases hordered with hleads | hbefore
  · exact (hleads.inside hnested).1.1
  · exact Nat.le_trans (start_le_stop hnested) hbefore

end LuaCoverage.Lua
