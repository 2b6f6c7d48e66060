import LuaCoverage.Proofs.Lua.Nested
import Mathlib.Data.List.Perm.Basic

/-!
# Spines of logical expressions

A logical expression whose left operand has the same operator goes on in it, and so on down to one
whose left operand is something else: that is its *spine*. A walk marks the left operand that a
spine goes on in as a link, so it comes to every logical expression as the head of a spine, or as a
link of one.

Of the children of a node, the link is told from the others by its span. That no other child is
taken for it needs what trees of a source have: nodes nest, and operands are not empty and stand in
their order.

Results:
* `Node.map_node_visits`: the nodes that a walk comes to.
* `Node.reached_spines`: the logical expressions among them are those of the spines of the heads.
* `Node.nodup_reached`: none of them is come to twice.
-/

namespace LuaCoverage.Lua

namespace Node

/-- Whether a node is an expression with a logical operator. -/
def isAndOr (n : Node) : Bool := n.logicalOperator?.isSome

/-- Whether the operands of a node are not empty, the left one in front of the right one. -/
def hasOrder (n : Node) : Bool :=
  n.operands?.all fun (left, right) =>
    left.start < left.stop && left.stop ≤ right.start && right.start < right.stop

theorem hasOrder_spec {n left right : Node} (h : n.hasOrder = true)
    (hn : n.operands? = some (left, right)) :
    left.start < left.stop ∧ left.Before right ∧ right.start < right.stop := by
  simp only [hasOrder, hn, Option.all_some, Bool.and_eq_true, decide_eq_true_eq] at h
  exact ⟨h.1.1, h.1.2, h.2⟩

/-- A node whose operands are in order is not empty. -/
theorem start_lt_stop {n left right : Node} (hn : n.isNested = true) (h : n.hasOrder = true)
    (hfound : n.operands? = some (left, right)) : n.start < n.stop := by
  have hleft := (hasOrder_spec h hfound).1
  have hin := (inside_of_mem hn (operands?_fst_mem hfound)).1
  have := hin.1
  have := hin.2
  omega

/-! ## Nodes of a tree -/

mutual
/-- The node and all nodes below it, as far as they are come to through children with a
property. -/
def nodesVia (p : Node → Bool) : Node → List Node
  | mk kind role start stop children =>
    mk kind role start stop children :: nodesViaAll p children
/-- The nodes of those trees whose root has the property. -/
def nodesViaAll (p : Node → Bool) : List Node → List Node
  | [] => []
  | n :: rest => (if p n then n.nodesVia p else []) ++ nodesViaAll p rest
end

/-- Whether a walk goes on to a node. -/
def isWalked (n : Node) : Bool := !n.isSkipped && n.isNamed

def nodes (n : Node) : List Node := n.nodesVia fun _ => true

/-- The nodes of a tree that a walk comes to. -/
def reached (n : Node) : List Node := n.nodesVia isWalked

theorem walkedChildren_eq (n : Node) : n.walkedChildren = n.children.filter isWalked := by
  rw [walkedChildren, namedChildren, List.filter_filter]
  rfl

theorem nodesViaAll_eq (p : Node → Bool) (nodes : List Node) :
    nodesViaAll p nodes = (nodes.filter p).flatMap (nodesVia p) := by
  induction nodes with
  | nil => simp [nodesViaAll]
  | cons n rest ih =>
    by_cases hn : p n = true
    · simp [nodesViaAll, hn, ih]
    · simp [nodesViaAll, hn, ih]

theorem reached_eq (n : Node) : n.reached = n :: n.walkedChildren.flatMap reached := by
  rw [walkedChildren_eq]
  cases n with
  | mk kind role start stop children => rw [reached, nodesVia, nodesViaAll_eq]; rfl

theorem map_node_walk (stack : List Visit) :
    (walk stack).map Visit.node = stack.flatMap fun v => v.node.reached := by
  induction stack using walk.induct with
  | case1 => simp [walk]
  | case2 v rest ih =>
    rw [walk, List.map_cons, ih, List.flatMap_append, List.flatMap_cons, reached_eq v.node,
      Visit.next, List.flatMap_map]
    rfl

/-- The nodes that a walk comes to. -/
theorem map_node_visits (root : Node) : root.visits.map Visit.node = root.reached := by
  rw [visits, map_node_walk]
  simp [Visit.ofRoot]

theorem isNested_of_mem_reached {root n : Node} (hn : root.isNested = true)
    (h : n ∈ root.reached) : n.isNested = true := by
  rw [← map_node_visits] at h
  obtain ⟨v, hv, rfl⟩ := List.mem_map.1 h
  exact isNested_of_mem_visits hn hv

/-! ## Spines -/

theorem chainLink?_cases {n link : Node} (h : n.chainLink? = some link) :
    ∃ operator right, n.logicalOperator? = some operator ∧ n.operands? = some (link, right)
      ∧ link.logicalOperator? = some operator := by
  simp only [chainLink?, Option.bind_eq_bind, Option.bind_eq_some_iff] at h
  obtain ⟨operator, hop, ⟨left, right⟩, hn, h⟩ := h
  split at h
  · next hlogical =>
    cases h
    exact ⟨operator, right, hop, hn, beq_iff_eq.1 hlogical⟩
  · cases h

/-- The expressions that the spine of a node goes on in. -/
def inner (n : Node) : List Node :=
  match _h : n.chainLink? with
  | none => []
  | some link => link :: link.inner
termination_by n.size
decreasing_by
  obtain ⟨_, _, _, hn, _⟩ := chainLink?_cases _h
  exact size_lt_of_mem (operands?_fst_mem hn)

theorem inner_of_none {n : Node} (h : n.chainLink? = none) : n.inner = [] := by
  rw [inner]
  split
  · rfl
  · next hsome => rw [h] at hsome; cases hsome

theorem inner_of_some {n link : Node} (h : n.chainLink? = some link) :
    n.inner = link :: link.inner := by
  rw [inner]
  split
  · next hnone => rw [h] at hnone; cases hnone
  · next other hsome =>
    rw [h] at hsome
    cases hsome
    rfl

/-- A logical expression and those that its spine goes on in. -/
def spine (n : Node) : List Node := n :: n.inner

theorem isWalked_of_kind {n : Node} (h : n.kind = .binaryExpression) : n.isWalked = true := by
  simp [isWalked, isSkipped, isNamed, h]

end Node

namespace Visit

/-- Whether a visit is of the head of a spine. -/
def isHead (v : Visit) : Bool := v.node.isAndOr && !v.isLink

/-- What a visit of a link continues: a spine whose head is further up. -/
def continued (v : Visit) : List Node :=
  if v.node.isAndOr && v.isLink then v.node.spine else []

variable {v : Visit}

/-- A node apart from a link that is not empty is not taken for it. -/
theorem continued_of_apart {child link : Node} {depth : Nat} {statement : Bool}
    (hlink : link.start < link.stop) (h : child.Apart link) :
    continued ⟨child, depth, statement, (some link).any child.isSameSpan⟩ = [] := by
  have hspan : child.isSameSpan link = false := by
    simp only [Node.isSameSpan, Bool.and_eq_false_iff, beq_eq_false_iff_ne]
    rcases h with h | h <;> unfold Node.Before at h <;> omega
  simp [continued, hspan]

/-- Of the visits that follow, that of the link continues the spine, and no other one. -/
theorem continued_next (hn : v.node.isNested = true)
    (ho : v.node.isAndOr = true → v.node.hasOrder = true) :
    v.next.flatMap continued = v.node.inner := by
  cases hlink : v.node.chainLink? with
  | none =>
    rw [Node.inner_of_none hlink, List.flatMap_eq_nil_iff]
    intro w hw
    obtain ⟨child, _, rfl⟩ := mem_next.1 hw
    simp [continued, hlink]
  | some link =>
    obtain ⟨operator, right, hop, hoperands, hlogical⟩ := Node.chainLink?_cases hlink
    have hfull := (Node.hasOrder_spec (ho (by simp [Node.isAndOr, hop])) hoperands).1
    have hwalked : link ∈ v.node.walkedChildren := by
      rw [Node.walkedChildren_eq]
      exact List.mem_filter.2 ⟨Node.operands?_fst_mem hoperands,
        Node.isWalked_of_kind (Node.kind_of_logicalOperator? hlogical)⟩
    have hpair := (Node.children_pairwise hn).sublist v.node.walkedChildren_sublist
    obtain ⟨front, back, hsplit⟩ := List.append_of_mem hwalked
    rw [hsplit, List.pairwise_append, List.pairwise_cons] at hpair
    obtain ⟨-, ⟨hback, -⟩, hfront⟩ := hpair
    rw [next, List.flatMap_map, hsplit, List.flatMap_append, List.flatMap_cons, hlink,
      Node.inner_of_some hlink]
    have hfrontnil : front.flatMap (fun child => continued ⟨child, v.depth + 1,
        v.node.holdsStatements, (some link).any child.isSameSpan⟩) = [] := by
      rw [List.flatMap_eq_nil_iff]
      intro child hc
      exact continued_of_apart hfull (.inl (hfront child hc link (by simp)))
    have hbacknil : back.flatMap (fun child => continued ⟨child, v.depth + 1,
        v.node.holdsStatements, (some link).any child.isSameSpan⟩) = [] := by
      rw [List.flatMap_eq_nil_iff]
      intro child hc
      exact continued_of_apart hfull (.inr (hback child hc))
    have hself : continued ⟨link, v.depth + 1, v.node.holdsStatements,
        (some link).any link.isSameSpan⟩ = link.spine := by
      simp [continued, Node.isAndOr, hlogical, Node.isSameSpan]
    rw [hfrontnil, hbacknil, hself, List.nil_append, List.append_nil, Node.spine]

end Visit

open Visit

/-- The logical expressions that a walk comes to are those of the spines that the stack continues,
and those of the spines of the heads. -/
theorem walk_spines {stack : List Visit} (hn : ∀ v ∈ stack, v.node.isNested = true)
    (ho : ∀ v ∈ walk stack, v.node.isAndOr = true → v.node.hasOrder = true) :
    (((walk stack).map Visit.node).filter Node.isAndOr).Perm
      (stack.flatMap continued ++ ((walk stack).filter isHead).flatMap fun v => v.node.spine) := by
  induction stack using walk.induct with
  | case1 => simp [walk]
  | case2 v rest ih =>
    obtain ⟨hv, hrest⟩ := List.forall_mem_cons.1 hn
    rw [walk] at ho
    obtain ⟨hov, ho⟩ := List.forall_mem_cons.1 ho
    have hperm := ih (isNested_next_append hv hrest) ho
    rw [List.flatMap_append, continued_next hv hov] at hperm
    rw [walk, List.map_cons, List.flatMap_cons]
    by_cases handor : v.node.isAndOr = true
    · rw [List.filter_cons_of_pos handor]
      by_cases hlink : v.isLink = true
      · have hcontinued : continued v = v.node.spine := by simp [continued, handor, hlink]
        have hhead : isHead v = false := by simp [isHead, hlink]
        rw [hcontinued, List.filter_cons_of_neg (by simp [hhead])]
        simpa [Node.spine] using hperm
      · have hcontinued : continued v = [] := by simp [continued, hlink]
        have hhead : isHead v = true := by simp [isHead, handor, hlink]
        rw [hcontinued, List.filter_cons_of_pos hhead, List.flatMap_cons, List.nil_append,
          Node.spine]
        -- The spine of a head is put behind those that the rest of the stack continues.
        rw [List.append_assoc] at hperm
        exact (hperm.cons v.node).trans (List.perm_append_comm_assoc (v.node :: v.node.inner) ..)
    · have hnone : v.node.chainLink? = none := by
        simp only [Node.isAndOr, Bool.not_eq_true, Option.isSome_eq_false_iff,
          Option.isNone_iff_eq_none] at handor
        simp [Node.chainLink?, handor]
      have hcontinued : continued v = [] := by simp [continued, handor]
      have hhead : isHead v = false := by simp [isHead, handor]
      rw [List.filter_cons_of_neg handor, List.filter_cons_of_neg (by simp [hhead]), hcontinued,
        List.nil_append]
      rwa [Node.inner_of_none hnone, List.nil_append] at hperm

/-- The logical expressions that a walk of a tree comes to are those of the spines of the heads. -/
theorem Node.reached_spines {root : Node} (hn : root.isNested = true)
    (ho : ∀ n ∈ root.reached, n.isAndOr = true → n.hasOrder = true) :
    (root.reached.filter Node.isAndOr).Perm
      ((root.visits.filter isHead).flatMap fun v => v.node.spine) := by
  rw [← map_node_visits] at ho ⊢
  rw [List.forall_mem_map] at ho
  have hstack : ∀ v ∈ [ofRoot root], v.node.isNested = true := by simpa [ofRoot] using hn
  have hperm := walk_spines hstack ho
  simpa [continued, ofRoot, visits] using hperm

theorem Visit.Leads.size_lt {v w : Visit} (h : v.Leads w) : w.node.size < v.node.size := by
  induction h with
  | single h => exact Node.size_lt_of_mem (node_mem_of_mem_next h)
  | tail _ hstep ih => exact Nat.lt_trans (Node.size_lt_of_mem (node_mem_of_mem_next hstep)) ih

/-- A walk of a tree comes to no logical expression twice. -/
theorem Node.nodup_reached {root : Node} (hn : root.isNested = true)
    (hfull : ∀ n ∈ root.reached, n.isAndOr = true → n.start < n.stop) :
    (root.reached.filter Node.isAndOr).Nodup := by
  rw [← map_node_visits] at hfull ⊢
  rw [List.filter_map, List.Nodup, List.pairwise_map]
  refine ((Node.visits_ordered hn).sublist List.filter_sublist).imp_of_mem ?_
  intro v w hv _ hordered
  rw [List.mem_filter] at hv
  have hspan := hfull v.node (List.mem_map_of_mem hv.1) hv.2
  intro heq
  rcases hordered with hleads | hbefore
  · have hsize := hleads.size_lt
    rw [heq] at hsize
    exact Nat.lt_irrefl _ hsize
  · rw [← heq] at hbefore
    exact absurd hbefore (Nat.not_le.2 hspan)

end LuaCoverage.Lua
