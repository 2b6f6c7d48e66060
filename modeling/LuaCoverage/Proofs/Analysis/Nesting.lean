import LuaCoverage.Proofs.Analysis.Branching
import LuaCoverage.Proofs.Lua.Nested

/-!
# Operands nest

The nodes that a branch wraps lie inside the node of its visit and apart from each other. A visit
that leads to another branch leads to it inside one of these nodes, or apart from them all: the
links of a chain, which hold several operands, find no branch themselves, and neither do the
clauses of an `if` expression.

Results:
* `Branching.spread`: what a branch wraps is spread over the node of its visit.
-/

namespace LuaCoverage
open LuaCoverage.Lua

namespace Lua.Node

theorem operands?_snd_mem {n left right : Node} (h : n.operands? = some (left, right)) :
    right ∈ n.children := by
  simp only [operands?, Option.bind_eq_bind, Option.bind_eq_some_iff] at h
  obtain ⟨l, _, r, hr, h⟩ := h
  split at h
  · simp at h
  · simp only [Option.some.injEq, Prod.mk.injEq] at h
    obtain ⟨_, rfl⟩ := h
    rcases Option.or_eq_some_iff.1 hr with hr | ⟨_, hr⟩
    · exact mem_of_childInRole? hr
    · have := List.mem_of_mem_getLast? hr
      simp only [namedChildren, List.mem_filter] at this
      exact this.1.1

theorem operands?_ne {n left right : Node} (h : n.operands? = some (left, right)) :
    left ≠ right := by
  simp only [operands?, Option.bind_eq_bind, Option.bind_eq_some_iff] at h
  obtain ⟨l, _, r, _, h⟩ := h
  split at h
  · simp at h
  · next hspan =>
    simp only [Option.some.injEq, Prod.mk.injEq] at h
    obtain ⟨rfl, rfl⟩ := h
    rintro rfl
    simp [isSameSpan] at hspan

/-- The left operand of a chain, if it goes on with the chain, is marked as a link. -/
theorem chainLink?_eq {n left right : Node} {operator : String}
    (hop : n.logicalOperator? = some operator) (h : n.operands? = some (left, right))
    (hleft : left.isLogical operator = true) : n.chainLink? = some left := by
  simp [chainLink?, hop, h, hleft]

end Lua.Node

namespace Analysis
variable {ctx : Context} {v w : Visit}

/-- The nodes that the branch of a visit wraps. -/
def wrappedBy (ctx : Context) (v : Visit) : List Node :=
  match v.node.kind with
  | .ifExpression => ifValues v.node
  | .whileStatement => (condition? "while" v.node).toList
  | .repeatStatement => (condition? "until" v.node).toList
  | .binaryExpression =>
    if v.isLink then []
    else
      match v.node.logicalOperator? with
      | some operator => (chainOperands ctx operator v.node).toOption.getD []
      | none => []
  | _ => []

/-- Whether a visit may find a branch that wraps nodes: it is neither of a link of a chain nor of a
clause of an `if` expression. -/
structure MayWrap (v : Visit) : Prop where
  head : v.node.kind = .binaryExpression → v.isLink = false
  notElseif : v.node.kind ≠ .elseifClause
  notElse : v.node.kind ≠ .elseClause

/-- Nodes are spread over the node of a visit. -/
structure Spread (v : Visit) (nodes : List Node) : Prop where
  inside : ∀ x ∈ nodes, x.Inside v.node
  apart : nodes.Pairwise Node.Apart
  clear : ∀ w, v.Leads w → MayWrap w → ∀ x ∈ nodes, w.node.Inside x ∨ w.node.Apart x

theorem Branching.mayWrap {type : String} {form : Form} (h : Branching ctx v type form) :
    MayWrap v := by
  cases h with
  | ifStatement kind _ => constructor <;> simp [kind]
  | chain kind head _ _ => constructor <;> simp [kind, head]
  | ifExpression kind _ => constructor <;> simp [kind]
  | whileStatement kind _ => constructor <;> simp [kind]
  | repeatStatement kind _ => constructor <;> simp [kind]

theorem Branching.wrapped_eq {type : String} {form : Form} (h : Branching ctx v type form) :
    form.wrapped = wrappedBy ctx v := by
  cases h with
  | ifStatement kind _ => simp [Form.wrapped, wrappedBy, kind]
  | chain kind head logical found =>
    simp [Form.wrapped, wrappedBy, kind, head, logical, found, Except.toOption]
  | ifExpression kind _ => simp [Form.wrapped, wrappedBy, kind]
  | whileStatement kind found => simp [Form.wrapped, wrappedBy, kind, found]
  | repeatStatement kind found => simp [Form.wrapped, wrappedBy, kind, found]

/-- A visit leads to other nodes inside a child, or apart from it. -/
theorem clear_of_child (hv : v.node.isNested = true) {x : Node} (hx : x ∈ v.node.children)
    (h : v.Leads w) : w.node.Inside x ∨ w.node.Apart x := by
  obtain ⟨u, hu, huw⟩ := h.cases
  have hun := (Visit.inside_of_mem_next hv hu).2.1
  have hin : w.node.Inside u.node := by
    rcases huw with rfl | huw
    · exact .refl _
    · exact (huw.inside hun).1
  rcases Node.eq_or_apart hv (Visit.node_mem_of_mem_next hu) hx with rfl | hapart
  · exact .inl hin
  · exact .inr (hapart.mono hin (.refl _))

/-! ## Conditions -/

theorem condition?_mem {keyword : String} {n condition : Node}
    (h : condition? keyword n = some condition) : condition ∈ n.children := by
  rcases Option.or_eq_some_iff.1 h with h | ⟨_, h⟩
  · exact Node.mem_of_childInRole? h
  · exact (List.dropWhile_sublist _).subset (List.mem_of_find?_eq_some h)

theorem spread_condition (hv : v.node.isNested = true) {condition : Node}
    (hc : condition ∈ v.node.children) : Spread v [condition] where
  inside := by simpa using (Node.inside_of_mem hv hc).1
  apart := List.pairwise_singleton ..
  clear w hw _ x hx := by
    obtain rfl := List.mem_singleton.1 hx
    exact clear_of_child hv hc hw

/-! ## Values of an `if` expression -/

/-- The nodes among which the values of an `if` expression are found: its children, with those of
a clause in its place. -/
def items (n : Node) : List Node :=
  n.children.flatMap fun child =>
    match child.kind with
    | .elseifClause | .elseClause => child.children
    | _ => [child]

theorem valuesIn_sublist (expected : Bool) (nodes : List Node) :
    (valuesIn expected nodes).Sublist nodes := by
  induction nodes generalizing expected with
  | nil => exact .slnil
  | cons n rest ih =>
    simp only [valuesIn]
    split
    · exact (ih _).cons n
    · exact (ih _).cons n
    · split
      · exact (ih _).cons_cons n
      · exact (ih _).cons n

theorem ifValues_sublist (n : Node) : (ifValues n).Sublist (items n) := valuesIn_sublist ..

theorem item_inside {child x : Node} (hc : child.isNested = true)
    (hx : x ∈ match child.kind with
      | .elseifClause | .elseClause => child.children
      | _ => [child]) : x.Inside child := by
  split at hx
  · exact (Node.inside_of_mem hc hx).1
  · exact (Node.inside_of_mem hc hx).1
  · obtain rfl := List.mem_singleton.1 hx
    exact .refl _

theorem items_inside {n x : Node} (hn : n.isNested = true) (hx : x ∈ items n) : x.Inside n := by
  obtain ⟨child, hc, hx⟩ := List.mem_flatMap.1 hx
  obtain ⟨hin, hcn⟩ := Node.inside_of_mem hn hc
  exact (item_inside hcn hx).trans hin

theorem items_pairwise {n : Node} (hn : n.isNested = true) :
    (items n).Pairwise Node.Before := by
  refine List.pairwise_flatMap.2 ⟨?_, ?_⟩
  · intro child hc
    have hcn := (Node.inside_of_mem hn hc).2
    split
    · exact Node.children_pairwise hcn
    · exact Node.children_pairwise hcn
    · exact List.pairwise_singleton ..
  · refine (Node.children_pairwise hn).imp_of_mem ?_
    intro a b ha hb hab x hx y hy
    exact hab.mono (item_inside (Node.inside_of_mem hn ha).2 hx)
      (item_inside (Node.inside_of_mem hn hb).2 hy)

/-- What may wrap nodes lies inside an item. -/
theorem exists_item (hv : v.node.isNested = true) (h : v.Leads w) (hw : MayWrap w) :
    ∃ y ∈ items v.node, w.node.Inside y := by
  obtain ⟨u, hu, huw⟩ := h.cases
  have hmem := Visit.node_mem_of_mem_next hu
  have hun := (Visit.inside_of_mem_next hv hu).2.1
  by_cases hclause : u.node.kind = .elseifClause ∨ u.node.kind = .elseClause
  · -- A clause may wrap nothing, so the visit comes from one of its children.
    rcases huw with rfl | huw
    · rcases hclause with hk | hk
      · exact absurd hk hw.notElseif
      · exact absurd hk hw.notElse
    · obtain ⟨t, ht, htw⟩ := huw.cases
      have htn := (Visit.inside_of_mem_next hun ht).2.1
      refine ⟨t.node, List.mem_flatMap.2 ⟨u.node, hmem, ?_⟩, ?_⟩
      · have htmem := Visit.node_mem_of_mem_next ht
        rcases hclause with hk | hk <;> simpa [hk] using htmem
      · rcases htw with rfl | htw
        · exact .refl _
        · exact (htw.inside htn).1
  · rw [not_or] at hclause
    refine ⟨u.node, List.mem_flatMap.2 ⟨u.node, hmem, ?_⟩, ?_⟩
    · split
      · next hk => exact absurd hk hclause.1
      · next hk => exact absurd hk hclause.2
      · simp
    · rcases huw with rfl | huw
      · exact .refl _
      · exact (huw.inside hun).1

theorem spread_ifValues (hv : v.node.isNested = true) : Spread v (ifValues v.node) where
  inside x hx := items_inside hv ((ifValues_sublist _).subset hx)
  apart := ((items_pairwise hv).sublist (ifValues_sublist _)).imp fun hab => .inl hab
  clear w hw hmay x hx := by
    obtain ⟨y, hy, hin⟩ := exists_item hv hw hmay
    rcases Node.eq_or_apart_of_pairwise (items_pairwise hv) hy ((ifValues_sublist _).subset hx)
      with rfl | hapart
    · exact .inl hin
    · exact .inr (hapart.mono hin (.refl _))

/-! ## Operands of a chain -/

theorem chainOperands_cases {operator : String} {n : Node} {operands : List Node}
    (h : chainOperands ctx operator n = .ok operands) :
    ∃ left right, n.operands? = some (left, right)
      ∧ ((left.isLogical operator = true
          ∧ ∃ front, chainOperands ctx operator left = .ok front ∧ operands = front ++ [right])
        ∨ operands = [left, right]) := by
  rw [chainOperands] at h
  split at h
  · cases h
  · next left right hn =>
    refine ⟨left, right, hn, ?_⟩
    split at h
    · next hlink =>
      obtain ⟨front, hfront, h⟩ := Except.bind_ok h
      cases h
      exact .inl ⟨hlink, front, hfront, rfl⟩
    · cases h
      exact .inr rfl

/-- A visit below a chain that goes on in its left operand comes to the link, to what lies below
the link, or to nodes apart from it. -/
theorem link_cases (hv : v.node.isNested = true) {operator : String} {left right : Node}
    (hop : v.node.logicalOperator? = some operator)
    (hn : v.node.operands? = some (left, right)) (hlink : left.isLogical operator = true)
    (h : v.Leads w) (hw : MayWrap w) :
    (∃ u : Visit, u.node = left ∧ u.Leads w) ∨ w.node.Apart left := by
  obtain ⟨u, hu, huw⟩ := h.cases
  have hmem := Visit.node_mem_of_mem_next hu
  rcases Node.eq_or_apart hv hmem (Node.operands?_fst_mem hn) with heq | hapart
  · rcases huw with rfl | huw
    · -- The link itself finds no branch.
      have hkind := Node.kind_of_logicalOperator? (beq_iff_eq.1 hlink)
      have hmark := hw.head (heq ▸ hkind)
      obtain ⟨child, _, rfl⟩ := Visit.mem_next.1 hu
      simp only at heq hmark
      rw [Node.chainLink?_eq hop hn hlink, heq] at hmark
      simp [Node.isSameSpan] at hmark
    · exact .inl ⟨u, heq, huw⟩
  · right
    rcases huw with rfl | huw
    · exact hapart
    · exact hapart.mono (huw.inside (Visit.inside_of_mem_next hv hu).2.1).1 (.refl _)

theorem spread_chain {operator : String} {operands : List Node} (hv : v.node.isNested = true)
    (hop : v.node.logicalOperator? = some operator)
    (h : chainOperands ctx operator v.node = .ok operands) : Spread v operands := by
  induction hsize : v.node.size using Nat.strongRecOn generalizing v operands with
  | ind size ih =>
    obtain ⟨left, right, hn, hcases⟩ := chainOperands_cases h
    have hleft := Node.operands?_fst_mem hn
    have hright := Node.operands?_snd_mem hn
    obtain ⟨hlin, hlnested⟩ := Node.inside_of_mem hv hleft
    have hrin := (Node.inside_of_mem hv hright).1
    have hapart : left.Apart right :=
      (Node.eq_or_apart hv hleft hright).resolve_left (Node.operands?_ne hn)
    rcases hcases with ⟨hlink, front, hfront, rfl⟩ | rfl
    · have hspread : ∀ u : Visit, u.node = left → Spread u front := by
        rintro u rfl
        exact ih _ (hsize ▸ Node.size_lt_of_mem hleft) hlnested (beq_iff_eq.1 hlink) hfront rfl
      have hfin : ∀ x ∈ front, x.Inside left := (hspread ⟨left, 0, false, false⟩ rfl).inside
      refine ⟨?_, ?_, ?_⟩
      · intro x hx
        rcases List.mem_append.1 hx with hx | hx
        · exact (hfin x hx).trans hlin
        · obtain rfl := List.mem_singleton.1 hx
          exact hrin
      · refine List.pairwise_append.2
          ⟨(hspread ⟨left, 0, false, false⟩ rfl).apart, List.pairwise_singleton .., ?_⟩
        intro x hx y hy
        obtain rfl := List.mem_singleton.1 hy
        exact hapart.mono (hfin x hx) (.refl _)
      · intro w hw hmay x hx
        rcases List.mem_append.1 hx with hx | hx
        · rcases link_cases hv hop hn hlink hw hmay with ⟨u, hu, huw⟩ | hfar
          · exact (hspread u hu).clear w huw hmay x hx
          · exact .inr (hfar.mono (.refl _) (hfin x hx))
        · obtain rfl := List.mem_singleton.1 hx
          exact clear_of_child hv hright hw
    · refine ⟨?_, ?_, ?_⟩
      · simp only [List.mem_cons, List.not_mem_nil, or_false, forall_eq_or_imp, forall_eq]
        exact ⟨hlin, hrin⟩
      · exact .cons (by simpa using hapart) (List.pairwise_singleton ..)
      · intro w hw _ x hx
        simp only [List.mem_cons, List.not_mem_nil, or_false] at hx
        rcases hx with rfl | rfl
        · exact clear_of_child hv hleft hw
        · exact clear_of_child hv hright hw

/-- What a branch wraps is spread over the node of its visit. -/
theorem Branching.spread {type : String} {form : Form} (h : Branching ctx v type form)
    (hv : v.node.isNested = true) : Spread v form.wrapped := by
  cases h with
  | ifStatement kind found => exact ⟨by simp [Form.wrapped], .nil, by simp [Form.wrapped]⟩
  | chain kind head logical found => exact spread_chain hv logical found
  | ifExpression kind enough => exact spread_ifValues hv
  | whileStatement kind found => exact spread_condition hv (condition?_mem found)
  | repeatStatement kind found => exact spread_condition hv (condition?_mem found)

end Analysis

end LuaCoverage
