import LuaCoverage.Lua.Walk
import Mathlib.Data.List.Pairwise
import Mathlib.Logic.Relation

/-!
# Trees whose spans nest

A tree is *nested* when every node starts no later than it stops and holds its children, each of
them behind the one in front of it. A visit *leads to* the visits of all nodes below its own.

In a nested tree, of two visits the earlier one leads to the later one or lies in front of it.

Results:
* `Node.eq_or_apart`: two children of a node are the same, or have no byte in common.
* `Visit.Leads.inside`: what a visit leads to lies inside its node, and deeper.
* `Node.visits_ordered`: the order of the visits.
-/

namespace LuaCoverage.Lua

namespace Node

mutual
/-- Whether the spans of a tree nest. -/
def isNested : Node → Bool
  | mk _ _ start stop children => start ≤ stop && areNested start stop children
/-- Whether the spans of trees nest, and follow each other from one offset to another. -/
def areNested (start stop : Nat) : List Node → Bool
  | [] => true
  | n :: rest =>
    start ≤ n.start && n.stop ≤ stop && n.isNested && areNested n.stop stop rest
end

def Inside (inner outer : Node) : Prop := outer.start ≤ inner.start ∧ inner.stop ≤ outer.stop

instance : DecidableRel Inside := fun _ _ => inferInstanceAs (Decidable (_ ∧ _))

/-- A node lies in front of another. -/
def Before (a b : Node) : Prop := a.stop ≤ b.start

/-- Two nodes have no byte in common. -/
def Apart (a b : Node) : Prop := a.Before b ∨ b.Before a

theorem Inside.refl (n : Node) : n.Inside n := ⟨Nat.le_refl _, Nat.le_refl _⟩

theorem Inside.trans {a b c : Node} (hab : a.Inside b) (hbc : b.Inside c) : a.Inside c :=
  ⟨Nat.le_trans hbc.1 hab.1, Nat.le_trans hab.2 hbc.2⟩

theorem Before.mono {a b c d : Node} (h : a.Before b) (hc : c.Inside a) (hd : d.Inside b) :
    c.Before d :=
  Nat.le_trans hc.2 (Nat.le_trans h hd.1)

theorem Apart.symm {a b : Node} (h : a.Apart b) : b.Apart a := Or.symm h

instance : Std.Symm Apart := ⟨fun _ _ => Apart.symm⟩

theorem Apart.mono {a b c d : Node} (h : a.Apart b) (hc : c.Inside a) (hd : d.Inside b) :
    c.Apart d := by
  rcases h with h | h
  · exact .inl (h.mono hc hd)
  · exact .inr (h.mono hd hc)

theorem start_le_stop {n : Node} (h : n.isNested = true) : n.start ≤ n.stop := by
  cases n
  simp only [isNested, Bool.and_eq_true, decide_eq_true_eq] at h
  exact h.1

theorem areNested_spec {start stop : Nat} {nodes : List Node}
    (h : areNested start stop nodes = true) :
    (∀ n ∈ nodes, start ≤ n.start ∧ n.stop ≤ stop ∧ n.isNested = true)
      ∧ nodes.Pairwise Before := by
  induction nodes generalizing start with
  | nil => exact ⟨by simp, .nil⟩
  | cons n rest ih =>
    simp only [areNested, Bool.and_eq_true, decide_eq_true_eq] at h
    obtain ⟨⟨⟨hstart, hstop⟩, hn⟩, hrest⟩ := h
    obtain ⟨hall, hpair⟩ := ih hrest
    have hspan := start_le_stop hn
    constructor
    · intro m hm
      rcases List.mem_cons.1 hm with rfl | hm
      · exact ⟨hstart, hstop, hn⟩
      · obtain ⟨hms, hme, hmn⟩ := hall m hm
        exact ⟨by omega, hme, hmn⟩
    · exact .cons (fun m hm => (hall m hm).1) hpair

theorem areNested_children {n : Node} (h : n.isNested = true) :
    areNested n.start n.stop n.children = true := by
  cases n
  simp only [isNested, Bool.and_eq_true] at h
  exact h.2

theorem inside_of_mem {n child : Node} (h : n.isNested = true) (hc : child ∈ n.children) :
    child.Inside n ∧ child.isNested = true := by
  obtain ⟨hstart, hstop, hn⟩ := (areNested_spec (areNested_children h)).1 child hc
  exact ⟨⟨hstart, hstop⟩, hn⟩

theorem children_pairwise {n : Node} (h : n.isNested = true) : n.children.Pairwise Before :=
  (areNested_spec (areNested_children h)).2

theorem eq_or_apart_of_pairwise {nodes : List Node} (h : nodes.Pairwise Before) {a b : Node}
    (ha : a ∈ nodes) (hb : b ∈ nodes) : a = b ∨ a.Apart b := by
  by_cases hab : a = b
  · exact .inl hab
  · have hapart : nodes.Pairwise Apart := h.imp fun hab => .inl hab
    exact .inr (hapart.forall ha hb hab)

theorem eq_or_apart {n a b : Node} (h : n.isNested = true) (ha : a ∈ n.children)
    (hb : b ∈ n.children) : a = b ∨ a.Apart b :=
  eq_or_apart_of_pairwise (children_pairwise h) ha hb

theorem kind_of_logicalOperator? {n : Node} {operator : String}
    (h : n.logicalOperator? = some operator) : n.kind = .binaryExpression := by
  simp only [logicalOperator?] at h
  split at h
  · next hk => exact beq_iff_eq.1 hk
  · simp at h

theorem walkedChildren_sublist (n : Node) : n.walkedChildren.Sublist n.children :=
  List.filter_sublist.trans List.filter_sublist

end Node

namespace Visit

/-- One visit leads to another: to a visit of a node below its own. -/
def Leads : Visit → Visit → Prop := Relation.TransGen fun v w => w ∈ v.next

/-- One visit leads to another, or lies in front of it. -/
def Ordered (v w : Visit) : Prop := v.Leads w ∨ v.node.Before w.node

theorem mem_next {v w : Visit} : w ∈ v.next ↔ ∃ child ∈ v.node.walkedChildren,
    w = ⟨child, v.depth + 1, v.node.holdsStatements, v.node.chainLink?.any child.isSameSpan⟩ := by
  simp [next, eq_comm]

theorem node_mem_of_mem_next {v w : Visit} (h : w ∈ v.next) : w.node ∈ v.node.children := by
  obtain ⟨child, hc, rfl⟩ := mem_next.1 h
  exact v.node.walkedChildren_sublist.subset hc

/-- What a visit leads to comes directly after it, or below one that does. -/
theorem Leads.cases {v w : Visit} (h : v.Leads w) : ∃ u ∈ v.next, u = w ∨ u.Leads w := by
  rcases Relation.TransGen.head'_iff.1 h with ⟨u, hu, huw⟩
  rcases Relation.reflTransGen_iff_eq_or_transGen.1 huw with rfl | huw
  · exact ⟨w, hu, .inl rfl⟩
  · exact ⟨u, hu, .inr huw⟩

theorem inside_of_mem_next {v w : Visit} (hv : v.node.isNested = true) (h : w ∈ v.next) :
    w.node.Inside v.node ∧ w.node.isNested = true ∧ v.depth < w.depth := by
  obtain ⟨hin, hn⟩ := Node.inside_of_mem hv (node_mem_of_mem_next h)
  obtain ⟨child, hc, rfl⟩ := mem_next.1 h
  exact ⟨hin, hn, Nat.lt_succ_self _⟩

/-- What a visit leads to lies inside its node, and deeper. -/
theorem Leads.inside {v w : Visit} (h : v.Leads w) (hv : v.node.isNested = true) :
    w.node.Inside v.node ∧ w.node.isNested = true ∧ v.depth < w.depth := by
  induction h with
  | single h => exact inside_of_mem_next hv h
  | tail _ hstep ih =>
    obtain ⟨hin, hn, hlt⟩ := ih
    obtain ⟨hin', hn', hlt'⟩ := inside_of_mem_next hn hstep
    exact ⟨hin'.trans hin, hn', Nat.lt_trans hlt hlt'⟩

/-- A walk goes on from nested nodes to nested nodes. -/
theorem isNested_next_append {v : Visit} {rest : List Visit} (hv : v.node.isNested = true)
    (hrest : ∀ u ∈ rest, u.node.isNested = true) :
    ∀ u ∈ v.next ++ rest, u.node.isNested = true := by
  intro u hu
  rcases List.mem_append.1 hu with hu | hu
  · exact (inside_of_mem_next hv hu).2.1
  · exact hrest u hu

theorem next_pairwise {v : Visit} (hv : v.node.isNested = true) :
    v.next.Pairwise fun a b => a.node.Before b.node := by
  rw [next, List.pairwise_map]
  exact (Node.children_pairwise hv).sublist v.node.walkedChildren_sublist

end Visit

open Visit

/-- The visits of a walk are those of its stack and what they lead to. -/
theorem exists_of_mem_walk {stack : List Visit} {w : Visit} (h : w ∈ walk stack) :
    ∃ v ∈ stack, v = w ∨ v.Leads w := by
  induction stack using walk.induct with
  | case1 => simp [walk] at h
  | case2 v rest ih =>
    rw [walk] at h
    rcases List.mem_cons.1 h with rfl | h
    · exact ⟨w, by simp, .inl rfl⟩
    · obtain ⟨u, hu, huw⟩ := ih h
      rcases List.mem_append.1 hu with hu | hu
      · refine ⟨v, by simp, .inr ?_⟩
        rcases huw with rfl | huw
        · exact .single hu
        · exact .head hu huw
      · exact ⟨u, by simp [hu], huw⟩

/-- A walk keeps the order of its stack, and comes to a node before what lies below it. -/
theorem walk_ordered {stack : List Visit} (hn : ∀ v ∈ stack, v.node.isNested = true)
    (hp : stack.Pairwise fun a b => a.node.Before b.node) : (walk stack).Pairwise Ordered := by
  induction stack using walk.induct with
  | case1 => simp [walk]
  | case2 v rest ih =>
    obtain ⟨hv, hrest⟩ := List.forall_mem_cons.1 hn
    obtain ⟨hbefore, hpair⟩ := List.pairwise_cons.1 hp
    have hn' := isNested_next_append hv hrest
    have hp' : (v.next ++ rest).Pairwise fun a b => a.node.Before b.node := by
      refine List.pairwise_append.2 ⟨next_pairwise hv, hpair, ?_⟩
      intro a ha b hb
      exact (hbefore b hb).mono (inside_of_mem_next hv ha).1 (.refl _)
    rw [walk]
    refine List.Pairwise.cons ?_ (ih hn' hp')
    intro w hw
    obtain ⟨u, hu, huw⟩ := exists_of_mem_walk hw
    rcases List.mem_append.1 hu with hu | hu
    · left
      rcases huw with rfl | huw
      · exact .single hu
      · exact .head hu huw
    · right
      rcases huw with rfl | huw
      · exact hbefore u hu
      · exact (hbefore u hu).mono (.refl _) (huw.inside (hrest u hu)).1

theorem Node.visits_ordered {root : Node} (h : root.isNested = true) :
    root.visits.Pairwise Ordered :=
  walk_ordered (by simpa [ofRoot] using h) (List.pairwise_singleton ..)

theorem Node.isNested_of_mem_visits {root : Node} (h : root.isNested = true) {v : Visit}
    (hv : v ∈ root.visits) : v.node.isNested = true := by
  obtain ⟨u, hu, huv⟩ := exists_of_mem_walk hv
  obtain rfl := List.mem_singleton.1 hu
  rcases huv with rfl | huv
  · exact h
  · exact (huv.inside h).2.1

end LuaCoverage.Lua
