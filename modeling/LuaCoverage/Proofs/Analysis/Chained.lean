import LuaCoverage.Proofs.Analysis.Matching
import LuaCoverage.Proofs.Analysis.Nesting
import LuaCoverage.Proofs.Lua.Spine
import Mathlib.Data.List.Nodup

/-!
# Chains of logical operators

A *chain* of one logical operator has a head, the links that the head goes on in, each the left
operand of the one before it, and its operands from left to right. It ends at the first left operand
that is something else, parentheses among them.

The branches of chains are found one by one on the way through the visits, one at each head of a
spine. A branch has an id of its own, so the sites of those found before stay as they are. The
spines of all heads hold every logical expression that the walk comes to once; so a chain cannot go
on above its head, where its head would be a link as well.

Results:
* `isChain_of_chainOperands`: the operands found of a spine are those of a chain.
* `findings_chains`: the branches of chains are those of the spines of the heads.
* `Analyzer.ofTree_chained`: the chains of an analysis.
-/

namespace LuaCoverage
open LuaCoverage.Lua LuaCoverage.Text

namespace Analysis
variable {ctx : Context}

/-- Whether a head goes on in some inner links and leaves some operands, from left to right. The
left operand of the innermost link is no expression of the operator. -/
inductive IsChain (operator : String) : (head : Node) → (inner operands : List Node) → Prop
  | last {n left right : Node} (logical : n.logicalOperator? = some operator)
      (found : n.operands? = some (left, right)) (ends : left.isLogical operator = false) :
      IsChain operator n [] [left, right]
  | link {n left right : Node} {inner operands : List Node}
      (logical : n.logicalOperator? = some operator)
      (found : n.operands? = some (left, right)) (rest : IsChain operator left inner operands) :
      IsChain operator n (left :: inner) (operands ++ [right])

/-- A chain of one logical operator. -/
structure Chain where
  operator : String
  head : Node
  inner : List Node
  operands : List Node
  isChain : IsChain operator head inner operands

def Chain.links (c : Chain) : List Node := c.head :: c.inner

namespace IsChain
variable {operator : String} {head : Node} {inner operands : List Node}

/-- A chain has one operand more than it has links, the head among them. -/
theorem length_operands (h : IsChain operator head inner operands) :
    operands.length = (head :: inner).length + 1 := by
  induction h with
  | last => rfl
  | link _ _ _ ih => simp [ih]

theorem logical_head (h : IsChain operator head inner operands) :
    head.logicalOperator? = some operator := by
  cases h with
  | last logical => exact logical
  | link logical => exact logical

/-- Every expression of a chain has its operator, and operands. -/
theorem of_mem (h : IsChain operator head inner operands) {n : Node} (hn : n ∈ head :: inner) :
    n.logicalOperator? = some operator ∧ ∃ left right, n.operands? = some (left, right) := by
  induction h with
  | last logical found =>
    obtain rfl := List.mem_singleton.1 hn
    exact ⟨logical, _, _, found⟩
  | link logical found _ ih =>
    rcases List.mem_cons.1 hn with rfl | hn
    · exact ⟨logical, _, _, found⟩
    · exact ih hn

/-- The left operand of an expression of a chain, if it has the operator, is an inner link. -/
theorem left_mem (h : IsChain operator head inner operands) {n left right : Node}
    (hn : n ∈ head :: inner) (hfound : n.operands? = some (left, right))
    (hleft : left.isLogical operator = true) : left ∈ inner := by
  induction h with
  | last _ found ends =>
    obtain rfl := List.mem_singleton.1 hn
    rw [found] at hfound
    cases hfound
    rw [ends] at hleft
    cases hleft
  | link _ found _ ih =>
    rcases List.mem_cons.1 hn with rfl | hn
    · rw [found] at hfound
      cases hfound
      simp
    · exact List.mem_cons_of_mem _ (ih hn)

/-- The operands of a chain are not empty, lie inside its head, and follow each other. -/
theorem operands_ordered (h : IsChain operator head inner operands) (hn : head.isNested = true)
    (ho : ∀ n ∈ head :: inner, n.hasOrder = true) :
    (∀ x ∈ operands, x.Inside head ∧ x.start < x.stop) ∧ operands.Pairwise Node.Before := by
  induction h with
  | last _ found =>
    obtain ⟨hleft, hbefore, hright⟩ := Node.hasOrder_spec (ho _ (by simp)) found
    have hlin := (Node.inside_of_mem hn (Node.operands?_fst_mem found)).1
    have hrin := (Node.inside_of_mem hn (Node.operands?_snd_mem found)).1
    exact ⟨by simp [hlin, hrin, hleft, hright], by simpa using hbefore⟩
  | link _ found _ ih =>
    obtain ⟨-, hbefore, hright⟩ := Node.hasOrder_spec (ho _ (by simp)) found
    obtain ⟨hlin, hlnested⟩ := Node.inside_of_mem hn (Node.operands?_fst_mem found)
    have hrin := (Node.inside_of_mem hn (Node.operands?_snd_mem found)).1
    obtain ⟨hall, hpair⟩ := ih hlnested fun n hmem => ho n (List.mem_cons_of_mem _ hmem)
    refine ⟨?_, ?_⟩
    · intro x hx
      rcases List.mem_append.1 hx with hx | hx
      · exact ⟨(hall x hx).1.trans hlin, (hall x hx).2⟩
      · obtain rfl := List.mem_singleton.1 hx
        exact ⟨hrin, hright⟩
    · refine List.pairwise_append.2 ⟨hpair, List.pairwise_singleton .., ?_⟩
      intro x hx y hy
      obtain rfl := List.mem_singleton.1 hy
      exact hbefore.mono (hall x hx).1 (.refl _)

end IsChain

/-- The operands of a chain follow each other, and none of them lies inside another. -/
theorem Chain.apart (c : Chain) (hn : c.head.isNested = true)
    (ho : ∀ n ∈ c.links, n.hasOrder = true) :
    c.operands.Pairwise fun x y => x.Before y ∧ ¬x.Inside y ∧ ¬y.Inside x := by
  obtain ⟨hall, hpair⟩ := c.isChain.operands_ordered hn ho
  refine hpair.imp_of_mem ?_
  intro x y hx hy hbefore
  refine ⟨hbefore, ?_, ?_⟩
  · intro hin
    exact absurd (hbefore.mono (.refl x) hin) (Nat.not_le.2 (hall x hx).2)
  · intro hin
    exact absurd (hbefore.mono hin (.refl y)) (Nat.not_le.2 (hall y hy).2)

/-- The operands that are found of a spine are those of a chain. -/
theorem isChain_of_chainOperands {operator : String} {n : Node} {operands : List Node}
    (hop : n.logicalOperator? = some operator)
    (h : chainOperands ctx operator n = .ok operands) : IsChain operator n n.inner operands := by
  fun_induction chainOperands ctx operator n generalizing operands with
  | case1 n hnone => cases h
  | case2 n left right found hlink ih =>
    obtain ⟨front, hfront, h⟩ := Except.bind_ok h
    cases h
    have hleft : left.logicalOperator? = some operator := beq_iff_eq.1 hlink
    rw [Node.inner_of_some (Node.chainLink?_eq hop found hlink)]
    exact .link hop found (ih hleft hfront)
  | case3 n left right found hends =>
    cases h
    have hnone : n.chainLink? = none := by simp [Node.chainLink?, hop, found, hends]
    rw [Node.inner_of_none hnone]
    exact .last hop found (by simpa using hends)

/-- A branch is that of a chain: it is where the head is, has the operands for its locations, and
a call is wrapped around each operand, with the arm that counts the operands in front of it. -/
structure Chain.IsBranch (ctx : Context) (sites : List Site) (c : Chain) (b : BranchProbe) :
    Prop where
  line : b.line = ctx.line c.head
  loc : b.loc = ctx.span c.head
  locations : b.locations = c.operands.map ctx.span
  count : b.locations.length = c.links.length + 1
  wrapped : ∃ depth, (sites.filter (Site.isOf .branch b.id)).Perm (wrapAll depth b.id 0 c.operands)

theorem Chain.IsBranch.perm {sites other : List Site} {c : Chain} {b : BranchProbe}
    (h : c.IsBranch ctx sites b) (hp : other.Perm sites) : c.IsBranch ctx other b :=
  let ⟨depth, hwrapped⟩ := h.wrapped
  { h with wrapped := ⟨depth, (hp.filter _).trans hwrapped⟩ }

theorem kind_of_isHead {v : Visit} (h : v.isHead = true) : v.node.kind = .binaryExpression := by
  simp only [Visit.isHead, Node.isAndOr, Bool.and_eq_true] at h
  obtain ⟨operator, hop⟩ := Option.isSome_iff_exists.1 h.1
  exact Node.kind_of_logicalOperator? hop

theorem finds_of_isHead {v : Visit} (h : v.isHead = true) : finds v = true := by
  have hkind := kind_of_isHead h
  simp only [Visit.isHead, Node.isAndOr, Bool.and_eq_true] at h
  simp [finds, hkind, h]

/-- Whether a branch is of a chain. -/
def isChainBranch (b : BranchProbe) : Bool := b.type == "binary-expr"

/-- The branches of chains that are found on the way through the visits so far are those of the
spines of the heads. -/
structure ChainsFound (ctx : Context) (front : List Visit) (f : Findings) : Prop where
  fits : Matches (f.toMap "" ctx.idBase) f.sites
  pairs : List.Forall₂ (fun v b => ∃ c : Chain, c.links = v.node.spine ∧ c.IsBranch ctx f.sites b)
    (front.filter Visit.isHead) (f.branches.filter isChainBranch)

namespace ChainsFound
variable {front : List Visit} {f g : Findings} {v : Visit} {new : List Site}

/-- The id of a branch that was found is in front of the next one. -/
theorem id_lt (h : ChainsFound ctx front f) {b : BranchProbe} (hb : b ∈ f.branches) :
    b.id < ctx.idBase + f.branches.length := by
  have hmem : (b.id, Demand.branch b.type b.pathCount)
      ∈ (f.toMap "" ctx.idBase).demands .branch := List.mem_map_of_mem hb
  simpa [Findings.toMap, ProbeMap.demands] using h.fits.id_lt hmem

/-- Sites of no branch that was found may be added. -/
theorem pairs_append (h : ChainsFound ctx front f)
    (hnew : ∀ s ∈ new, ∀ b ∈ f.branches, s.isOf .branch b.id = false) :
    List.Forall₂ (fun v b => ∃ c : Chain,
        c.links = v.node.spine ∧ c.IsBranch ctx (f.sites ++ new) b)
      (front.filter Visit.isHead) (f.branches.filter isChainBranch) := by
  have hpairs := h.pairs
  have hsub : ∀ b ∈ f.branches.filter isChainBranch, b ∈ f.branches :=
    fun b hb => List.mem_of_mem_filter hb
  generalize f.branches.filter isChainBranch = found at hpairs hsub
  generalize front.filter Visit.isHead = heads at hpairs
  induction hpairs with
  | nil => exact .nil
  | @cons v b _ _ hfirst _ ih =>
    refine .cons ?_ (ih fun b hb => hsub b (by simp [hb]))
    obtain ⟨c, hlinks, hbranch⟩ := hfirst
    obtain ⟨depth, hwrapped⟩ := hbranch.wrapped
    refine ⟨c, hlinks, { hbranch with wrapped := ⟨depth, ?_⟩ }⟩
    have hnone : new.filter (Site.isOf .branch b.id) = [] := by
      rw [List.filter_eq_nil_iff]
      intro s hs
      simp [hnew s hs b (hsub b (by simp))]
    rwa [List.filter_append, hnone, List.append_nil]

/-- What adds no branch keeps the chains. -/
theorem keep (h : ChainsFound ctx front f) (fits : Matches (g.toMap "" ctx.idBase) g.sites)
    (branches : g.branches = f.branches) (sites : g.sites = f.sites ++ new)
    (hnew : ∀ s ∈ new, s.kind ≠ .branch) : ChainsFound ctx front g := by
  refine ⟨fits, ?_⟩
  rw [branches, sites]
  refine h.pairs_append fun s hs b _ => ?_
  simp [Site.isOf, hnew s hs]

theorem statement (h : ChainsFound ctx front f) (n : Node) (depth : Nat) :
    ChainsFound ctx front (statement ctx n depth f) :=
  h.keep (match_statement h.fits n depth) rfl rfl (by simp)

theorem function (h : ChainsFound ctx front f) (v : Visit) (name : String) (decl loc : Location)
    (offset : Nat) : ChainsFound ctx front (addFunctionAt ctx v name decl loc offset f) :=
  h.keep (match_function h.fits v name decl loc offset) rfl rfl (by simp)

/-- The sites of the next branch are of none that was found. -/
theorem isOf_next (h : ChainsFound ctx front f) {form : Form} {depth : Int} {s : Site}
    (hs : s ∈ form.sites depth (ctx.idBase + f.branches.length)) {b : BranchProbe}
    (hb : b ∈ f.branches) : s.isOf .branch b.id = false := by
  obtain ⟨-, hid⟩ := Form.mem_sites hs
  have hlt := h.id_lt hb
  rw [← Bool.not_eq_true, Site.isOf_eq_true_iff]
  omega

/-- A branch of another type keeps the chains. -/
theorem other (h : ChainsFound ctx front f) {type : String} {form : Form}
    (hb : Branching ctx v type form) (htype : type ≠ "binary-expr") :
    ChainsFound ctx front (addForm ctx v type form f) := by
  refine ⟨match_branch h.fits hb, ?_⟩
  have hbranches : (addForm ctx v type form f).branches.filter isChainBranch
      = f.branches.filter isChainBranch := by
    simp [addForm, branch, Findings.addBranch, List.filter_append, isChainBranch, htype]
  rw [hbranches]
  exact h.pairs_append fun s hs b hmem => h.isOf_next hs hmem

/-- The branch of a head is that of its spine. -/
theorem chain (h : ChainsFound ctx front f) {operator : String} {operands : List Node}
    (hb : Branching ctx v "binary-expr" (.operands operands)) (hhead : v.isHead = true)
    (hop : v.node.logicalOperator? = some operator)
    (hfound : chainOperands ctx operator v.node = .ok operands) :
    ChainsFound ctx (front ++ [v]) (addForm ctx v "binary-expr" (.operands operands) f) := by
  refine ⟨match_branch h.fits hb, ?_⟩
  let id := ctx.idBase + f.branches.length
  let b : BranchProbe := ⟨id, "binary-expr", ctx.line v.node, ctx.span v.node,
    operands.map ctx.span⟩
  have hbranches : (addForm ctx v "binary-expr" (.operands operands) f).branches.filter
      isChainBranch = f.branches.filter isChainBranch ++ [b] := by
    simp only [addForm, branch, Findings.addBranch, List.filter_append]
    rfl
  rw [hbranches, List.filter_append, List.filter_cons_of_pos hhead, List.filter_nil]
  refine List.rel_append (h.pairs_append fun s hs b hmem => h.isOf_next hs hmem) (.cons ?_ .nil)
  have hchain := isChain_of_chainOperands hop hfound
  refine ⟨⟨operator, v.node, v.node.inner, operands, hchain⟩, rfl, rfl, rfl, rfl, ?_,
    v.depth + 1, ?_⟩
  · simp [b, hchain.length_operands, Chain.links]
  · -- None of the sites so far is of the new branch, and all that are added are.
    have hold : f.sites.filter (Site.isOf .branch id) = [] := by
      rw [List.filter_eq_nil_iff]
      intro s hs
      rw [Site.isOf_eq_true_iff]
      have hfresh : ¬(s.kind = .branch ∧ s.id = _) := h.fits.fresh s hs
      simpa [Findings.toMap, ProbeMap.demands] using hfresh
    have hnew : ∀ s ∈ wrapAll (v.depth + 1) id 0 operands, s.isOf .branch id = true :=
      fun s hs => Site.isOf_eq_true_iff.2 (mem_wrapAll hs)
    rw [List.filter_append, hold, List.nil_append]
    exact .of_eq (List.filter_eq_self.2 hnew)

/-- A visit that is of no head finds no branch of a chain. -/
theorem skip (h : ChainsFound ctx front f) (hv : v.isHead = false) :
    ChainsFound ctx (front ++ [v]) f := by
  refine ⟨h.fits, ?_⟩
  rw [List.filter_append, List.filter_cons_of_neg (by simp [hv]), List.filter_nil, List.append_nil]
  exact h.pairs

theorem visit (h : ChainsFound ctx front f) (hg : visit ctx f v = .ok g) :
    ChainsFound ctx (front ++ [v]) g := by
  have hs : ChainsFound ctx front
      (if v.isStatement then Analysis.statement ctx v.node v.depth f else f) := by
    split
    · exact h.statement v.node v.depth
    · exact h
  rw [Analysis.visit] at hg
  rcases construct_finds hg with ⟨hnone, hg⟩ | ⟨-, type, form, hb, rfl⟩
  · have hhead : v.isHead = false := by
      rw [← Bool.not_eq_true]
      intro hhead
      rw [finds_of_isHead hhead] at hnone
      cases hnone
    rcases hg with ⟨-, rfl⟩ | ⟨-, name, decl, loc, offset, rfl⟩
    · exact hs.skip hhead
    · exact (hs.function ..).skip hhead
  · have hhead : v.node.kind ≠ .binaryExpression → v.isHead = false := by
      intro hkind
      rw [← Bool.not_eq_true]
      exact fun hhead => hkind (kind_of_isHead hhead)
    cases hb with
    | ifStatement kind found =>
      exact (hs.other (.ifStatement kind found) (by decide)).skip (hhead (by simp [kind]))
    | chain kind head logical found =>
      exact hs.chain (.chain kind head logical found)
        (by simp [Visit.isHead, Node.isAndOr, logical, head]) logical found
    | ifExpression kind enough =>
      exact (hs.other (.ifExpression kind enough) (by decide)).skip (hhead (by simp [kind]))
    | whileStatement kind found =>
      exact (hs.other (.whileStatement kind found) (by decide)).skip (hhead (by simp [kind]))
    | repeatStatement kind found =>
      exact (hs.other (.repeatStatement kind found) (by decide)).skip (hhead (by simp [kind]))

end ChainsFound

theorem findings_chains {root : Node} {f : Findings} (h : findings ctx root = .ok f) :
    ChainsFound ctx root.visits f :=
  Except.foldlM_keeps (P := fun front f => ChainsFound ctx front f)
    (fun _ _ _ _ hf hg => hf.visit hg) [] ⟨match_empty "" ctx.idBase, .nil⟩ h

/-- Chains that have the spines of some heads, for branches that are each of such a chain. -/
theorem exists_chains {sites : List Site} {heads : List Visit} {branches : List BranchProbe}
    (h : List.Forall₂ (fun v b => ∃ c : Chain, c.links = v.node.spine ∧ c.IsBranch ctx sites b)
      heads branches) :
    ∃ chains : List Chain, chains.map Chain.links = heads.map (fun v => v.node.spine)
      ∧ List.Forall₂ (Chain.IsBranch ctx sites) chains branches := by
  induction h with
  | nil => exact ⟨[], rfl, .nil⟩
  | cons hfirst _ ih =>
    obtain ⟨c, hlinks, hbranch⟩ := hfirst
    obtain ⟨chains, hmap, hall⟩ := ih
    exact ⟨c :: chains, by simp [hlinks, hmap], .cons hbranch hall⟩

/-- The branches of chains in an analysis are those of the chains among some nodes: the chains hold
each logical expression of the nodes once, no chain goes on above its head, and there is one branch
for each chain, in their order. The operands of a chain follow each other, none inside another. -/
structure Chaining (ctx : Context) (nodes : List Node) (a : Analysis) (chains : List Chain) :
    Prop where
  once : (chains.flatMap Chain.links).Perm (nodes.filter Node.isAndOr)
  nodup : (chains.flatMap Chain.links).Nodup
  maximal : ∀ c ∈ chains, ∀ n ∈ nodes, n.isLogical c.operator = true →
    ∀ right, n.operands? ≠ some (c.head, right)
  branches : List.Forall₂ (Chain.IsBranch ctx a.sites) chains
    (a.map.branches.filter isChainBranch)
  apart : ∀ c ∈ chains, c.operands.Pairwise fun x y => x.Before y ∧ ¬x.Inside y ∧ ¬y.Inside x

/-- Chains that hold every logical expression once do not go on above their heads. -/
theorem Chain.maximal_of_once {nodes : List Node} {chains : List Chain}
    (once : (chains.flatMap Chain.links).Perm (nodes.filter Node.isAndOr))
    (nodup : (chains.flatMap Chain.links).Nodup) {c : Chain} (hc : c ∈ chains) {n : Node}
    (hn : n ∈ nodes) (hlogical : n.isLogical c.operator = true) (right : Node) :
    n.operands? ≠ some (c.head, right) := by
  intro hfound
  have hop : n.logicalOperator? = some c.operator := beq_iff_eq.1 hlogical
  have hmem : n ∈ chains.flatMap Chain.links :=
    once.mem_iff.2 (List.mem_filter.2 ⟨hn, by simp [Node.isAndOr, hop]⟩)
  obtain ⟨d, hd, hnd⟩ := List.mem_flatMap.1 hmem
  -- The chain of `n` goes on in the head, which would then be in two places.
  have hinner : c.head ∈ d.inner := by
    refine d.isChain.left_mem hnd hfound (beq_iff_eq.2 ?_)
    rw [c.isChain.logical_head, ← hop]
    exact (d.isChain.of_mem hnd).1
  obtain ⟨hself, hdisjoint⟩ := List.nodup_flatMap.1 nodup
  by_cases heq : c = d
  · subst heq
    exact (List.nodup_cons.1 (hself c hc)).1 hinner
  · have : Std.Symm (Function.onFun List.Disjoint Chain.links) :=
      ⟨fun _ _ h => List.disjoint_symm h⟩
    have happart : List.Disjoint c.links d.links := hdisjoint.forall hc hd heq
    exact happart (by simp [links]) (List.mem_cons_of_mem _ hinner)

end Analysis

namespace Analyzer

/-- The logical expressions of a tree that the walk comes to fall into chains, and the branches of
chains in an analysis are those. -/
theorem ofTree_chained {idBase : Int} {path language : String} {source : Bytes} {root : Node}
    {a : Analysis} (h : ofTree idBase path language source root = .ok a)
    (hn : root.isNested = true)
    (ho : ∀ n ∈ root.reached, n.isAndOr = true → n.hasOrder = true) :
    ∃ chains,
      Analysis.Chaining (Analysis.Context.ofSource source idBase) root.reached a chains := by
  obtain ⟨f, hf, rfl⟩ := ofTree_cases h
  obtain ⟨chains, hmap, hbranches⟩ := Analysis.exists_chains (Analysis.findings_chains hf).pairs
  have hlinks : chains.flatMap Analysis.Chain.links
      = (root.visits.filter Visit.isHead).flatMap fun v => v.node.spine := by
    rw [List.flatMap, hmap, List.flatMap]
  have honce := (Node.reached_spines hn ho).symm
  rw [← hlinks] at honce
  have hreached : ∀ c ∈ chains, ∀ n ∈ c.links, n ∈ root.reached ∧ n.isAndOr = true := by
    intro c hc n hmem
    exact List.mem_filter.1 (honce.mem_iff.1 (List.mem_flatMap.2 ⟨c, hc, hmem⟩))
  have hfull : ∀ n ∈ root.reached, n.isAndOr = true → n.start < n.stop := by
    intro n hmem handor
    obtain ⟨c, hc, hnc⟩ := List.mem_flatMap.1
      (honce.mem_iff.2 (List.mem_filter.2 ⟨hmem, handor⟩))
    obtain ⟨left, right, hfound⟩ := (c.isChain.of_mem hnc).2
    exact Node.start_lt_stop (Node.isNested_of_mem_reached hn hmem) (ho n hmem handor) hfound
  have hnodup := honce.nodup_iff.2 (Node.nodup_reached hn hfull)
  refine ⟨chains, honce, hnodup, ?_, ?_, ?_⟩
  · intro c hc n hmem hlogical right
    exact Analysis.Chain.maximal_of_once honce hnodup hc hmem hlogical right
  · exact hbranches.imp fun c b hb => hb.perm (Site.sort_perm f.sites)
  · intro c hc
    have hhead := (hreached c hc c.head (by simp [Analysis.Chain.links])).1
    exact c.apart (Node.isNested_of_mem_reached hn hhead) fun n hmem =>
      ho n (hreached c hc n hmem).1 (hreached c hc n hmem).2

/-- There is a chain of two links with three operands, whose first operand is another chain. -/
theorem ofTree_chained_sample :
    ∃ outer inner, Analysis.Chaining (.ofSource Analysis.sampleSource 7)
        Analysis.sampleTree.reached Analysis.sample [outer, inner]
      ∧ outer.links.length = 2 ∧ inner.links.length = 1 := by
  obtain ⟨chains, hchains⟩ := ofTree_chained ofTree_sample (by decide +kernel) (by decide +kernel)
  have htwo : Analysis.sample.map.branches.filter Analysis.isChainBranch
      = Analysis.sample.map.branches.tail := by decide
  have hbranches := hchains.branches
  rw [htwo] at hbranches
  cases hbranches with
  | cons houter hrest =>
    cases hrest with
    | cons hinner hnone =>
      cases hnone
      exact ⟨_, _, hchains, Nat.succ.inj houter.count.symm, Nat.succ.inj hinner.count.symm⟩

end Analyzer

/-- A source whose only logical expression stands in a type. -/
def Analysis.typeSource : Bytes := Utf8.ofString "type T = typeof(a and b)\n"

/-- A logical expression in a type definition is of no chain: the walk passes over it. -/
theorem Analyzer.typeof_not_chained :
    ∃ root a, Node.ofSource? .luau Analysis.typeSource = some root
      ∧ analyze ⟨.ofGrammar, "lua", 0⟩ Analysis.typeSource "m.luau" = .ok a
      ∧ ¬∃ chains, Analysis.Chaining (.ofSource Analysis.typeSource 0) root.nodes a chains := by
  let ctx := Analysis.Context.ofSource Analysis.typeSource 0
  have hlanguage : languageOf ⟨.ofGrammar, "lua", 0⟩ "m.luau" = "luau" := by decide +kernel
  have hdialect : Dialect.ofName? "luau" = some .luau := Dialect.ofName?_name .luau
  have hbranches : ((Node.ofSource? .luau Analysis.typeSource).bind fun root =>
      (Analysis.findings ctx root).toOption).map Analysis.Findings.branches = some [] := by
    decide +kernel
  have handor : (Node.ofSource? .luau Analysis.typeSource).all
      (fun root => root.nodes.any Node.isAndOr) = true := by decide +kernel
  cases htree : Node.ofSource? .luau Analysis.typeSource with
  | none =>
    rw [htree] at hbranches
    cases hbranches
  | some root =>
    cases hfound : Analysis.findings ctx root with
    | error cause =>
      simp [htree, hfound, Except.toOption] at hbranches
    | ok found =>
      simp only [htree, hfound, Except.toOption, Option.bind_some, Option.map_some,
        Option.some.injEq] at hbranches
      refine ⟨root, ⟨found.toMap "m.luau" 0, Analysis.typeSource, Site.sort found.sites, "luau"⟩,
        rfl, ?_, ?_⟩
      · simp only [analyze, parse, hlanguage, hdialect, Parser.ofGrammar_eq_ok_iff.2 htree,
          Except.mapError_ok, Except.ok_bind, ofTree]
        rw [hfound]
        rfl
      · intro hexists
        obtain ⟨chains, hchains⟩ := hexists
        have hnone := hchains.branches
        simp only [Analysis.Findings.toMap, hbranches, List.filter_nil,
          List.forall₂_nil_right_iff] at hnone
        have honce := hchains.once
        rw [hnone, List.flatMap_nil, List.nil_perm, List.filter_eq_nil_iff] at honce
        rw [htree, Option.all_some, List.any_eq_true] at handor
        obtain ⟨n, hn, hlogical⟩ := handor
        exact honce n hn hlogical

end LuaCoverage
