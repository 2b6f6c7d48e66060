import LuaCoverage.Proofs.Analysis.Branching
import LuaCoverage.Proofs.Lua.Preorder
import Mathlib.Data.List.Forall2

/-!
# Probes in the order of the tree

A visit finds at most one probe of each kind, and it is put behind those found before, with the next
id. So the probes of a kind are those of the visits that find one, in the order of the visits, and
their ids count up from the first id. The visits are in the order of a traversal of the tree; in a
nested one, probes that are found later do not start further up.

Results:
* `visit_located`: what a visit adds to the probes of a kind.
* `findings_inOrder`: the probes found in a tree are those of its visits, in order.
* `Analyzer.ofTree_inOrder`: the order of the visits, and that of the probes of an analysis.
-/

namespace LuaCoverage
open LuaCoverage.Lua LuaCoverage.Text

/-- The ids of the probes of a kind, with where the probes are. -/
def ProbeMap.located (m : ProbeMap) : ProbeKind → List (Int × Location)
  | .statement => m.statements.map fun probe => (probe.id, probe.loc)
  | .function => m.functions.map fun probe => (probe.id, probe.loc)
  | .branch => m.branches.map fun probe => (probe.id, probe.loc)

namespace Analysis
variable {ctx : Context} {f g : Findings} {v : Visit} {path : String}

/-- Whether a visit finds a probe of a kind. -/
def findsOf : ProbeKind → Visit → Bool
  | .statement, v => v.isStatement
  | .function, v => isFunction v.node
  | .branch, v => finds v

/-- The nodes of the probes of a kind that visits find. -/
def nodesOf (kind : ProbeKind) (visits : List Visit) : List Node :=
  (visits.filter (findsOf kind)).map Visit.node

/-- Where the probe of a node is: that of a function begins at the parameters. -/
inductive IsAt (ctx : Context) (n : Node) : ProbeKind → Location → Prop
  | statement : IsAt ctx n .statement (ctx.span n)
  | function {parameters : Node} (found : parameters? n = some parameters) :
      IsAt ctx n .function (ctx.between parameters n)
  | branch : IsAt ctx n .branch (ctx.span n)

/-! ## One visit -/

theorem function_at (h : function ctx v.node v.depth f = .ok g) :
    ∃ name decl parameters offset, parameters? v.node = some parameters
      ∧ g = addFunctionAt ctx v name decl (ctx.between parameters v.node) offset f := by
  obtain ⟨parameters, hparameters, h⟩ := Except.bind_ok h
  obtain ⟨limit, _, h⟩ := Except.bind_ok h
  cases h
  exact ⟨_, _, parameters, _, expect_ok hparameters, rfl⟩

theorem construct_of_isFunction (h : isFunction v.node = true) :
    construct ctx v f = function ctx v.node v.depth f := by
  simp only [isFunction, Bool.or_eq_true, beq_iff_eq] at h
  rcases h with kind | kind
  · simp [construct, kind]
  · simp [construct, kind]

theorem statements_construct (h : construct ctx v f = .ok g) : g.statements = f.statements := by
  rcases construct_cases h with rfl | ⟨_, _, _, _, rfl⟩ | ⟨_, _, -, rfl⟩
  · rfl
  · rfl
  · rfl

theorem functions_construct (h : construct ctx v f = .ok g) :
    isFunction v.node = false ∧ g.functions = f.functions
      ∨ isFunction v.node = true ∧ ∃ name decl parameters, parameters? v.node = some parameters
        ∧ g.functions = f.functions ++ [⟨ctx.idBase + f.functions.length, name, decl,
          ctx.between parameters v.node, ctx.line v.node⟩] := by
  cases hfunction : isFunction v.node with
  | false =>
    rcases construct_finds h with ⟨-, ⟨-, rfl⟩ | ⟨htrue, -⟩⟩ | ⟨-, _, _, -, rfl⟩
    · exact .inl ⟨rfl, rfl⟩
    · rw [hfunction] at htrue
      cases htrue
    · exact .inl ⟨rfl, rfl⟩
  | true =>
    rw [construct_of_isFunction hfunction] at h
    obtain ⟨name, decl, parameters, offset, hparameters, rfl⟩ := function_at h
    exact .inr ⟨rfl, name, decl, parameters, hparameters, rfl⟩

theorem branches_construct (h : construct ctx v f = .ok g) :
    finds v = false ∧ g.branches = f.branches
      ∨ finds v = true ∧ ∃ type locations, g.branches = f.branches
        ++ [⟨ctx.idBase + f.branches.length, type, ctx.line v.node, ctx.span v.node, locations⟩] := by
  rcases construct_finds h with ⟨hnone, ⟨-, rfl⟩ | ⟨-, _, _, _, _, rfl⟩⟩ | ⟨hfinds, _, _, -, rfl⟩
  · exact .inl ⟨hnone, rfl⟩
  · exact .inl ⟨hnone, rfl⟩
  · exact .inr ⟨hfinds, _, _, rfl⟩

/-- What a visit adds to the probes of a kind: one with the next id, if it finds one. -/
theorem visit_located (h : visit ctx f v = .ok g) (path : String) (kind : ProbeKind) :
    findsOf kind v = false
        ∧ (g.toMap path ctx.idBase).located kind = (f.toMap path ctx.idBase).located kind
      ∨ findsOf kind v = true ∧ ∃ loc, IsAt ctx v.node kind loc
        ∧ (g.toMap path ctx.idBase).located kind = (f.toMap path ctx.idBase).located kind
          ++ [(ctx.idBase + ((f.toMap path ctx.idBase).located kind).length, loc)] := by
  have hother : (if v.isStatement then statement ctx v.node v.depth f else f).functions
      = f.functions
      ∧ (if v.isStatement then statement ctx v.node v.depth f else f).branches = f.branches := by
    split
    · exact ⟨rfl, rfl⟩
    · exact ⟨rfl, rfl⟩
  cases kind with
  | statement =>
    simp only [ProbeMap.located, Findings.toMap, statements_construct h, findsOf]
    cases hstatement : v.isStatement with
    | false => exact .inl ⟨rfl, rfl⟩
    | true =>
      refine .inr ⟨rfl, _, .statement, ?_⟩
      simp [statement, Findings.addStatement]
  | function =>
    simp only [ProbeMap.located, Findings.toMap, findsOf]
    rcases functions_construct h with ⟨hfalse, hsame⟩ | ⟨htrue, _, _, _, hparameters, hadded⟩
    · rw [hsame, hother.1]
      exact .inl ⟨hfalse, rfl⟩
    · rw [hadded, hother.1]
      refine .inr ⟨htrue, _, .function hparameters, ?_⟩
      simp
  | branch =>
    simp only [ProbeMap.located, Findings.toMap, findsOf]
    rcases branches_construct h with ⟨hfalse, hsame⟩ | ⟨htrue, _, _, hadded⟩
    · rw [hsame, hother.2]
      exact .inl ⟨hfalse, rfl⟩
    · rw [hadded, hother.2]
      refine .inr ⟨htrue, _, .branch, ?_⟩
      simp

/-! ## All visits -/

/-- The probes of a module are those of the visits that find one, in their order: the ids of each
kind count up from the first id. -/
structure InOrder (ctx : Context) (visits : List Visit) (m : ProbeMap) : Prop where
  ids : ∀ kind, (m.located kind).map Prod.fst
    = (List.range (nodesOf kind visits).length).map fun i : Nat => ctx.idBase + i
  places : ∀ kind, List.Forall₂ (fun n probe => IsAt ctx n kind probe.2) (nodesOf kind visits)
    (m.located kind)

theorem nodesOf_append (kind : ProbeKind) (visits : List Visit) (v : Visit) :
    nodesOf kind (visits ++ [v])
      = nodesOf kind visits ++ if findsOf kind v then [v.node] else [] := by
  rw [nodesOf, List.filter_append, List.map_append, ← nodesOf, List.filter_singleton]
  cases findsOf kind v with
  | false => rfl
  | true => rfl

theorem InOrder.visit {front : List Visit} (h : InOrder ctx front (f.toMap path ctx.idBase))
    (hg : visit ctx f v = .ok g) : InOrder ctx (front ++ [v]) (g.toMap path ctx.idBase) where
  ids kind := by
    rw [nodesOf_append]
    rcases visit_located hg path kind with ⟨hfalse, hsame⟩ | ⟨htrue, loc, -, hadded⟩
    · rw [hsame, hfalse, h.ids kind]
      simp
    · rw [hadded, htrue, List.map_append, h.ids kind, (h.places kind).length_eq.symm]
      simp [List.range_succ]
  places kind := by
    rw [nodesOf_append]
    rcases visit_located hg path kind with ⟨hfalse, hsame⟩ | ⟨htrue, loc, hat, hadded⟩
    · rw [hsame, hfalse]
      simpa using h.places kind
    · rw [hadded, htrue]
      exact List.rel_append (h.places kind) (.cons hat .nil)

theorem InOrder.empty (ctx : Context) (path : String) :
    InOrder ctx [] (Findings.empty.toMap path ctx.idBase) where
  ids kind := by cases kind <;> rfl
  places kind := by cases kind <;> exact .nil

/-- The probes found in a tree are those of its visits, in order. -/
theorem findings_inOrder {root : Node} (path : String) (h : findings ctx root = .ok f) :
    InOrder ctx root.visits (f.toMap path ctx.idBase) := by
  have hvisits := Except.foldlM_keeps
    (P := fun front f => InOrder ctx front (f.toMap path ctx.idBase))
    (fun _ _ _ _ hf hg => hf.visit hg) [] (.empty ctx path) h
  rwa [List.nil_append] at hvisits

/-- In a nested tree, nodes of probes that are found later do not start further up. -/
theorem nodesOf_pairwise_start {root : Node} (hn : root.isNested = true) (kind : ProbeKind) :
    (nodesOf kind root.visits).Pairwise fun a b => a.start ≤ b.start := by
  rw [nodesOf, List.pairwise_map]
  exact (Node.visits_pairwise_start hn).sublist List.filter_sublist

end Analysis

namespace Analyzer
open Analysis

/-- A walk comes to the places of the traversal, and the probes of an analysis are those of its
visits, in order. The statements are the children of the chunks and blocks that it comes to. In a
nested tree, the nodes of the probes of a kind do not start further up from id to id. -/
theorem ofTree_inOrder (root : Node) :
    root.visits.map Visit.place = root.preorder 0 false
      ∧ (nodesOf .statement root.visits).Perm
        ((root.reached.filter Node.holdsStatements).flatMap Node.walkedChildren)
      ∧ (root.isNested = true → ∀ kind,
        (nodesOf kind root.visits).Pairwise fun a b => a.start ≤ b.start)
      ∧ ∀ {idBase : Int} {path language : String} {source : Bytes} {a : Analysis},
        ofTree idBase path language source root = .ok a →
          InOrder (.ofSource source idBase) root.visits a.map := by
  refine ⟨root.map_place_visits, root.visits_statements, nodesOf_pairwise_start, ?_⟩
  intro idBase path language source a h
  obtain ⟨found, hfound, rfl⟩ := ofTree_cases h
  exact findings_inOrder path hfound

theorem ofTree_inOrder_sample :
    sampleTree.visits.map Visit.place = sampleTree.preorder 0 false
      ∧ (nodesOf .branch sampleTree.visits).Pairwise (fun a b => a.start ≤ b.start)
      ∧ InOrder (.ofSource sampleSource 7) sampleTree.visits sampleMap := by
  obtain ⟨hplaces, -, hstart, hprobes⟩ := ofTree_inOrder sampleTree
  exact ⟨hplaces, hstart (by decide +kernel) .branch, hprobes ofTree_sample⟩

end Analyzer

end LuaCoverage
