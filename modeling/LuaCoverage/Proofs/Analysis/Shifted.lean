import LuaCoverage.Proofs.Analysis.Branching

/-!
# Analysis with another first id

Ids count up from the first id of a module, and nothing else in an analysis depends on it, apart
from the names of anonymous functions, which tell their ids. So an analysis whose first id is
greater by some amount finds the same probes and sites with ids that are greater by as much. Which
functions are anonymous can be read off the tree; it is not a matter of how a name is spelt.

Results:
* `Analysis.construct_shift`, `Analysis.visit_shift`: what a visit adds.
* `Analysis.findings_shift`: what is found in a tree.
* `Analyzer.ofTree_shift`: the analysis of a tree.
-/

namespace LuaCoverage
open LuaCoverage.Lua LuaCoverage.Text

/-! ## Greater ids -/

/-- The name of a function that has none. -/
def FunctionProbe.anonymousName (id : Int) : String := "(anonymous_" ++ Decimal.intText id ++ ")"

/-- The name that a function has when its id grows by `k`. -/
def FunctionProbe.shiftName (k : Int) (anonymous : Int → Bool) (id : Int) (name : String) :
    String :=
  if anonymous id then anonymousName (id + k) else name

/-- A statement whose id is greater by `k`. -/
def StatementProbe.shift (k : Int) (p : StatementProbe) : StatementProbe :=
  { p with id := p.id + k }

/-- A function whose id is greater by `k`. -/
def FunctionProbe.shift (k : Int) (anonymous : Int → Bool) (p : FunctionProbe) : FunctionProbe :=
  { p with id := p.id + k, name := shiftName k anonymous p.id p.name }

/-- A branch whose id is greater by `k`. -/
def BranchProbe.shift (k : Int) (p : BranchProbe) : BranchProbe := { p with id := p.id + k }

/-- A site of a probe whose id is greater by `k`. -/
def Site.shift (k : Int) (s : Site) : Site := { s with id := s.id + k }

/-- A module whose ids are greater by `k`. -/
def ProbeMap.shift (k : Int) (anonymous : Int → Bool) (m : ProbeMap) : ProbeMap where
  path := m.path
  idBase := m.idBase + k
  statements := m.statements.map (StatementProbe.shift k)
  functions := m.functions.map (FunctionProbe.shift k anonymous)
  branches := m.branches.map (BranchProbe.shift k)

/-- An analysis whose ids are greater by `k`. -/
def Analysis.shift (k : Int) (anonymous : Int → Bool) (a : Analysis) : Analysis :=
  { a with map := a.map.shift k anonymous, sites := a.sites.map (Site.shift k) }

theorem Site.sort_map_shift (k : Int) (sites : List Site) :
    sort (sites.map (Site.shift k)) = (sort sites).map (Site.shift k) :=
  (List.map_mergeSort (f := Site.shift k) fun _ _ _ _ => rfl).symm

namespace Analysis
variable {k : Int} {anonymous : Int → Bool} {ctx : Context} {f g : Findings} {v : Visit} {n : Node}

/-- What was found, with ids that are greater by `k`. -/
def Findings.shift (k : Int) (anonymous : Int → Bool) (f : Findings) : Findings where
  statements := f.statements.map (StatementProbe.shift k)
  functions := f.functions.map (FunctionProbe.shift k anonymous)
  branches := f.branches.map (BranchProbe.shift k)
  sites := f.sites.map (Site.shift k)

/-- What is known from the start if the first id is greater by `k`. -/
def Context.shift (k : Int) (ctx : Context) : Context := { ctx with idBase := ctx.idBase + k }

/-! ## What does not depend on ids -/

theorem laterArms_shift (ctx : Context) (nodes : List Node) :
    laterArms (ctx.shift k) nodes = laterArms ctx nodes := by
  induction nodes with
  | nil => rfl
  | cons n rest ih =>
    unfold laterArms
    rw [ih]
    rfl

theorem ifArms_shift (ctx : Context) (n : Node) : ifArms (ctx.shift k) n = ifArms ctx n := by
  unfold ifArms
  simp only [laterArms_shift]
  rfl

theorem chainOperands_shift (ctx : Context) (operator : String) (n : Node) :
    chainOperands (ctx.shift k) operator n = chainOperands ctx operator n := by
  induction n using chainOperands.induct operator with
  | case1 n hnone =>
    unfold chainOperands
    split
    · rfl
    · next hsome => rw [hnone] at hsome; cases hsome
  | case2 n left right hsome hlink ih =>
    unfold chainOperands
    split
    · rfl
    · next hsome' =>
      cases hsome.symm.trans hsome'
      rw [ih]
  | case3 n left right hsome hlink =>
    unfold chainOperands
    split
    · rfl
    · next hsome' =>
      cases hsome.symm.trans hsome'
      rw [if_neg hlink, if_neg hlink]

/-! ## Sites -/

theorem map_shift_wrap (k : Int) (operand : Node) (depth : Int) (style : Site.Style) (id : Int)
    (arm : Option Int) :
    (wrap operand depth style id arm).map (Site.shift k) = wrap operand depth style (id + k) arm :=
  rfl

theorem map_shift_wrapAll (k depth id : Int) (arm : Nat) (operands : List Node) :
    (wrapAll depth id arm operands).map (Site.shift k) = wrapAll depth (id + k) arm operands := by
  induction operands generalizing arm with
  | nil => rfl
  | cons operand rest ih => rw [wrapAll, List.map_append, map_shift_wrap, ih, wrapAll]

theorem map_shift_armSites (k depth id : Int) (arm : Nat) (arms : List Arm) :
    (armSites depth id arm arms).map (Site.shift k) = armSites depth (id + k) arm arms := by
  induction arms generalizing arm with
  | nil => rfl
  | cons a rest ih =>
    rw [armSites, List.map_cons, ih, armSites]
    rfl

/-! ## Visits -/

theorem statement_shift (ctx : Context) (n : Node) (depth : Nat) (f : Findings) :
    statement (ctx.shift k) n depth (f.shift k anonymous)
      = (statement ctx n depth f).shift k anonymous := by
  have hid : ctx.idBase + k + f.statements.length = ctx.idBase + f.statements.length + k :=
    Int.add_right_comm ..
  simp only [statement, Findings.addStatement, Findings.shift, Context.shift, List.length_map,
    List.map_append, List.map_singleton, hid]
  rfl

theorem branch_shift (ctx : Context) (n : Node) (type : String) (paths : List Node)
    {sites : Int → List Site} (hsites : ∀ id, (sites id).map (Site.shift k) = sites (id + k))
    (f : Findings) :
    branch (ctx.shift k) n type paths sites (f.shift k anonymous)
      = (branch ctx n type paths sites f).shift k anonymous := by
  have hid : ctx.idBase + k + f.branches.length = ctx.idBase + f.branches.length + k :=
    Int.add_right_comm ..
  simp only [branch, Findings.addBranch, Findings.shift, Context.shift, List.length_map,
    List.map_append, List.map_singleton, hid, hsites]
  rfl

theorem addFunctionAt_shift (k : Int) (anonymous : Int → Bool) (ctx : Context) (v : Visit)
    (name : String) (decl loc : Location) (offset : Nat) (f : Findings) :
    addFunctionAt (ctx.shift k) v
        (FunctionProbe.shiftName k anonymous (ctx.idBase + f.functions.length) name) decl loc offset
        (f.shift k anonymous)
      = (addFunctionAt ctx v name decl loc offset f).shift k anonymous := by
  have hid : ctx.idBase + k + f.functions.length = ctx.idBase + f.functions.length + k :=
    Int.add_right_comm ..
  simp only [addFunctionAt, Findings.addFunction, Findings.shift, Context.shift, List.length_map,
    List.map_append, List.map_singleton, hid]
  rfl

/-- A function that is found next has to be taken as anonymous if its node has no name. -/
theorem function_shift
    (hname : anonymous (ctx.idBase + f.functions.length) = (v.node.childInRole? .name).isNone) :
    function (ctx.shift k) v.node v.depth (f.shift k anonymous)
      = (function ctx v.node v.depth f).map (Findings.shift k anonymous) := by
  have hadd := fun name decl parameters limit =>
    addFunctionAt_shift k anonymous ctx v name decl (ctx.between parameters v.node)
      (bodyOffset v.node parameters limit) f
  unfold function
  cases parameters? v.node with
  | none => rfl
  | some parameters =>
    cases bodyLimit? v.node with
    | none => rfl
    | some limit =>
      cases hnode : v.node.childInRole? .name with
      | some nameNode =>
        specialize hadd (ctx.textOf nameNode) (ctx.between v.node nameNode) parameters limit
        rw [FunctionProbe.shiftName, hname, hnode] at hadd
        exact congrArg Except.ok hadd
      | none =>
        have hid : (ctx.shift k).idBase + (f.shift k anonymous).functions.length
            = ctx.idBase + f.functions.length + k := by
          rw [Findings.shift, List.length_map]
          exact Int.add_right_comm ..
        specialize hadd (FunctionProbe.anonymousName (ctx.idBase + f.functions.length))
          (ctx.span (v.node.children.head?.getD v.node)) parameters limit
        rw [FunctionProbe.shiftName, hname, hnode, ← hid] at hadd
        exact congrArg Except.ok hadd

theorem loop_shift (ctx : Context) (type keyword : String) (n : Node) (depth : Nat) (f : Findings) :
    loop (ctx.shift k) type keyword n depth (f.shift k anonymous)
      = (loop ctx type keyword n depth f).map (Findings.shift k anonymous) := by
  unfold loop
  cases (n.childInRole? .condition).or (namedBehind? keyword n.children) with
  | none => rfl
  | some condition =>
    have hsites := fun id =>
      map_shift_wrap k condition (depth + 1) .conditionOpener id none
    exact congrArg Except.ok (branch_shift ctx n type _ hsites f)

/-- What a node adds by its kind. -/
theorem construct_shift (hname : isFunction v.node = true →
      anonymous (ctx.idBase + f.functions.length) = (v.node.childInRole? .name).isNone) :
    construct (ctx.shift k) v (f.shift k anonymous)
      = (construct ctx v f).map (Findings.shift k anonymous) := by
  unfold construct
  dsimp only
  split
  · next kind => exact function_shift (hname (by simp [isFunction, kind]))
  · next kind => exact function_shift (hname (by simp [isFunction, kind]))
  · unfold ifStatement
    rw [ifArms_shift]
    cases ifArms ctx v.node with
    | error e => rfl
    | ok arms =>
      have hsites := fun id => map_shift_armSites k (v.depth + 1) id 0 arms
      exact congrArg Except.ok (branch_shift ctx v.node "if" _ hsites f)
  · unfold ifExpression
    dsimp only
    split
    · rfl
    · have hsites := fun id => map_shift_wrapAll k (v.depth + 1) id 0 (ifValues v.node)
      exact congrArg Except.ok (branch_shift ctx v.node "cond-expr" _ hsites f)
  · exact loop_shift ..
  · exact loop_shift ..
  · split
    · rfl
    · split
      · next operator _ =>
        unfold chain
        rw [chainOperands_shift]
        cases chainOperands ctx operator v.node with
        | error e => rfl
        | ok operands =>
          have hsites := fun id => map_shift_wrapAll k (v.depth + 1) id 0 operands
          exact congrArg Except.ok (branch_shift ctx v.node "binary-expr" _ hsites f)
      · rfl
  · rfl

theorem visit_shift (hname : isFunction v.node = true →
      anonymous (ctx.idBase + f.functions.length) = (v.node.childInRole? .name).isNone) :
    visit (ctx.shift k) (f.shift k anonymous) v
      = (visit ctx f v).map (Findings.shift k anonymous) := by
  unfold visit
  split
  · rw [statement_shift]
    exact construct_shift hname
  · exact construct_shift hname

/-! ## Trees -/

/-- The functions among visited nodes, in order. -/
def functionsIn (visits : List Visit) : List Node := (visits.map Visit.node).filter isFunction

/-- Whether the function of a tree that has an id, if ids start at zero, has no name. -/
def isAnonymous (root : Node) (id : Int) : Bool :=
  ((functionsIn root.visits)[id.toNat]?).any fun n => (n.childInRole? .name).isNone

theorem isFunction_of_finds (h : finds v = true) : isFunction v.node = false := by
  unfold finds at h
  split at h <;> simp_all [isFunction]

/-- A visit finds a function if its node is one. -/
theorem length_functions_visit (h : visit ctx f v = .ok g) :
    g.functions.length = f.functions.length + (functionsIn [v]).length := by
  have hstatement : (if v.isStatement then statement ctx v.node v.depth f else f).functions
      = f.functions := by
    split <;> rfl
  rcases construct_finds h with ⟨-, ⟨hother, rfl⟩ | ⟨hfunction, name, decl, loc, offset, rfl⟩⟩
    | ⟨hfinds, type, form, -, rfl⟩
  · simp [hstatement, functionsIn, hother]
  · simp [addFunctionAt, Findings.addFunction, hstatement, functionsIn, hfunction]
  · simp [addForm, branch, Findings.addBranch, hstatement, functionsIn, isFunction_of_finds hfinds]

/-- What is found in a tree if the first id is `k` and not zero. -/
theorem findings_shift (hbase : ctx.idBase = 0) (root : Node) :
    findings (ctx.shift k) root
      = (findings ctx root).map (Findings.shift k (isAnonymous root)) := by
  -- Induction on the visits that are left; the functions found are those that were visited.
  have hleft : ∀ front back f, front ++ back = root.visits →
      f.functions.length = (functionsIn front).length →
      back.foldlM (visit (ctx.shift k)) (f.shift k (isAnonymous root))
        = (back.foldlM (visit ctx) f).map (Findings.shift k (isAnonymous root)) := by
    intro front back
    induction back generalizing front with
    | nil => exact fun _ _ _ => rfl
    | cons v rest ih =>
      intro f hvisits hlength
      have hname : isFunction v.node = true →
          isAnonymous root (ctx.idBase + f.functions.length)
            = (v.node.childInRole? .name).isNone := by
        intro hfunction
        have hat : (functionsIn root.visits)[f.functions.length]? = some v.node := by
          rw [← hvisits, hlength, functionsIn, functionsIn, List.map_append, List.filter_append,
            List.getElem?_append_right (Nat.le_refl _), Nat.sub_self, List.map_cons,
            List.filter_cons_of_pos hfunction]
          rfl
        rw [hbase, Int.zero_add, isAnonymous, Int.toNat_natCast, hat]
        rfl
      rw [List.foldlM_cons, List.foldlM_cons, visit_shift hname]
      cases hg : visit ctx f v with
      | error e => rfl
      | ok g =>
        refine ih (front ++ [v]) g (by rw [← hvisits, List.append_assoc]; rfl) ?_
        rw [length_functions_visit hg, hlength, functionsIn, functionsIn, functionsIn,
          List.map_append, List.filter_append, List.length_append]
  exact hleft [] root.visits Findings.empty rfl rfl

end Analysis

namespace Analyzer

/-- The analysis of a tree if the first id is `k` and not zero. -/
theorem ofTree_shift (k : Int) (path language : String) (source : Bytes) (root : Node) :
    ofTree k path language source root = (ofTree 0 path language source root).map
      (Analysis.shift k (Analysis.isAnonymous root)) := by
  have hcontext : Analysis.Context.ofSource source k
      = (Analysis.Context.ofSource source 0).shift k := by
    simp [Analysis.Context.ofSource, Analysis.Context.shift]
  unfold ofTree
  rw [hcontext, Analysis.findings_shift rfl]
  cases Analysis.findings (Analysis.Context.ofSource source 0) root with
  | error e => rfl
  | ok found =>
    have hsites := Site.sort_map_shift k found.sites
    simp [Except.map, Analysis.shift, ProbeMap.shift, Analysis.Findings.shift, hsites]

/-- The tree of a module, if its language is known and it can be parsed. -/
def root? (parser : Parser) (language : String) (source : Bytes) (path : String) : Option Node :=
  let a : Analyzer := ⟨parser, language, 0⟩
  (a.parse (a.languageOf path) source).toOption

/-- Whether the function of a module that has an id, if ids start at zero, has no name. -/
def isAnonymous (parser : Parser) (language : String) (source : Bytes) (path : String)
    (id : Int) : Bool :=
  (root? parser language source path).any fun root => Analysis.isAnonymous root id

/-- The analysis of a module if the first id is `k` and not zero. -/
theorem analyze_shift (k : Int) (parser : Parser) (language : String) (source : Bytes)
    (path : String) :
    analyze ⟨parser, language, k⟩ source path = (analyze ⟨parser, language, 0⟩ source path).map
      (Analysis.shift k (isAnonymous parser language source path)) := by
  have hlanguage : languageOf ⟨parser, language, k⟩ path = languageOf ⟨parser, language, 0⟩ path := by
    unfold languageOf
    cases Dialect.ofPath? (Path.ofString path) <;> rfl
  have hparse (name : String) : parse ⟨parser, language, k⟩ name source
      = parse ⟨parser, language, 0⟩ name source := rfl
  unfold analyze isAnonymous root?
  simp only [hlanguage, hparse]
  generalize languageOf ⟨parser, language, 0⟩ path = name
  cases parse ⟨parser, language, 0⟩ name source with
  | error cause => rfl
  | ok root =>
    simp only [Except.toOption, Option.any_some, Except.ok_bind, ofTree_shift k]
    cases ofTree 0 path name source root with
    | error cause => rfl
    | ok a => rfl

end Analyzer
end LuaCoverage
