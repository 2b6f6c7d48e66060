import LuaCoverage.Analysis.Basic
import LuaCoverage.Proofs.Distinct
import LuaCoverage.Proofs.Except

/-!
# What a visit finds

A visit finds at most a statement, a function and a branch. The branch is of one of three forms:
arms of an `if` statement, operands that are wrapped one by one, or a condition that is wrapped as
a whole. `Branching` says from which nodes it comes, apart from all that was found before, so that
facts about branches are facts about the tree.

Results:
* `construct_finds`, `construct_cases`: what a node adds by its kind.
* `visit_keeps`: a visit keeps what a statement, a function and its branch keep.
* `Site.sort_eq_of_perm`: sites that stand in one order only are sorted into it.
* `Analyzer.ofTree_cases`: what an analysis that succeeds is made of.
-/

namespace LuaCoverage
open LuaCoverage.Lua LuaCoverage.Text

namespace Analysis

/-- The probes found so far, as those of a module. -/
def Findings.toMap (path : String) (idBase : Int) (f : Findings) : ProbeMap :=
  ⟨path, idBase, f.statements, f.functions, f.branches⟩

/-- The nodes that make the paths of a branch. -/
inductive Form
  | arms (all : List Arm)
  | operands (all : List Node)
  | condition (n : Node)

namespace Form

def paths : Form → List Node
  | .arms all => all.map Arm.node
  | .operands all => all
  | .condition n => [n, n]

def sites (depth : Int) (id : Int) : Form → List Site
  | .arms all => armSites depth id 0 all
  | .operands all => wrapAll depth id 0 all
  | .condition n => wrap n depth .conditionOpener id none

/-- The nodes that a call is wrapped around. -/
def wrapped : Form → List Node
  | .arms _ => []
  | .operands all => all
  | .condition n => [n]

end Form

/-- The condition of a loop with a keyword in front of it. -/
def condition? (keyword : String) (n : Node) : Option Node :=
  (n.childInRole? .condition).or (namedBehind? keyword n.children)

/-- The branch that a visit finds: its type and its form. -/
inductive Branching (ctx : Context) (v : Visit) : String → Form → Prop
  | ifStatement {arms : List Arm} (kind : v.node.kind = .ifStatement)
      (found : ifArms ctx v.node = .ok arms) : Branching ctx v "if" (.arms arms)
  | chain {operator : String} {operands : List Node} (kind : v.node.kind = .binaryExpression)
      (head : v.isLink = false) (logical : v.node.logicalOperator? = some operator)
      (found : chainOperands ctx operator v.node = .ok operands) :
      Branching ctx v "binary-expr" (.operands operands)
  | ifExpression (kind : v.node.kind = .ifExpression) (enough : 2 ≤ (ifValues v.node).length) :
      Branching ctx v "cond-expr" (.operands (ifValues v.node))
  | whileStatement {condition : Node} (kind : v.node.kind = .whileStatement)
      (found : condition? "while" v.node = some condition) :
      Branching ctx v "while" (.condition condition)
  | repeatStatement {condition : Node} (kind : v.node.kind = .repeatStatement)
      (found : condition? "until" v.node = some condition) :
      Branching ctx v "repeat" (.condition condition)

/-- Adds the branch that a visit finds. -/
def addForm (ctx : Context) (v : Visit) (type : String) (form : Form) (f : Findings) : Findings :=
  branch ctx v.node type form.paths (form.sites (v.depth + 1)) f

/-- Adds a function whose site is at an offset. -/
def addFunctionAt (ctx : Context) (v : Visit) (name : String) (decl loc : Location) (offset : Nat)
    (f : Findings) : Findings :=
  let id := ctx.idBase + f.functions.length
  f.addFunction ⟨id, name, decl, loc, ctx.line v.node⟩
    ⟨offset, v.depth + 1, .statement, .function, id, none⟩

theorem expect_ok {α : Type} {ctx : Context} {n : Node} {d : Defect} {found : Option α} {a : α}
    (h : ctx.expect n d found = .ok a) : found = some a := by
  cases found with
  | none => cases h
  | some b => cases h; rfl

theorem function_cases {ctx : Context} {v : Visit} {f g : Findings}
    (h : function ctx v.node v.depth f = .ok g) :
    ∃ name decl loc offset, g = addFunctionAt ctx v name decl loc offset f := by
  obtain ⟨parameters, _, h⟩ := Except.bind_ok h
  obtain ⟨limit, _, h⟩ := Except.bind_ok h
  cases h
  exact ⟨_, _, _, _, rfl⟩

theorem loop_cases {ctx : Context} {v : Visit} {type keyword : String} {f g : Findings}
    (h : loop ctx type keyword v.node v.depth f = .ok g) :
    ∃ condition, condition? keyword v.node = some condition ∧
      g = addForm ctx v type (.condition condition) f := by
  obtain ⟨condition, hc, h⟩ := Except.bind_ok h
  cases h
  refine ⟨condition, expect_ok hc, ?_⟩
  simp [addForm, Form.paths, Form.sites]

def finds (v : Visit) : Bool :=
  match v.node.kind with
  | .ifStatement | .ifExpression | .whileStatement | .repeatStatement => true
  | .binaryExpression => !v.isLink && v.node.logicalOperator?.isSome
  | _ => false

def isFunction (n : Node) : Bool := n.kind == .functionDeclaration || n.kind == .functionDefinition

/-- What a node adds by its kind: a branch if the visit finds one, a function if it is one, and
otherwise nothing. -/
theorem construct_finds {ctx : Context} {v : Visit} {f g : Findings}
    (h : construct ctx v f = .ok g) :
    finds v = false
        ∧ (isFunction v.node = false ∧ g = f
          ∨ isFunction v.node = true
            ∧ ∃ name decl loc offset, g = addFunctionAt ctx v name decl loc offset f)
      ∨ finds v = true
        ∧ ∃ type form, Branching ctx v type form ∧ g = addForm ctx v type form f := by
  simp only [construct] at h
  split at h
  · next kind =>
    exact .inl ⟨by simp [finds, kind], .inr ⟨by simp [isFunction, kind], function_cases h⟩⟩
  · next kind =>
    exact .inl ⟨by simp [finds, kind], .inr ⟨by simp [isFunction, kind], function_cases h⟩⟩
  · next kind =>
    obtain ⟨arms, found, h⟩ := Except.bind_ok h
    cases h
    exact .inr ⟨by simp [finds, kind], _, _, .ifStatement kind found, rfl⟩
  · next kind =>
    simp only [ifExpression] at h
    split at h
    · cases h
    · next enough =>
      cases h
      exact .inr ⟨by simp [finds, kind], _, _, .ifExpression kind (by omega), rfl⟩
  · next kind =>
    obtain ⟨condition, found, rfl⟩ := loop_cases h
    exact .inr ⟨by simp [finds, kind], _, _, .whileStatement kind found, rfl⟩
  · next kind =>
    obtain ⟨condition, found, rfl⟩ := loop_cases h
    exact .inr ⟨by simp [finds, kind], _, _, .repeatStatement kind found, rfl⟩
  · next kind =>
    split at h
    · next link =>
      cases h
      exact .inl ⟨by simp [finds, kind, link], .inl ⟨by simp [isFunction, kind], rfl⟩⟩
    · next head =>
      have head : v.isLink = false := by simpa using head
      split at h
      · next operator logical =>
        obtain ⟨operands, found, h⟩ := Except.bind_ok h
        cases h
        exact .inr ⟨by simp [finds, kind, head, logical], _, _, .chain kind head logical found, rfl⟩
      · next logical =>
        cases h
        exact .inl ⟨by simp [finds, kind, logical], .inl ⟨by simp [isFunction, kind], rfl⟩⟩
  · next other =>
    cases h
    refine .inl ⟨?_, .inl ⟨?_, rfl⟩⟩
    · unfold finds
      split <;> simp_all
    · simp_all [isFunction]

/-- What a node adds by its kind: nothing, a function, or a branch. -/
theorem construct_cases {ctx : Context} {v : Visit} {f g : Findings}
    (h : construct ctx v f = .ok g) :
    g = f ∨ (∃ name decl loc offset, g = addFunctionAt ctx v name decl loc offset f)
      ∨ ∃ type form, Branching ctx v type form ∧ g = addForm ctx v type form f := by
  rcases construct_finds h with ⟨-, ⟨-, hnone⟩ | ⟨-, hfunction⟩⟩ | ⟨-, hbranch⟩
  · exact .inl hnone
  · exact .inr (.inl hfunction)
  · exact .inr (.inr hbranch)

/-- A visit keeps what a statement, a function and its branch keep. -/
theorem visit_keeps {ctx : Context} {v : Visit} {f g : Findings} {P : Findings → Prop}
    (statement : ∀ f, P f → P (statement ctx v.node v.depth f))
    (function : ∀ f name decl loc offset, P f → P (addFunctionAt ctx v name decl loc offset f))
    (branch : ∀ f type form, Branching ctx v type form → P f → P (addForm ctx v type form f))
    (hf : P f) (h : visit ctx f v = .ok g) : P g := by
  have hs : P (if v.isStatement then Analysis.statement ctx v.node v.depth f else f) := by
    split
    · exact statement f hf
    · exact hf
  rcases construct_cases h with rfl | ⟨name, decl, loc, offset, rfl⟩ | ⟨type, form, hb, rfl⟩
  · exact hs
  · exact function _ name decl loc offset hs
  · exact branch _ type form hb hs

/-- A loop whose condition is a chain of three operands, and the first of them one of two. -/
def sampleSource : Bytes := Utf8.ofString "while a and b or c or d do f() end"

def sampleTree : Node :=
  let name (role : Option Role) (start : Nat) := Node.mk .identifier role start (start + 1) []
  let token (text : String) (start : Nat) :=
    Node.mk (.token text) none start (start + text.length) []
  let both := Node.mk .binaryExpression (some .left) 6 13
    [name (some .left) 6, token "and" 8, name (some .right) 12]
  let front := Node.mk .binaryExpression (some .left) 6 18
    [both, token "or" 14, name (some .right) 17]
  let chain := Node.mk .binaryExpression (some .condition) 6 23
    [front, token "or" 19, name (some .right) 22]
  let call := Node.mk .functionCall none 27 30
    [name none 27, .mk .arguments none 28 30 [token "(" 28, token ")" 29]]
  .mk .chunk none 0 34 [.mk .whileStatement none 0 34
    [token "while" 0, chain, token "do" 24, .mk .block (some .body) 27 30 [call], token "end" 31]]

def sampleMap : ProbeMap :=
  let span (start stop : Nat) : Location := ⟨⟨1, start⟩, ⟨1, stop⟩⟩
  ⟨"m.lua", 7, [⟨7, span 0 34⟩, ⟨8, span 27 30⟩], [],
    [⟨7, "while", 1, span 0 34, [span 6 23, span 6 23]⟩,
      ⟨8, "binary-expr", 1, span 6 23, [span 6 13, span 17 18, span 22 23]⟩,
      ⟨9, "binary-expr", 1, span 6 13, [span 6 7, span 12 13]⟩]⟩

/-- The sites of `sampleTree` in the order in which they are written. At 6 three calls open and at
13 and 23 two close. -/
def sampleSites : List Site :=
  [⟨0, 1, .statement, .statement, 7, none⟩, ⟨6, 2, .conditionOpener, .branch, 7, none⟩,
    ⟨6, 3, .opener, .branch, 8, some 0⟩, ⟨6, 5, .opener, .branch, 9, some 0⟩,
    ⟨7, 5, .closer, .branch, 9, some 0⟩, ⟨12, 5, .opener, .branch, 9, some 1⟩,
    ⟨13, 5, .closer, .branch, 9, some 1⟩, ⟨13, 3, .closer, .branch, 8, some 0⟩,
    ⟨17, 3, .opener, .branch, 8, some 1⟩, ⟨18, 3, .closer, .branch, 8, some 1⟩,
    ⟨22, 3, .opener, .branch, 8, some 2⟩, ⟨23, 3, .closer, .branch, 8, some 2⟩,
    ⟨23, 2, .closer, .branch, 7, none⟩, ⟨27, 3, .statement, .statement, 8, none⟩]

def sample : Analysis := ⟨sampleMap, sampleSource, sampleSites, "lua"⟩

/-- What is found in `sampleTree`: the call around the second operand of a chain comes behind the
one around the first, and those of an inner chain behind all of these. -/
theorem findings_sample : ∃ f, findings (.ofSource sampleSource 7) sampleTree = .ok f
    ∧ f.toMap "m.lua" 7 = sampleMap ∧ sampleSites.Perm f.sites := by
  have hfound : (findings (.ofSource sampleSource 7) sampleTree).toOption.map
      (fun f => decide (f.toMap "m.lua" 7 = sampleMap ∧ sampleSites.Perm f.sites)) = some true := by
    decide +kernel
  obtain ⟨f, hf, htells⟩ := Except.exists_of_toOption hfound
  exact ⟨f, hf, of_decide_eq_true htells⟩

end Analysis

/-- Sites that stand in one order only are sorted into it. -/
theorem Site.sort_eq_of_perm {sites sorted : List Site} (hperm : sorted.Perm sites)
    (hsorted : sorted.Pairwise fun a b => a.precedes b = true ∧ b.precedes a = false) :
    sort sites = sorted :=
  mergeSort_eq_of_perm precedes_total (fun _ _ _ => precedes_trans) hperm hsorted

namespace Analyzer

/-- An analysis that succeeds is made of what is found in the tree. -/
theorem ofTree_cases {idBase : Int} {path language : String} {source : Bytes} {root : Node}
    {a : Analysis} (h : ofTree idBase path language source root = .ok a) :
    ∃ found, Analysis.findings (Analysis.Context.ofSource source idBase) root = .ok found
      ∧ a = ⟨found.toMap path idBase, source, Site.sort found.sites, language⟩ := by
  obtain ⟨found, hfound, h⟩ := Except.bind_ok h
  cases h
  exact ⟨found, hfound, rfl⟩

theorem ofTree_sample :
    ofTree 7 "m.lua" "lua" Analysis.sampleSource Analysis.sampleTree = .ok Analysis.sample := by
  obtain ⟨f, hf, hmap, hsites⟩ := Analysis.findings_sample
  have hsort : Site.sort f.sites = Analysis.sampleSites := Site.sort_eq_of_perm hsites (by decide)
  unfold ofTree
  rw [hf]
  change Except.ok (Analysis.mk (f.toMap "m.lua" 7) _ (Site.sort f.sites) _) = _
  rw [hmap, hsort]
  rfl

end Analyzer

end LuaCoverage
