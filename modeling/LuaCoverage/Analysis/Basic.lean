import LuaCoverage.Analysis.Site
import LuaCoverage.Decimal.Integer
import LuaCoverage.Lua.Dialect
import LuaCoverage.Lua.Chunk
import LuaCoverage.Lua.Walk
import LuaCoverage.Probe.Position

/-!
# Analysis of a module

The analysis finds the probes of a module and the sites where they are written.

* Every statement is a probe, with a site in front of it.
* Every function is a probe, with a site at the start of its body.
* An `if` statement is a branch with a path for each arm; a missing `else` counts as an arm.
* A chain of one logical operator is a branch with a path for each operand.
* An `if` expression is a branch with a path for each value.
* The condition of a loop is a branch with two paths: it held, or it did not.

The nodes of the tree are visited in source order, and the probes of each kind are numbered as
they are found.
-/

namespace LuaCoverage
open LuaCoverage.Text LuaCoverage.Lua

namespace Analysis

/-- Why a tree cannot be analysed. A tree of the grammar has only an `if` expression without two
arms to fear. -/
inductive Defect
  | noParameters
  | noFunctionEnd
  | noIfEnd
  | noArmStart (kind : String)
  | noOperands
  | noValues
  | noCondition (loop : String)
  deriving DecidableEq, Repr

def Defect.message : Defect → String
  | .noParameters => "function without a parameter list"
  | .noFunctionEnd => "function without 'end'"
  | .noIfEnd => "if statement without 'then' or 'end'"
  | .noArmStart kind => "malformed " ++ kind
  | .noOperands => "logical expression without two operands"
  | .noValues => "if expression without 'then' and 'else' arms"
  | .noCondition loop => loop ++ " loop without a condition"

/-- Why there is no analysis of a module. -/
inductive Cause
  | unknownLanguage (name : String)
  | notParsed (ranges : List (Nat × Nat))
  | defect (d : Defect) (line : Int)
  deriving DecidableEq, Repr

/-- Ranges of lines; a tree without any is flawed at an unknown place. -/
def rangesText (ranges : List (Nat × Nat)) : String :=
  if ranges.isEmpty then "unknown"
  else ", ".intercalate (ranges.map fun (first, last) =>
    Decimal.natText first ++ "-" ++ Decimal.natText last)

def Cause.message : Cause → String
  | .unknownLanguage name => "Unsupported language: " ++ name
  | .notParsed ranges => "source failed to parse (lines " ++ rangesText ranges ++ ")"
  | .defect d line => d.message ++ " at line " ++ Decimal.intText line

/-- What has been found so far in a module. -/
structure Findings where
  statements : List StatementProbe
  functions : List FunctionProbe
  branches : List BranchProbe
  sites : List Site
  deriving Repr

namespace Findings

def empty : Findings := ⟨[], [], [], []⟩

def addStatement (f : Findings) (probe : StatementProbe) (site : Site) : Findings :=
  { f with statements := f.statements ++ [probe], sites := f.sites ++ [site] }

def addFunction (f : Findings) (probe : FunctionProbe) (site : Site) : Findings :=
  { f with functions := f.functions ++ [probe], sites := f.sites ++ [site] }

def addBranch (f : Findings) (probe : BranchProbe) (sites : List Site) : Findings :=
  { f with branches := f.branches ++ [probe], sites := f.sites ++ sites }

end Findings

/-- What the analysis of a module knows from the start. -/
structure Context where
  source : Bytes
  lines : List Line
  idBase : Int

namespace Context

def ofSource (source : Bytes) (idBase : Int) : Context := ⟨source, Line.ofSource source, idBase⟩

/-- The span from the start of one node to the end of another. -/
def between (ctx : Context) (first last : Node) : Location :=
  ⟨Position.ofOffset ctx.lines first.start, Position.ofOffset ctx.lines last.stop⟩

def span (ctx : Context) (n : Node) : Location := ctx.between n n

/-- The line on which a node starts. -/
def line (ctx : Context) (n : Node) : Int := (Position.ofOffset ctx.lines n.start).line

def textOf (ctx : Context) (n : Node) : String :=
  Utf8.toStringLossy ((ctx.source.drop n.start).take (n.stop - n.start))

def fail {α : Type} (ctx : Context) (n : Node) (d : Defect) : Except Cause α :=
  .error (.defect d (ctx.line n))

/-- What has to be there, or a failure at a node. -/
def expect {α : Type} (ctx : Context) (n : Node) (d : Defect) (found : Option α) :
    Except Cause α :=
  match found with
  | some a => .ok a
  | none => ctx.fail n d

end Context

def statement (ctx : Context) (n : Node) (depth : Nat) (f : Findings) : Findings :=
  let id := ctx.idBase + f.statements.length
  f.addStatement ⟨id, ctx.span n⟩ ⟨n.start, depth, .statement, .statement, id, none⟩

def parameters? (n : Node) : Option Node :=
  (n.childInRole? .parameters).or (n.childOfKind? .parameters)

/-- Where the body of a function starts, if there is one, and its end if there is none. -/
def bodyLimit? (n : Node) : Option Node :=
  ((n.childInRole? .body).or (n.childOfKind? .block)).or (n.lastToken? "end")

/-- Where the body of a function starts: behind the parameters, and behind all that follows them
in front of the body, comments apart. -/
def bodyOffset (n parameters limit : Node) : Nat :=
  let heads := n.children.filter fun child =>
    child.kind != .comment && child.stop ≤ limit.start
  (heads.map Node.stop).foldl max parameters.stop

def function (ctx : Context) (n : Node) (depth : Nat) (f : Findings) : Except Cause Findings := do
  let parameters ← ctx.expect n .noParameters (parameters? n)
  let id := ctx.idBase + f.functions.length
  let (name, decl) :=
    match n.childInRole? .name with
    | some nameNode => (ctx.textOf nameNode, ctx.between n nameNode)
    | none => ("(anonymous_" ++ Decimal.intText id ++ ")", ctx.span (n.children.head?.getD n))
  let limit ← ctx.expect n .noFunctionEnd (bodyLimit? n)
  .ok (f.addFunction ⟨id, name, decl, ctx.between parameters n, ctx.line n⟩
    ⟨bodyOffset n parameters limit, depth + 1, .statement, .function, id, none⟩)

def wrap (operand : Node) (depth : Int) (style : Site.Style) (id : Int) (arm : Option Int) :
    List Site :=
  [⟨operand.start, depth, style, .branch, id, arm⟩,
    ⟨operand.stop, depth, .closer, .branch, id, arm⟩]

/-- The sites around the operands of a branch, whose arms are numbered from `arm` on. -/
def wrapAll (depth : Int) (id : Int) : (arm : Nat) → List Node → List Site
  | _, [] => []
  | arm, operand :: rest =>
    wrap operand depth .opener id (some arm) ++ wrapAll depth id (arm + 1) rest

/-- An arm of an `if` statement: its style, its offset, and the node that locates it. -/
structure Arm where
  style : Site.Style
  offset : Nat
  node : Node

/-- The sites of arms that are numbered from `arm` on. -/
def armSites (depth : Int) (id : Int) : (arm : Nat) → List Arm → List Site
  | _, [] => []
  | arm, a :: rest =>
    ⟨a.offset, depth, a.style, .branch, id, some (Int.ofNat arm)⟩
      :: armSites depth id (arm + 1) rest

/-- The arms of an `if` statement behind its first. -/
def laterArms (ctx : Context) : List Node → Except Cause (List Arm)
  | [] => .ok []
  | n :: rest =>
    match n.kind with
    | .elseifStatement => do
      let token ← ctx.expect n (.noArmStart "elseif_statement") (n.firstToken? "then")
      let more ← laterArms ctx rest
      .ok (⟨.statement, token.stop, n⟩ :: more)
    | .elseStatement => do
      let token ← ctx.expect n (.noArmStart "else_statement") (n.firstToken? "else")
      let more ← laterArms ctx rest
      .ok (⟨.statement, token.stop, n⟩ :: more)
    | _ => laterArms ctx rest

def ifArms (ctx : Context) (n : Node) : Except Cause (List Arm) := do
  let thenToken ← ctx.expect n .noIfEnd (n.firstToken? "then")
  let endToken ← ctx.expect n .noIfEnd (n.lastToken? "end")
  let first : Arm := ⟨.statement, thenToken.stop, (n.childOfKind? .block).getD thenToken⟩
  let later ← laterArms ctx n.namedChildren
  let hasElse := n.namedChildren.any fun child => child.kind == .elseStatement
  let missing : List Arm := if hasElse then [] else [⟨.elseArm, endToken.start, endToken⟩]
  .ok (first :: later ++ missing)

/-- Adds a branch whose paths are located by nodes. -/
def branch (ctx : Context) (n : Node) (type : String) (paths : List Node)
    (sites : (id : Int) → List Site) (f : Findings) : Findings :=
  let id := ctx.idBase + f.branches.length
  f.addBranch ⟨id, type, ctx.line n, ctx.span n, paths.map ctx.span⟩ (sites id)

def ifStatement (ctx : Context) (n : Node) (depth : Nat) (f : Findings) :
    Except Cause Findings := do
  let arms ← ifArms ctx n
  .ok (branch ctx n "if" (arms.map Arm.node) (fun id => armSites (depth + 1) id 0 arms) f)

/-- The operands of the chain of an operator that ends with a node. -/
def chainOperands (ctx : Context) (operator : String) (n : Node) : Except Cause (List Node) :=
  match _h : n.operands? with
  | none => ctx.fail n .noOperands
  | some (left, right) =>
    if left.isLogical operator then do
      let front ← chainOperands ctx operator left
      .ok (front ++ [right])
    else .ok [left, right]
termination_by n.size
decreasing_by exact Node.size_lt_of_mem (Node.operands?_fst_mem (by assumption))

def chain (ctx : Context) (operator : String) (n : Node) (depth : Nat) (f : Findings) :
    Except Cause Findings := do
  let operands ← chainOperands ctx operator n
  .ok (branch ctx n "binary-expr" operands (fun id => wrapAll (depth + 1) id 0 operands) f)

/-- The nodes that follow the words `then` and `else`. -/
def valuesIn : (expected : Bool) → List Node → List Node
  | _, [] => []
  | expected, n :: rest =>
    match n.kind with
    | .token text =>
      valuesIn (expected || text == "then" || text == "else") rest
    | .comment => valuesIn expected rest
    | _ => if expected then n :: valuesIn false rest else valuesIn false rest

def ifValues (n : Node) : List Node :=
  valuesIn false (n.children.flatMap fun child =>
    match child.kind with
    | .elseifClause | .elseClause => child.children
    | _ => [child])

def ifExpression (ctx : Context) (n : Node) (depth : Nat) (f : Findings) :
    Except Cause Findings :=
  let values := ifValues n
  if values.length < 2 then ctx.fail n .noValues
  else .ok (branch ctx n "cond-expr" values (fun id => wrapAll (depth + 1) id 0 values) f)

/-- The first named node behind a keyword that is not passed over. -/
def namedBehind? (keyword : String) (children : List Node) : Option Node :=
  (children.dropWhile fun child => child.kind != .token keyword).find? fun child =>
    child.isNamed && !child.isSkipped

def loop (ctx : Context) (type keyword : String) (n : Node) (depth : Nat) (f : Findings) :
    Except Cause Findings := do
  let found := (n.childInRole? .condition).or (namedBehind? keyword n.children)
  let condition ← ctx.expect n (.noCondition type) found
  .ok (branch ctx n type [condition, condition]
    (fun id => wrap condition (depth + 1) .conditionOpener id none) f)

/-- What a node adds by its kind. -/
def construct (ctx : Context) (v : Visit) (f : Findings) : Except Cause Findings :=
  let n := v.node
  match n.kind with
  | .functionDeclaration | .functionDefinition => function ctx n v.depth f
  | .ifStatement => ifStatement ctx n v.depth f
  | .ifExpression => ifExpression ctx n v.depth f
  | .whileStatement => loop ctx "while" "while" n v.depth f
  | .repeatStatement => loop ctx "repeat" "until" n v.depth f
  | .binaryExpression =>
    if v.isLink then .ok f
    else
      match n.logicalOperator? with
      | some operator => chain ctx operator n v.depth f
      | none => .ok f
  | _ => .ok f

def visit (ctx : Context) (f : Findings) (v : Visit) : Except Cause Findings :=
  construct ctx v (if v.isStatement then statement ctx v.node v.depth f else f)

def findings (ctx : Context) (root : Node) : Except Cause Findings :=
  root.visits.foldlM (visit ctx) Findings.empty

end Analysis

/-- A module with its probes, and the sites where they are written. -/
structure Analysis where
  map : ProbeMap
  source : Bytes
  sites : List Site
  language : String

/-- How modules are analysed: the parser, the language of those whose path does not show it, and
the first id. -/
structure Analyzer where
  parser : Parser
  language : String
  idBase : Int

/-- A module that could not be analysed. -/
structure AnalysisError where
  path : String
  cause : Analysis.Cause
  deriving Repr

def AnalysisError.message (e : AnalysisError) : String := e.path ++ ": " ++ e.cause.message

namespace Analyzer

def languageOf (a : Analyzer) (path : String) : String :=
  match Dialect.ofPath? (Path.ofString path) with
  | some d => d.name
  | none => a.language

/-- The analysis of a module whose tree is given. -/
def ofTree (idBase : Int) (path language : String) (source : Bytes) (root : Node) :
    Except Analysis.Cause Analysis := do
  let found ← Analysis.findings (Analysis.Context.ofSource source idBase) root
  .ok ⟨⟨path, idBase, found.statements, found.functions, found.branches⟩, source,
    Site.sort found.sites, language⟩

/-- The tree of a source in a language, if there is such a language and the source fits. -/
def parse (a : Analyzer) (language : String) (source : Bytes) : Except Analysis.Cause Node :=
  match Dialect.ofName? language with
  | none => .error (.unknownLanguage language)
  | some dialect => (a.parser dialect source).mapError fun flawed => .notParsed flawed.ranges

def analyze (a : Analyzer) (source : Bytes) (path : String) : Except AnalysisError Analysis :=
  let language := a.languageOf path
  let result := do
    let root ← a.parse language source
    ofTree a.idBase path language source root
  result.mapError fun cause => ⟨path, cause⟩

end Analyzer

end LuaCoverage
