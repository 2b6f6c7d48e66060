import LuaCoverage.Analysis.Basic
import LuaCoverage.Proofs.Analysis.Branching
import LuaCoverage.Proofs.Analysis.Nesting
import LuaCoverage.Proofs.Lua.Preorder

/-!
# Places

Where the sites of a tree stand, and what is written there, told without the ids and depths of the
sites: each node has places of its own, and those of the nodes below.

The sites that are found in a tree stand at the places of the tree, apart from their order. A visit
finds the sites at the places of its node; only the operands of a chain are all found at its head,
while their places are those of the expressions of its spine.

Results:
* `placesIn_append`: nodes that follow each other have the places of both.
* `places_of_isPlain`: most nodes have no places of their own.
* `places_eq`: the places of a tree are those of the nodes that a walk comes to.
* `construct_places`: what a visit finds by the kind of its node.
* `findings_places`: what is found in a tree.
-/

namespace LuaCoverage
open LuaCoverage.Lua

/-- What is written at a site, as far as the grammar is concerned. -/
inductive Site.Slot
  | statement
  | elseArm
  | opener
  | closer
  deriving DecidableEq, Repr

def Site.slot (s : Site) : Site.Slot :=
  match s.style with
  | .statement => .statement
  | .elseArm => .elseArm
  | .opener | .conditionOpener => .opener
  | .closer => .closer

namespace Analysis

abbrev Spot := Nat × Site.Slot

def Spot.ofSite (s : Site) : Spot := (s.offset, s.slot)

/-- The places around an operand. -/
def around (n : Node) : List Spot := [(n.start, .opener), (n.stop, .closer)]

/-- The place behind a token. -/
def behind (token : Option Node) : List Spot := token.toList.map fun t => (t.stop, .statement)

/-- The places of the arms of an `if` statement behind its first. -/
def armPlaces (nodes : List Node) : List Spot :=
  nodes.flatMap fun n =>
    match n.kind with
    | .elseifStatement => behind (n.firstToken? "then")
    | .elseStatement => behind (n.firstToken? "else")
    | _ => []

/-- The places around the operands of an expression. A left operand that has the same operator is
none: its own operands are those of the chain. -/
def operandPlaces (n : Node) : List Spot :=
  match n.logicalOperator?, n.operands? with
  | some operator, some (left, right) =>
    (if left.isLogical operator then [] else around left) ++ around right
  | _, _ => []

/-- The place where the body of a function starts. -/
def bodyPlaces (n : Node) : List Spot :=
  match parameters? n, bodyLimit? n with
  | some parameters, some limit => [(bodyOffset n parameters limit, .statement)]
  | _, _ => []

def conditionPlaces (keyword : String) (n : Node) : List Spot :=
  ((n.childInRole? .condition).or (namedBehind? keyword n.children)).toList.flatMap around

/-- The place of an `else` arm that is missing. -/
def missingPlaces (n : Node) : List Spot :=
  if n.namedChildren.any fun child => child.kind == .elseStatement then []
  else (n.lastToken? "end").toList.map fun t => (t.start, .elseArm)

/-- The places of a node by its kind. -/
def ownPlaces (n : Node) : List Spot :=
  match n.kind with
  | .functionDeclaration | .functionDefinition => bodyPlaces n
  | .ifStatement => behind (n.firstToken? "then") ++ armPlaces n.namedChildren ++ missingPlaces n
  | .ifExpression => (ifValues n).flatMap around
  | .whileStatement => conditionPlaces "while" n
  | .repeatStatement => conditionPlaces "until" n
  | .binaryExpression => operandPlaces n
  | _ => []

/-- Whether the walk comes to a node. -/
def isWalked (n : Node) : Bool := n.isNamed && !n.isSkipped

mutual
/-- The places of a node and of the nodes below. -/
def places : Node → List Spot
  | .mk kind role start stop children =>
    ownPlaces (.mk kind role start stop children)
      ++ placesIn (kind == .chunk || kind == .block) children
/-- The places of nodes, which are statements or not. -/
def placesIn (statements : Bool) : List Node → List Spot
  | [] => []
  | n :: rest =>
    (if isWalked n then (if statements then [(n.start, .statement)] else []) ++ places n else [])
      ++ placesIn statements rest
end

variable {statements : Bool}

@[simp] theorem placesIn_nil : placesIn statements [] = [] := by rw [placesIn]

theorem placesIn_cons (n : Node) (rest : List Node) : placesIn statements (n :: rest)
    = (if isWalked n then (if statements then [(n.start, .statement)] else []) ++ places n else [])
      ++ placesIn statements rest := by
  rw [placesIn]

@[simp] theorem placesIn_append (a b : List Node) :
    placesIn statements (a ++ b) = placesIn statements a ++ placesIn statements b := by
  induction a with
  | nil => simp
  | cons n rest ih => simp only [List.cons_append, placesIn_cons, ih, List.append_assoc]

/-- Whether a node of a kind has no places of its own, and no statements. -/
def isPlain (kind : NodeKind) : Bool :=
  match kind with
  | .functionDeclaration | .functionDefinition | .ifStatement | .ifExpression | .whileStatement
  | .repeatStatement | .binaryExpression | .chunk | .block => false
  | _ => true

theorem places_of_isPlain {kind : NodeKind} {role : Option Role} {start stop : Nat}
    {children : List Node} (h : isPlain kind = true) :
    places (.mk kind role start stop children) = placesIn false children := by
  rw [places]
  cases kind <;> first | rfl | cases h

@[simp] theorem places_withRole (role : Role) (n : Node) : places (n.withRole role) = places n := by
  obtain ⟨kind, role', start, stop, children⟩ := n
  rw [Node.withRole, places, places]
  rfl

@[simp] theorem isWalked_withRole (role : Role) (n : Node) :
    isWalked (n.withRole role) = isWalked n := by
  cases n
  rfl

open scoped List

variable {ctx : Context} {v : Visit} {f g : Findings}

/-! ## Places by nodes -/

/-- The place in front of a node that is a statement. -/
def statementPlaces (n : Node) (isStatement : Bool) : List Spot :=
  if isStatement then [(n.start, .statement)] else []

theorem places_mk (n : Node) : places n = ownPlaces n ++ placesIn n.holdsStatements n.children := by
  obtain ⟨kind, role, start, stop, children⟩ := n
  rw [places]
  rfl

theorem placesIn_eq (isStatement : Bool) (nodes : List Node) : placesIn isStatement nodes
    = (nodes.filter Node.isWalked).flatMap fun n => statementPlaces n isStatement ++ places n := by
  induction nodes with
  | nil => simp
  | cons n rest ih =>
    have hwalked : isWalked n = n.isWalked := Bool.and_comm ..
    rw [placesIn_cons, ih, hwalked]
    by_cases hn : n.isWalked = true
    · rw [if_pos hn, List.filter_cons_of_pos hn, List.flatMap_cons]
      rfl
    · rw [if_neg hn, List.filter_cons_of_neg hn, List.nil_append]

theorem statementPlaces_append_places (n : Node) (depth : Nat) (isStatement : Bool) :
    statementPlaces n isStatement ++ places n = (n.preorder depth isStatement).flatMap fun p =>
      statementPlaces p.node p.isStatement ++ ownPlaces p.node := by
  induction hsize : n.size using Nat.strongRecOn generalizing n depth isStatement with
  | ind size ih =>
    rw [places_mk, placesIn_eq, Node.preorder_eq, List.flatMap_cons, List.append_assoc,
      List.flatMap_assoc, ← Node.walkedChildren_eq]
    congr 2
    refine List.flatMap_congr fun child hchild => ?_
    exact ih _ (hsize ▸ Node.size_lt_of_mem (n.walkedChildren_sublist.subset hchild)) child
      (depth + 1) n.holdsStatements rfl

/-- The places of a tree are those of the nodes that a walk comes to. -/
theorem places_eq (root : Node) : places root = root.visits.flatMap fun v =>
    statementPlaces v.node v.isStatement ++ ownPlaces v.node := by
  have hplaces := statementPlaces_append_places root 0 false
  rw [← Node.map_place_visits, List.flatMap_map] at hplaces
  exact hplaces

/-! ## Places by visits -/

/-- The places of a spine. -/
def spinePlaces (n : Node) : List Spot := n.spine.flatMap operandPlaces

/-- The places where a visit finds sites by the kind of its node. -/
def placesBy (v : Visit) : List Spot :=
  if v.isHead then spinePlaces v.node else if v.node.isAndOr then [] else ownPlaces v.node

theorem ownPlaces_of_isAndOr {n : Node} (h : n.isAndOr = true) : ownPlaces n = operandPlaces n := by
  obtain ⟨operator, hop⟩ := Option.isSome_iff_exists.1 h
  rw [ownPlaces, Node.kind_of_logicalOperator? hop]

theorem map_ofSite_wrapAll (depth id : Int) (arm : Nat) (operands : List Node) :
    (wrapAll depth id arm operands).map Spot.ofSite = operands.flatMap around := by
  induction operands generalizing arm with
  | nil => rfl
  | cons operand rest ih =>
    rw [wrapAll, List.map_append, ih, List.flatMap_cons]
    rfl

def Arm.place (a : Arm) : Spot := Spot.ofSite ⟨a.offset, 0, a.style, .branch, 0, none⟩

theorem map_ofSite_armSites (depth id : Int) (arm : Nat) (arms : List Arm) :
    (armSites depth id arm arms).map Spot.ofSite = arms.map Arm.place := by
  induction arms generalizing arm with
  | nil => rfl
  | cons a rest ih =>
    rw [armSites, List.map_cons, ih, List.map_cons]
    rfl

/-- The operands of a chain are those that the expressions of its spine leave. -/
theorem places_chainOperands {operator : String} {n : Node} {operands : List Node}
    (hop : n.logicalOperator? = some operator)
    (h : chainOperands ctx operator n = .ok operands) :
    (operands.flatMap around).Perm (spinePlaces n) := by
  fun_induction chainOperands ctx operator n generalizing operands with
  | case1 n hnone => cases h
  | case2 n left right found hlink ih =>
    obtain ⟨front, hfront, h⟩ := Except.bind_ok h
    cases h
    have hown : operandPlaces n = around right := by simp [operandPlaces, hop, found, hlink]
    have hspine : n.spine = n :: left.spine := by
      rw [Node.spine, Node.inner_of_some (Node.chainLink?_eq hop found hlink), Node.spine]
    rw [spinePlaces, hspine, List.flatMap_cons, hown, List.flatMap_append, List.flatMap_singleton]
    exact ((ih (beq_iff_eq.1 hlink) hfront).append_right _).trans List.perm_append_comm
  | case3 n left right found hends =>
    cases h
    have hown : operandPlaces n = around left ++ around right := by
      simp [operandPlaces, hop, found, hends]
    have hspine : n.spine = [n] := by
      have hnone : n.chainLink? = none := by simp [Node.chainLink?, hop, found, hends]
      rw [Node.spine, Node.inner_of_none hnone]
    rw [spinePlaces, hspine, List.flatMap_singleton, hown, List.flatMap_cons,
      List.flatMap_singleton]

theorem armPlaces_cons (n : Node) (rest : List Node) : armPlaces (n :: rest)
    = (match n.kind with
        | .elseifStatement => behind (n.firstToken? "then")
        | .elseStatement => behind (n.firstToken? "else")
        | _ => []) ++ armPlaces rest := by
  rw [armPlaces, List.flatMap_cons]
  rfl

theorem places_laterArms {nodes : List Node} {arms : List Arm}
    (h : laterArms ctx nodes = .ok arms) : arms.map Arm.place = armPlaces nodes := by
  fun_induction laterArms ctx nodes generalizing arms with
  | case1 => cases h; rfl
  | case2 n rest kind ih =>
    obtain ⟨token, htoken, h⟩ := Except.bind_ok h
    obtain ⟨more, hmore, h⟩ := Except.bind_ok h
    cases h
    rw [List.map_cons, ih hmore, armPlaces_cons, kind, expect_ok htoken]
    rfl
  | case3 n rest kind ih =>
    obtain ⟨token, htoken, h⟩ := Except.bind_ok h
    obtain ⟨more, hmore, h⟩ := Except.bind_ok h
    cases h
    rw [List.map_cons, ih hmore, armPlaces_cons, kind, expect_ok htoken]
    rfl
  | case4 n rest helseif helse ih =>
    rw [ih h, armPlaces_cons]
    split
    · contradiction
    · contradiction
    · rfl

theorem places_ifArms {n : Node} {arms : List Arm} (h : ifArms ctx n = .ok arms) :
    arms.map Arm.place
      = behind (n.firstToken? "then") ++ armPlaces n.namedChildren ++ missingPlaces n := by
  obtain ⟨thenToken, hthen, h⟩ := Except.bind_ok h
  obtain ⟨endToken, hend, h⟩ := Except.bind_ok h
  obtain ⟨later, hlater, h⟩ := Except.bind_ok h
  cases h
  rw [expect_ok hthen, List.cons_append, List.map_cons, List.map_append, places_laterArms hlater,
    missingPlaces, expect_ok hend]
  split <;> rfl

theorem places_condition? {keyword : String} {n condition : Node}
    (h : condition? keyword n = some condition) : conditionPlaces keyword n = around condition := by
  rw [condition?] at h
  rw [conditionPlaces, h]
  exact List.flatMap_singleton ..

theorem places_form {type : String} {form : Form} (h : Branching ctx v type form) (depth id : Int) :
    ((form.sites depth id).map Spot.ofSite).Perm (placesBy v) := by
  have hother (hkind : v.node.kind ≠ .binaryExpression) : placesBy v = ownPlaces v.node := by
    have handor : v.node.isAndOr = false := by simp [Node.isAndOr, Node.logicalOperator?, hkind]
    simp [placesBy, Visit.isHead, handor]
  cases h with
  | ifStatement kind found =>
    rw [hother (by simp [kind]), ownPlaces, kind, ← places_ifArms found, Form.sites,
      map_ofSite_armSites]
  | chain kind head logical found =>
    have hhead : v.isHead = true := by simp [Visit.isHead, Node.isAndOr, logical, head]
    rw [placesBy, if_pos hhead, Form.sites, map_ofSite_wrapAll]
    exact places_chainOperands logical found
  | ifExpression kind enough =>
    rw [hother (by simp [kind]), ownPlaces, kind, Form.sites, map_ofSite_wrapAll]
  | whileStatement kind found =>
    have hplaces := places_condition? found
    rw [hother (by simp [kind]), ownPlaces, kind]
    exact .of_eq hplaces.symm
  | repeatStatement kind found =>
    have hplaces := places_condition? found
    rw [hother (by simp [kind]), ownPlaces, kind]
    exact .of_eq hplaces.symm

theorem placesBy_of_isFunction (h : isFunction v.node = true) : placesBy v = bodyPlaces v.node := by
  rcases Bool.or_eq_true_iff.1 h with h | h
  all_goals
    have hkind := beq_iff_eq.1 h
    have handor : v.node.isAndOr = false := by simp [Node.isAndOr, Node.logicalOperator?, hkind]
    simp [placesBy, Visit.isHead, handor, ownPlaces, hkind]

/-- A link finds nothing itself, and neither do nodes without places. -/
theorem placesBy_of_not_finds (h : finds v = false) (hfunction : isFunction v.node = false) :
    placesBy v = [] := by
  by_cases hlogical : v.node.isAndOr = true
  · have hhead : v.isHead = false := by
      obtain ⟨operator, hop⟩ := Option.isSome_iff_exists.1 hlogical
      simpa [finds, Node.kind_of_logicalOperator? hop, hop, Visit.isHead, hlogical] using h
    simp [placesBy, hhead, hlogical]
  · have hnone : v.node.logicalOperator? = none := by simpa [Node.isAndOr] using hlogical
    have hplaces : placesBy v = ownPlaces v.node := by simp [placesBy, Visit.isHead, hlogical]
    rw [hplaces, ownPlaces]
    unfold finds at h
    simp only [isFunction, Bool.or_eq_false_iff, beq_eq_false_iff_ne] at hfunction
    split
    · next kind => exact absurd kind hfunction.1
    · next kind => exact absurd kind hfunction.2
    · next kind => simp [kind] at h
    · next kind => simp [kind] at h
    · next kind => simp [kind] at h
    · next kind => simp [kind] at h
    · simp [operandPlaces, hnone]
    · rfl

theorem function_places {n : Node} {depth : Nat} (h : function ctx n depth f = .ok g) :
    g.sites.map Spot.ofSite = f.sites.map Spot.ofSite ++ bodyPlaces n := by
  obtain ⟨parameters, hparameters, h⟩ := Except.bind_ok h
  obtain ⟨limit, hlimit, h⟩ := Except.bind_ok h
  cases h
  rw [bodyPlaces, expect_ok hparameters, expect_ok hlimit, Findings.addFunction, List.map_append]
  rfl

/-- What a visit finds by the kind of its node stands at the places of the visit. -/
theorem construct_places (h : construct ctx v f = .ok g) :
    (g.sites.map Spot.ofSite).Perm (f.sites.map Spot.ofSite ++ placesBy v) := by
  rcases construct_finds h with ⟨hnone, ⟨hother, rfl⟩ | ⟨hfunction, -⟩⟩ | ⟨-, type, form, hb, rfl⟩
  · rw [placesBy_of_not_finds hnone hother, List.append_nil]
  · have hfound : function ctx v.node v.depth f = .ok g := by
      rcases Bool.or_eq_true_iff.1 hfunction with hkind | hkind
      · rwa [construct, beq_iff_eq.1 hkind] at h
      · rwa [construct, beq_iff_eq.1 hkind] at h
    rw [placesBy_of_isFunction hfunction, function_places hfound]
  · rw [addForm, branch, Findings.addBranch, List.map_append]
    exact (places_form hb _ _).append_left _

/-! ## Places of a tree -/

theorem visit_places (h : visit ctx f v = .ok g) : (g.sites.map Spot.ofSite).Perm
    (f.sites.map Spot.ofSite ++ (statementPlaces v.node v.isStatement ++ placesBy v)) := by
  have hconstruct := construct_places h
  have hstatement : (if v.isStatement then statement ctx v.node v.depth f else f).sites.map
      Spot.ofSite = f.sites.map Spot.ofSite ++ statementPlaces v.node v.isStatement := by
    rw [statementPlaces]
    split
    · rw [statement, Findings.addStatement, List.map_append]
      rfl
    · simp
  rwa [hstatement, List.append_assoc] at hconstruct

theorem foldlM_places {visits : List Visit} (h : visits.foldlM (visit ctx) f = .ok g) :
    (g.sites.map Spot.ofSite).Perm (f.sites.map Spot.ofSite
      ++ visits.flatMap fun v => statementPlaces v.node v.isStatement ++ placesBy v) := by
  induction visits generalizing f with
  | nil =>
    cases h
    simp
  | cons v rest ih =>
    obtain ⟨next, hnext, h⟩ := Except.bind_ok h
    rw [List.flatMap_cons, ← List.append_assoc]
    exact (ih h).trans ((visit_places hnext).append_right _)

theorem flatMap_filter {α β : Type} (p : α → Bool) (f : α → List β) (l : List α) :
    (l.filter p).flatMap f = l.flatMap fun x => if p x then f x else [] := by
  induction l with
  | nil => rfl
  | cons x rest ih =>
    by_cases hx : p x = true
    · simp [hx, ih]
    · simp [hx, ih]

/-- The places of the nodes that a walk comes to are those of its visits: the expressions of a chain
are taken together at its head. -/
theorem flatMap_placesBy {root : Node} (hn : root.isNested = true)
    (ho : ∀ n ∈ root.reached, n.isAndOr = true → n.hasOrder = true) :
    (root.visits.flatMap placesBy).Perm (root.visits.flatMap fun v => ownPlaces v.node) := by
  let others (v : Visit) : List Spot := if v.node.isAndOr then [] else ownPlaces v.node
  have hby (v : Visit) : placesBy v = (if v.isHead then spinePlaces v.node else []) ++ others v := by
    by_cases hhead : v.isHead = true
    · have handor : v.node.isAndOr = true := (Bool.and_eq_true_iff.1 hhead).1
      simp [placesBy, others, hhead, handor]
    · simp [placesBy, others, hhead]
  have hown (v : Visit) : ownPlaces v.node
      = (if v.node.isAndOr then operandPlaces v.node else []) ++ others v := by
    by_cases handor : v.node.isAndOr = true
    · simp [others, handor, ownPlaces_of_isAndOr]
    · simp [others, handor]
  have hspines := (Node.reached_spines hn ho).flatMap_right operandPlaces
  rw [List.flatMap_assoc, ← Node.map_node_visits, List.filter_map, List.flatMap_map,
    flatMap_filter, flatMap_filter] at hspines
  rw [funext hby, funext hown]
  exact (List.flatMap_append_perm ..).symm.trans
    ((hspines.symm.append_right _).trans (List.flatMap_append_perm ..))

/-- The sites that are found in a tree stand at its places. -/
theorem findings_places {root : Node} (h : findings ctx root = .ok f) (hn : root.isNested = true)
    (ho : ∀ n ∈ root.reached, n.isAndOr = true → n.hasOrder = true) :
    (f.sites.map Spot.ofSite).Perm (places root) := by
  refine (foldlM_places h).trans ?_
  rw [places_eq]
  calc _ = root.visits.flatMap fun v => statementPlaces v.node v.isStatement ++ placesBy v := rfl
    _ ~ root.visits.flatMap (fun v => statementPlaces v.node v.isStatement)
          ++ root.visits.flatMap placesBy := (List.flatMap_append_perm ..).symm
    _ ~ root.visits.flatMap (fun v => statementPlaces v.node v.isStatement)
          ++ root.visits.flatMap (fun v => ownPlaces v.node) := (flatMap_placesBy hn ho).append_left _
    _ ~ _ := List.flatMap_append_perm ..

end Analysis

end LuaCoverage
