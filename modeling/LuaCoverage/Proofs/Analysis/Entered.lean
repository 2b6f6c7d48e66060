import LuaCoverage.Proofs.Analysis.Matching
import LuaCoverage.Proofs.Analysis.Ordered

/-!
# Where the body of a function starts

The site of a function is written behind the last child, comments apart, that ends in front of its
body, or in front of its `end` if it has no body. That is a greatest offset among many; in a
function whose children come in order and do not overlap it is the end of one of them, so the probe
is written between two children, behind the parameters and behind a return type.

A statement in the body starts no earlier than the body, and lies deeper than the site of the
function. So where both are written at one offset, the probe of the function comes first.

Results:
* `bodyOffset_le_iff`: the offset is the least one behind the parameters and all heads.
* `Headed.entered`: where the offset lies among the children.
* `findings_sited`: the sites of statements and functions are those of the visits that find them.
* `Analyzer.ofTree_entered`: functions are counted before the statements in their bodies.
-/

namespace LuaCoverage
open LuaCoverage.Lua LuaCoverage.Text

namespace Analysis
variable {ctx : Context} {f g : Findings} {v w : Visit} {n parameters limit : Node}

/-! ## One function -/

/-- The children of a function come in order and do not overlap, and its list of parameters lies in
front of its body, or of its `end` if it has no body. -/
structure Headed (n parameters limit : Node) : Prop where
  found : parameters? n = some parameters
  isList : parameters.kind = .parameters
  limited : bodyLimit? n = some limit
  spans : ∀ child ∈ n.children, child.start ≤ child.stop
  ordered : n.children.Pairwise Node.Before
  inFront : parameters.Before limit

/-- Whether a child stands in the head of a function: it is no comment, and ends in front of the
body. -/
def isHead (limit child : Node) : Bool := child.kind != .comment && child.stop ≤ limit.start

theorem isHead_iff {child : Node} :
    isHead limit child = true ↔ child.kind ≠ .comment ∧ child.Before limit := by
  simp [isHead, Node.Before]

theorem foldl_max_le_iff {offsets : List Nat} {first bound : Nat} :
    offsets.foldl max first ≤ bound ↔ first ≤ bound ∧ ∀ offset ∈ offsets, offset ≤ bound := by
  induction offsets generalizing first with
  | nil => simp
  | cons offset rest ih => rw [List.foldl_cons, ih, Nat.max_le, List.forall_mem_cons, and_assoc]

/-- The offset is the least one behind the parameters and all heads. -/
theorem bodyOffset_le_iff {bound : Nat} :
    bodyOffset n parameters limit ≤ bound ↔ parameters.stop ≤ bound
      ∧ ∀ child ∈ n.children, isHead limit child = true → child.stop ≤ bound := by
  have hfold : bodyOffset n parameters limit
      = ((n.children.filter (isHead limit)).map Node.stop).foldl max parameters.stop := rfl
  rw [hfold, foldl_max_le_iff, List.forall_mem_map]
  simp [List.mem_filter]

theorem stop_le_bodyOffset {child : Node} (hc : child ∈ n.children)
    (hhead : isHead limit child = true) : child.stop ≤ bodyOffset n parameters limit :=
  (bodyOffset_le_iff.1 (Nat.le_refl _)).2 child hc hhead

theorem mem_of_childOfKind? {kind : NodeKind} {child : Node}
    (h : n.childOfKind? kind = some child) : child ∈ n.children :=
  (List.mem_filter.1 (List.mem_of_find?_eq_some h)).1

theorem mem_of_parameters? (h : parameters? n = some parameters) : parameters ∈ n.children := by
  rcases Option.or_eq_some_iff.1 h with h | ⟨-, h⟩
  · exact Node.mem_of_childInRole? h
  · exact mem_of_childOfKind? h

/-- Where an offset lies among the children of a function, if it is where the body starts. -/
structure Entered (n parameters limit : Node) (offset : Nat) : Prop where
  /-- It is the end of the last head. -/
  atLast : ∃ front last back, n.children = front ++ last :: back
    ∧ last.kind ≠ .comment ∧ last.Before limit
    ∧ (∀ child ∈ back, child.kind = .comment ∨ ¬child.Before limit) ∧ offset = last.stop
  behindParameters : parameters.stop ≤ offset
  /-- It is behind all that stands in front of the body, and so behind a return type. -/
  behindHead : ∀ front back, n.children = front ++ limit :: back →
    ∀ child ∈ front, child.kind ≠ .comment → child.stop ≤ offset
  inFront : offset ≤ limit.start
  /-- It is inside no child, not even inside a comment. -/
  outside : ∀ child ∈ n.children, offset ≤ child.start ∨ child.stop ≤ offset

namespace Headed
variable (h : Headed n parameters limit)
include h

theorem isHead_parameters : isHead limit parameters = true :=
  isHead_iff.2 ⟨by simp [h.isList], h.inFront⟩

/-- There is a last head. -/
theorem exists_last : ∃ front last back, n.children = front ++ last :: back
    ∧ isHead limit last = true ∧ ∀ child ∈ back, isHead limit child = false := by
  have hsome : (n.children.reverse.find? (isHead limit)).isSome = true := by
    rw [List.find?_isSome]
    exact ⟨parameters, List.mem_reverse.2 (mem_of_parameters? h.found), h.isHead_parameters⟩
  obtain ⟨last, hlast⟩ := Option.isSome_iff_exists.1 hsome
  obtain ⟨hhead, back, front, hsplit, hback⟩ := List.find?_eq_some_iff_append.1 hlast
  refine ⟨front.reverse, last, back.reverse, ?_, hhead, ?_⟩
  · rw [← List.reverse_reverse n.children, hsplit]
    simp
  · intro child hchild
    simpa using hback child (List.mem_reverse.1 hchild)

/-- The body starts at the end of the last head, since no head in front of it ends later. -/
theorem bodyOffset_eq {front back : List Node} {last : Node}
    (hsplit : n.children = front ++ last :: back) (hlast : isHead limit last = true)
    (hback : ∀ child ∈ back, isHead limit child = false) :
    bodyOffset n parameters limit = last.stop := by
  have hmem : last ∈ n.children := by simp [hsplit]
  have hle : ∀ child ∈ n.children, isHead limit child = true → child.stop ≤ last.stop := by
    intro child hchild hhead
    rw [hsplit, List.mem_append, List.mem_cons] at hchild
    rcases hchild with hchild | rfl | hchild
    · have hordered := h.ordered
      rw [hsplit, List.pairwise_append] at hordered
      exact Nat.le_trans (hordered.2.2 child hchild last (by simp)) (h.spans last hmem)
    · exact Nat.le_refl _
    · rw [hback child hchild] at hhead
      cases hhead
  refine Nat.le_antisymm (bodyOffset_le_iff.2 ⟨?_, hle⟩) (stop_le_bodyOffset hmem hlast)
  exact hle parameters (mem_of_parameters? h.found) h.isHead_parameters

theorem entered : Entered n parameters limit (bodyOffset n parameters limit) := by
  obtain ⟨front, last, back, hsplit, hlast, hback⟩ := h.exists_last
  have hoffset := h.bodyOffset_eq hsplit hlast hback
  have hmem : last ∈ n.children := by simp [hsplit]
  obtain ⟨hkind, hbefore⟩ := isHead_iff.1 hlast
  refine ⟨⟨front, last, back, hsplit, hkind, hbefore, ?_, hoffset⟩, ?_, ?_, ?_, ?_⟩
  · intro child hchild
    by_contra hnot
    rw [not_or, not_not] at hnot
    have hfalse := hback child hchild
    rw [isHead_iff.2 hnot] at hfalse
    cases hfalse
  · exact stop_le_bodyOffset (mem_of_parameters? h.found) h.isHead_parameters
  · intro front back hlimit child hchild hcomment
    have hordered := h.ordered
    rw [hlimit, List.pairwise_append] at hordered
    exact stop_le_bodyOffset (by simp [hlimit, hchild])
      (isHead_iff.2 ⟨hcomment, hordered.2.2 child hchild limit (by simp)⟩)
  · exact bodyOffset_le_iff.2 ⟨h.inFront, fun child _ hhead => (isHead_iff.1 hhead).2⟩
  · intro child hchild
    rw [hoffset]
    rcases Node.eq_or_apart_of_pairwise h.ordered hmem hchild with rfl | hafter | hbefore
    · exact .inr (Nat.le_refl _)
    · exact .inl hafter
    · exact .inr (Nat.le_trans hbefore (h.spans last hmem))

end Headed

/-! ## Sites of statements and functions -/

/-- The site of the statement or the function that a visit finds. -/
inductive IsSite (v : Visit) (id : Int) : ProbeKind → Site → Prop
  | statement : IsSite v id .statement ⟨v.node.start, v.depth, .statement, .statement, id, none⟩
  | function {parameters limit : Node} (found : parameters? v.node = some parameters)
      (limited : bodyLimit? v.node = some limit) :
      IsSite v id .function
        ⟨bodyOffset v.node parameters limit, v.depth + 1, .statement, .function, id, none⟩

/-- The sites of the probes of a kind. -/
def Findings.sitesOf (f : Findings) (kind : ProbeKind) : List Site :=
  f.sites.filter fun s => s.kind == kind

/-- The visits that find a probe of a kind. -/
def findersOf (kind : ProbeKind) (visits : List Visit) : List Visit := visits.filter (findsOf kind)

theorem length_findersOf (kind : ProbeKind) (visits : List Visit) :
    (findersOf kind visits).length = (nodesOf kind visits).length := by
  rw [findersOf, nodesOf, List.length_map]

theorem function_site (h : function ctx v.node v.depth f = .ok g) :
    ∃ s, IsSite v (ctx.idBase + f.functions.length) .function s ∧ g.sites = f.sites ++ [s] := by
  obtain ⟨parameters, hparameters, h⟩ := Except.bind_ok h
  obtain ⟨limit, hlimit, h⟩ := Except.bind_ok h
  cases h
  exact ⟨_, .function (expect_ok hparameters) (expect_ok hlimit), rfl⟩

/-- What a node adds to the sites of statements and functions by its kind. -/
theorem sitesOf_construct (h : construct ctx v f = .ok g) :
    g.sitesOf .statement = f.sitesOf .statement
      ∧ (isFunction v.node = false ∧ g.sitesOf .function = f.sitesOf .function
        ∨ isFunction v.node = true ∧ ∃ s, IsSite v (ctx.idBase + f.functions.length) .function s
          ∧ g.sitesOf .function = f.sitesOf .function ++ [s]) := by
  cases hfunction : isFunction v.node with
  | true =>
    rw [construct_of_isFunction hfunction] at h
    obtain ⟨s, hs, hsites⟩ := function_site h
    have hadded : ∀ kind, g.sitesOf kind = f.sitesOf kind ++ [s].filter (·.kind == kind) := by
      intro kind
      rw [Findings.sitesOf, hsites, List.filter_append]
      rfl
    cases hs with
    | function found limited =>
      exact ⟨(hadded .statement).trans (List.append_nil _),
        .inr ⟨rfl, _, .function found limited, hadded .function⟩⟩
  | false =>
    rcases construct_finds h with ⟨-, ⟨-, rfl⟩ | ⟨htrue, -⟩⟩ | ⟨-, type, form, -, rfl⟩
    · exact ⟨rfl, .inl ⟨rfl, rfl⟩⟩
    · rw [hfunction] at htrue
      cases htrue
    · -- The sites of a branch are of no other kind.
      have hnone : ∀ kind, kind ≠ .branch →
          (addForm ctx v type form f).sitesOf kind = f.sitesOf kind := by
        intro kind hkind
        have hempty : (form.sites (v.depth + 1) (ctx.idBase + f.branches.length)).filter
            (·.kind == kind) = [] := by
          refine List.filter_eq_nil_iff.2 fun s hs => ?_
          rw [(Form.mem_sites hs).1]
          simpa using hkind.symm
        rw [addForm, branch, Findings.addBranch, Findings.sitesOf, List.filter_append, hempty]
        exact List.append_nil _
      exact ⟨hnone .statement (by decide), .inl ⟨rfl, hnone .function (by decide)⟩⟩

/-- What a visit adds to the sites of statements or functions: one of a probe with the next id, if
it finds one. -/
theorem sitesOf_visit (h : visit ctx f v = .ok g) (path : String) {kind : ProbeKind}
    (hkind : kind ≠ .branch) :
    findsOf kind v = false ∧ g.sitesOf kind = f.sitesOf kind
      ∨ findsOf kind v = true ∧ ∃ s,
        IsSite v (ctx.idBase + ((f.toMap path ctx.idBase).located kind).length) kind s
          ∧ g.sitesOf kind = f.sitesOf kind ++ [s] := by
  obtain ⟨hstatement, hfunction⟩ := sitesOf_construct h
  cases kind with
  | statement =>
    rw [hstatement]
    cases hfinds : v.isStatement with
    | false => exact .inl ⟨hfinds, rfl⟩
    | true =>
      refine .inr ⟨hfinds, _, .statement, ?_⟩
      simp [statement, Findings.addStatement, Findings.sitesOf, Findings.toMap, ProbeMap.located]
  | function =>
    have hsites : (if v.isStatement then statement ctx v.node v.depth f else f).sitesOf .function
        = f.sitesOf .function := by
      split
      · simp [statement, Findings.addStatement, Findings.sitesOf]
      · rfl
    have hcount : (if v.isStatement then statement ctx v.node v.depth f else f).functions
        = f.functions := by
      split
      · rfl
      · rfl
    rw [hsites, hcount] at hfunction
    simpa [Findings.toMap, ProbeMap.located, findsOf] using hfunction
  | branch => exact absurd rfl hkind

/-- The sites of statements and functions are those of the visits that find them, in their order:
their ids count up from the first id. -/
def Sited (ctx : Context) (visits : List Visit) (f : Findings) : Prop :=
  ∀ kind, kind ≠ .branch →
    List.Forall₂ (fun finder s => IsSite finder.1 (ctx.idBase + finder.2) kind s)
      (findersOf kind visits).zipIdx (f.sitesOf kind)

theorem Sited.visit {front : List Visit} {path : String}
    (horder : InOrder ctx front (f.toMap path ctx.idBase)) (h : Sited ctx front f)
    (hg : visit ctx f v = .ok g) : Sited ctx (front ++ [v]) g := by
  intro kind hkind
  have hcount : ((f.toMap path ctx.idBase).located kind).length
      = (findersOf kind front).length := by
    rw [length_findersOf, (horder.places kind).length_eq]
  rw [findersOf, List.filter_append, ← findersOf, List.zipIdx_append]
  rcases sitesOf_visit hg path hkind with ⟨hfalse, hsame⟩ | ⟨htrue, s, hs, hadded⟩
  · rw [hsame]
    simpa [hfalse] using h kind hkind
  · rw [hadded]
    refine List.rel_append (h kind hkind) ?_
    rw [hcount] at hs
    simpa [htrue] using hs

theorem findings_sited {root : Node} (h : findings ctx root = .ok f) : Sited ctx root.visits f := by
  have hvisits := Except.foldlM_keeps
    (P := fun front f => InOrder ctx front (f.toMap "" ctx.idBase) ∧ Sited ctx front f)
    (fun _ _ _ _ hf hg => ⟨hf.1.visit hg, hf.2.visit hf.1 hg⟩) []
    ⟨.empty ctx "", fun kind _ => by cases kind <;> exact .nil⟩ h
  rw [List.nil_append] at hvisits
  exact hvisits.2

/-- A visit of a tree finds a probe of a kind, which gets an id. -/
def FindsAs (idBase : Int) (root : Node) (kind : ProbeKind) (v : Visit) (id : Int) : Prop :=
  ∃ i : Nat, (findersOf kind root.visits)[i]? = some v ∧ id = idBase + i

section
variable {root : Node} {kind : ProbeKind} {id : Int}

/-- What is found with an id is the probe with that id. -/
theorem FindsAs.exists_probe {path : String} (h : FindsAs ctx.idBase root kind v id)
    (hf : findings ctx root = .ok f) :
    ∃ loc, (id, loc) ∈ (f.toMap path ctx.idBase).located kind ∧ IsAt ctx v.node kind loc := by
  obtain ⟨i, hv, rfl⟩ := h
  obtain ⟨hids, hplaces⟩ := findings_inOrder path hf
  have hnode : (nodesOf kind root.visits)[i]? = some v.node := by
    rw [nodesOf, ← findersOf, List.getElem?_map, hv]
    rfl
  obtain ⟨hi, hget⟩ := List.getElem?_eq_some_iff.1 hnode
  have hlt : i < ((f.toMap path ctx.idBase).located kind).length := (hplaces kind).length_eq ▸ hi
  have hplace := (hplaces kind).get hi hlt
  have hid := congrArg (·[i]?) (hids kind)
  simp only [List.getElem?_map, List.getElem?_eq_getElem hlt, List.getElem?_range hi,
    Option.map_some, Option.some.injEq] at hid
  rw [List.get_eq_getElem, List.get_eq_getElem, hget] at hplace
  refine ⟨_, ?_, hplace⟩
  rw [← hid]
  exact List.getElem_mem hlt

/-- The sites and the visits that find them stand at the same places. -/
theorem Sited.at_place (h : Sited ctx root.visits f) (hkind : kind ≠ .branch) {i : Nat} {s : Site}
    (hv : (findersOf kind root.visits)[i]? = some v) (hs : (f.sitesOf kind)[i]? = some s) :
    IsSite v (ctx.idBase + i) kind s := by
  obtain ⟨hi, rfl⟩ := List.getElem?_eq_some_iff.1 hv
  obtain ⟨hj, rfl⟩ := List.getElem?_eq_some_iff.1 hs
  simpa using (h kind hkind).get (by simpa using hi) hj

theorem Sited.length_eq (h : Sited ctx root.visits f) (hkind : kind ≠ .branch) :
    (findersOf kind root.visits).length = (f.sitesOf kind).length := by
  simpa using (h kind hkind).length_eq

theorem IsSite.of {s : Site} (h : IsSite v id kind s) : s.isOf kind id = true := by
  cases h <;> simp [Site.isOf]

/-- A statement or function that is found has a site. -/
theorem Sited.exists_site (h : Sited ctx root.visits f) (hkind : kind ≠ .branch)
    (hv : FindsAs ctx.idBase root kind v id) : ∃ s ∈ f.sites, IsSite v id kind s := by
  obtain ⟨i, hv, rfl⟩ := hv
  obtain ⟨hi, -⟩ := List.getElem?_eq_some_iff.1 hv
  rw [h.length_eq hkind] at hi
  have hs := List.getElem?_eq_getElem hi
  exact ⟨_, (List.mem_filter.1 (List.mem_of_getElem? hs)).1, h.at_place hkind hv hs⟩

/-- A site with the id of a statement or function that is found is the site of that one. -/
theorem Sited.isSite (h : Sited ctx root.visits f) (hkind : kind ≠ .branch)
    (hv : FindsAs ctx.idBase root kind v id) {s : Site} (hs : s ∈ f.sites)
    (hof : s.isOf kind id = true) : IsSite v id kind s := by
  obtain ⟨i, hv, rfl⟩ := hv
  obtain ⟨hsk, hid⟩ := Site.isOf_eq_true_iff.1 hof
  have hmem : s ∈ f.sitesOf kind := List.mem_filter.2 ⟨hs, by simp [hsk]⟩
  obtain ⟨k, hk⟩ := List.getElem?_of_mem hmem
  obtain ⟨hlt, -⟩ := List.getElem?_eq_some_iff.1 hk
  rw [← h.length_eq hkind] at hlt
  have hsite := h.at_place hkind (List.getElem?_eq_getElem hlt) hk
  obtain rfl : k = i := by
    have := (Site.isOf_eq_true_iff.1 hsite.of).2
    omega
  exact h.at_place hkind hv hk

end

/-! ## The order of the sites -/

/-- A visit comes from the body of a function. -/
def InBody (v : Visit) (body : Node) (w : Visit) : Prop :=
  ∃ u ∈ v.next, u.node = body ∧ u.Leads w

/-- What comes from the body of a function starts no earlier than the body, and lies more than one
level deeper than the function. -/
theorem InBody.behind {body : Node} (h : InBody v body w) (hn : body.isNested = true) :
    body.start ≤ w.node.start ∧ v.depth + 1 < w.depth := by
  obtain ⟨u, hu, rfl, hleads⟩ := h
  obtain ⟨hinside, -, hdepth⟩ := hleads.inside hn
  obtain ⟨child, -, rfl⟩ := Visit.mem_next.1 hu
  exact ⟨hinside.1, hdepth⟩

/-- A function with a comment and a return type in its head, and a body right behind them. -/
def headedSource : Bytes := Utf8.ofString "function f(a)--[[c]]:(T)g()end"

def headedParameters : Node :=
  .mk .parameters (some .parameters) 10 13 [.mk (.token "(") none 10 11 [],
    .mk .parameter none 11 12 [.mk .identifier none 11 12 []], .mk (.token ")") none 12 13 []]

/-- The call in the body of `headedSource`. -/
def headedCall : Node :=
  .mk .functionCall none 24 27 [.mk .identifier none 24 25 [],
    .mk .arguments none 25 27 [.mk (.token "(") none 25 26 [], .mk (.token ")") none 26 27 []]]

def headedBody : Node := .mk .block (some .body) 24 27 [headedCall]

def headedFunction : Node :=
  .mk .functionDeclaration none 0 30 [.mk (.token "function") none 0 8 [],
    .mk .identifier (some .name) 9 10 [], headedParameters, .mk .comment none 13 20 [],
    .mk (.token ":") none 20 21 [], .mk .tupleType none 21 24 [.mk (.token "(") none 21 22 [],
      .mk .identifier none 22 23 [], .mk (.token ")") none 23 24 []], headedBody,
    .mk (.token "end") none 27 30 []]

def headedTree : Node := .mk .chunk none 0 30 [headedFunction]

theorem headed_headedFunction : Headed headedFunction headedParameters headedBody where
  found := rfl
  isList := rfl
  limited := rfl
  spans := by decide +kernel
  ordered := by
    have hnested : headedFunction.isNested = true := by decide +kernel
    exact Node.children_pairwise hnested
  inFront := by
    unfold Node.Before
    decide +kernel

end Analysis

/-- Of two sites that close nothing, the deeper one does not come first if it starts no earlier. -/
theorem Site.not_precedes {s t : Site} (hs : s.isCloser = false) (ht : t.isCloser = false)
    (hoffset : s.offset ≤ t.offset) (hdepth : s.depth < t.depth) : t.precedes s = false := by
  simp only [precedes, rank, hs, ht, Bool.or_eq_false_iff, Bool.and_eq_false_iff,
    decide_eq_false_iff_not, beq_eq_false_iff_ne]
  simp only [Bool.false_eq_true, if_false]
  omega

/-- Where sites are in order, one that another does not precede stands in front of it. -/
theorem Site.lt_of_not_precedes {sites : List Site}
    (hsorted : sites.Pairwise fun a b => a.precedes b) {i j : Nat} {s t : Site}
    (hi : sites[i]? = some s) (hj : sites[j]? = some t) (h : t.precedes s = false) : i < j := by
  obtain ⟨hilt, rfl⟩ := List.getElem?_eq_some_iff.1 hi
  obtain ⟨hjlt, rfl⟩ := List.getElem?_eq_some_iff.1 hj
  by_contra hge
  have hprecedes : sites[j].precedes sites[i] = true := by
    rcases Nat.lt_or_eq_of_le (Nat.not_lt.1 hge) with hlt | rfl
    · exact List.pairwise_iff_getElem.1 hsorted j i hjlt hilt hlt
    · simpa using precedes_total sites[j] sites[j]
  rw [hprecedes] at h
  cases h

namespace Analyzer
open Analysis

/-- In a function whose children come in order and do not overlap, the body starts between two
children, behind its head. A function that an analysis finds has its site there, and the site comes
before those of all statements in the body. -/
theorem ofTree_entered :
    (∀ {n parameters limit : Node}, Headed n parameters limit →
      Entered n parameters limit (bodyOffset n parameters limit))
    ∧ ∀ {idBase : Int} {path language : String} {source : Bytes} {root : Node} {a : Analysis},
      ofTree idBase path language source root = .ok a →
        ∀ {v : Visit} {id : Int} {parameters limit : Node}, FindsAs idBase root .function v id →
          Headed v.node parameters limit →
            (∃ loc, (id, loc) ∈ a.map.located .function
              ∧ IsAt (.ofSource source idBase) v.node .function loc)
            ∧ (∃ s ∈ a.sites, s.isOf .function id = true)
            ∧ (∀ s ∈ a.sites, s.isOf .function id = true → s.style = .statement
              ∧ s.offset = bodyOffset v.node parameters limit)
            ∧ (limit.isNested = true → ∀ {w : Visit} {id' : Int},
              FindsAs idBase root .statement w id' → InBody v limit w →
                ∀ {i j : Nat} {s t : Site}, a.sites[i]? = some s → s.isOf .function id = true →
                  a.sites[j]? = some t → t.isOf .statement id' = true → i < j) := by
  refine ⟨fun h => h.entered, ?_⟩
  intro idBase path language source root a h v id parameters limit hv hheaded
  obtain ⟨f, hf, rfl⟩ := ofTree_cases h
  have hsited := findings_sited hf
  have hsite : ∀ {s : Site}, s ∈ Site.sort f.sites → s.isOf .function id = true →
      s = ⟨bodyOffset v.node parameters limit, v.depth + 1, .statement, .function, id, none⟩ := by
    intro s hs hof
    cases hsited.isSite (by decide) hv ((Site.sort_perm _).mem_iff.1 hs) hof with
    | function found limited =>
      cases found.symm.trans hheaded.found
      cases limited.symm.trans hheaded.limited
      rfl
  refine ⟨hv.exists_probe hf, ?_, ?_, ?_⟩
  · obtain ⟨s, hs, his⟩ := hsited.exists_site (by decide) hv
    exact ⟨s, (Site.sort_perm _).mem_iff.2 hs, his.of⟩
  · intro s hs hof
    rw [hsite hs hof]
    exact ⟨rfl, rfl⟩
  · intro hnested w id' hw hbody i j s t hi hs hj ht
    obtain rfl := hsite (List.mem_of_getElem? hi) hs
    cases hsited.isSite (by decide) hw ((Site.sort_perm _).mem_iff.1 (List.mem_of_getElem? hj)) ht
    obtain ⟨hstart, hdepth⟩ := hbody.behind hnested
    refine Site.lt_of_not_precedes (Site.sort_pairwise f.sites) hi hj
      (Site.not_precedes rfl rfl (Nat.le_trans hheaded.entered.inFront hstart) ?_)
    simp only
    omega

/-- The function is counted between its return type and the call, which start and end at one
offset. -/
theorem ofTree_entered_sample :
    Headed headedFunction headedParameters headedBody
      ∧ bodyOffset headedFunction headedParameters headedBody = 24
      ∧ Entered headedFunction headedParameters headedBody 24
      ∧ ∃ a, ofTree 7 "m.luau" "luau" headedSource headedTree = .ok a
        ∧ FindsAs 7 headedTree .function ⟨headedFunction, 1, true, false⟩ 7
        ∧ FindsAs 7 headedTree .statement ⟨headedCall, 3, true, false⟩ 8
        ∧ (∀ s ∈ a.sites, s.isOf .function 7 = true → s.offset = 24)
        ∧ ∀ {i j : Nat} {s t : Site}, a.sites[i]? = some s → s.isOf .function 7 = true →
          a.sites[j]? = some t → t.isOf .statement 8 = true → i < j := by
  have hoffset : bodyOffset headedFunction headedParameters headedBody = 24 := by decide +kernel
  have hfunction : FindsAs 7 headedTree .function ⟨headedFunction, 1, true, false⟩ 7 :=
    ⟨0, by with_unfolding_all rfl, rfl⟩
  have hstatement : FindsAs 7 headedTree .statement ⟨headedCall, 3, true, false⟩ 8 :=
    ⟨1, by with_unfolding_all rfl, rfl⟩
  have hbody : InBody ⟨headedFunction, 1, true, false⟩ headedBody ⟨headedCall, 3, true, false⟩ := by
    refine ⟨⟨headedBody, 2, false, false⟩, ?_, rfl, .single ?_⟩
    · exact Visit.mem_next.2 ⟨headedBody, List.mem_of_getElem? (i := 3) rfl, rfl⟩
    · exact Visit.mem_next.2 ⟨headedCall, List.mem_of_getElem? (i := 0) rfl, rfl⟩
  have hok : (ofTree 7 "m.luau" "luau" headedSource headedTree).isOk = true := by decide +kernel
  obtain ⟨a, ha⟩ := Except.exists_of_isOk hok
  obtain ⟨hentered, hsites⟩ := ofTree_entered
  obtain ⟨-, -, hplace, horder⟩ := hsites ha hfunction headed_headedFunction
  have hnested : headedBody.isNested = true := by decide +kernel
  refine ⟨headed_headedFunction, hoffset, hoffset ▸ hentered headed_headedFunction, a, ha,
    hfunction, hstatement, ?_, horder hnested hstatement hbody⟩
  intro s hs hof
  exact (hplace s hs hof).2.trans hoffset

end Analyzer

end LuaCoverage
