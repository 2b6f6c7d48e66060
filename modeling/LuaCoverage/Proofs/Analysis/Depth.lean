import LuaCoverage.Instrument.Basic
import LuaCoverage.Proofs.Analysis.Bracketed

/-!
# How deep calls nest

A running count over the sorted sites, one more for an opener and one less for a closer, is held
against the greatest depth. The sites of laminar wrappers are swept with the open ones on a stack,
so the count is the height of the stack, and it is as high as there are wrappers around the one that
opens next. Where wrappers have the same span, the one that opens last has all of them around it.

What counts in the end are spans of the tree: how many of the operands and conditions that are
wrapped hold another one. The operands of one chain lie apart, so a chain adds one level to what
lies in its operands, however long it is.

Results:
* `Sweep.fitsDepth_iff`: the count stays within the bound if no wrapper has more around it.
* `Bracketing.fitsDepth_iff`: the same of the nodes that are wrapped in a tree.
* `Instrumenter.instrument_depth`: which modules are refused for their depth.
-/

namespace LuaCoverage
open LuaCoverage.Lua LuaCoverage.Text

/-- The first byte of a node and the byte behind its last. -/
def Lua.Node.extent (n : Node) : Nat × Nat := (n.start, n.stop)

namespace Wrapper

/-- The first byte of a wrapper and the byte behind its last. -/
def extent (w : Wrapper) : Nat × Nat := (w.start, w.stop)

/-- One wrapper spans all that another one spans. -/
def Around (outer inner : Wrapper) : Prop := outer.start ≤ inner.start ∧ inner.stop ≤ outer.stop

instance : DecidableRel Around := fun _ _ => inferInstanceAs (Decidable (_ ∧ _))

/-- The number of wrappers around a wrapper. -/
def countAround (w : Wrapper) (all : List Wrapper) : Nat := all.countP fun outer => outer.Around w

theorem around_refl (w : Wrapper) : w.Around w := ⟨Nat.le_refl _, Nat.le_refl _⟩

theorem countAround_cons (w first : Wrapper) (rest : List Wrapper) :
    w.countAround (first :: rest) = w.countAround rest + if first.Around w then 1 else 0 := by
  simp [countAround, List.countP_cons]

theorem countAround_append (w : Wrapper) (a b : List Wrapper) :
    w.countAround (a ++ b) = w.countAround a + w.countAround b := List.countP_append

/-- Only the span of a wrapper matters to what is around it. -/
theorem countAround_congr {u w : Wrapper} (hstart : u.start = w.start) (hstop : u.stop = w.stop)
    (all : List Wrapper) : u.countAround all = w.countAround all := by
  refine List.countP_congr fun outer _ => ?_
  rw [decide_eq_true_iff, decide_eq_true_iff, Around, Around, hstart, hstop]

theorem countAround_perm {all other : List Wrapper} (h : all.Perm other) (w : Wrapper) :
    w.countAround all = w.countAround other := h.countP_eq _

end Wrapper

namespace Instrument

/-- Only the sites that open and close calls matter. -/
theorem fitsDepth_filter (depth : Int) (sites : List Site) :
    fitsDepth depth (sites.filter Site.isBracket) = fitsDepth depth sites := by
  induction sites generalizing depth with
  | nil => rfl
  | cons s rest ih =>
    by_cases hs : s.isBracket = true
    · rw [List.filter_cons_of_pos hs]
      simp only [fitsDepth, ih]
    · rw [List.filter_cons_of_neg hs, ih]
      simp only [Site.isBracket, Bool.or_eq_true, not_or, Bool.not_eq_true] at hs
      simp [fitsDepth, hs]

theorem fitsDepth_opener {w : Wrapper} (h : w.Proper) (depth : Nat) (rest : List Site) :
    fitsDepth depth (w.opener :: rest) = true
      ↔ depth + 1 ≤ maxDepth ∧ fitsDepth ((depth + 1 : Nat) : Int) rest = true := by
  simp only [fitsDepth, Wrapper.isCloser_opener h, h.opens]
  simp only [Bool.false_eq_true, if_false, if_true]
  by_cases hfits : depth + 1 ≤ maxDepth
  · have hle : ¬((depth : Int) + 1 > maxDepth) := by omega
    rw [if_neg hle]
    simp [hfits]
  · have hgt : (depth : Int) + 1 > maxDepth := by omega
    rw [if_pos hgt]
    simp [hfits]

theorem fitsDepth_closer (w : Wrapper) (depth : Nat) (rest : List Site) :
    fitsDepth ((depth + 1 : Nat) : Int) (w.closer :: rest) = fitsDepth depth rest := by
  simp [fitsDepth, Wrapper.isCloser_closer]

end Instrument

namespace Sweep
open Wrapper
variable {pending stack : List Wrapper} {w top : Wrapper} {rest : List Site}

/-- A pending wrapper around the one that opens next has the same span. -/
theorem span_eq_of_around (h : Sweep (w :: pending) stack (w.opener :: rest)) {u : Wrapper}
    (hu : u ∈ pending) (haround : u.Around w) : u.start = w.start ∧ u.stop = w.stop := by
  have hw : w.Proper := h.proper w (by simp)
  have hproper : u.Proper := h.proper u (by simp [hu])
  have hfirst : w.opener.precedes u.opener = true :=
    h.first_precedes_opener (List.mem_cons_of_mem _ hu)
  rw [opener_precedes_opener hw hproper] at hfirst
  have hlaminar := List.rel_of_pairwise_cons h.laminar hu
  obtain ⟨hstart, hstop⟩ := haround
  have := hw.nonempty
  rcases hlaminar with hapart | hin | hin
  · rcases hapart with hapart | hapart <;> omega
  · have hdepth := hin.depth
    omega
  · have := hin.stop
    omega

/-- No wrapper that is closed next is around one that is still pending. -/
theorem not_around_of_closed (h : Sweep pending (top :: stack) (top.closer :: rest)) {u : Wrapper}
    (hu : u ∈ pending) : ¬top.Around u := by
  have hproper : u.Proper := h.proper u (by simp [hu])
  have hfirst : top.closer.precedes u.opener = true := h.first_precedes_opener hu
  rw [closer_precedes_opener hproper] at hfirst
  have := hproper.nonempty
  intro haround
  have := haround.2
  omega

/-- All that are open, and the wrapper itself, are around the wrapper that opens next. -/
theorem le_countAround (h : Sweep (w :: pending) stack (w.opener :: rest)) :
    stack.length + 1 ≤ w.countAround (w :: pending ++ stack) := by
  have hstack : w.countAround stack = stack.length := by
    rw [countAround, List.countP_eq_length]
    intro outer ho
    have hin := h.within_of_first ho
    exact decide_eq_true ⟨hin.start, hin.stop⟩
  rw [List.cons_append, countAround_cons, if_pos w.around_refl, countAround_append, hstack]
  omega

/-- If no other pending wrapper is around the one that opens next, only those that are open are. -/
theorem countAround_le (h : ∀ u ∈ pending, ¬u.Around w) :
    w.countAround (w :: pending ++ stack) ≤ stack.length + 1 := by
  have hpending : w.countAround pending = 0 := by
    rw [countAround, List.countP_eq_zero]
    intro u hu
    simpa using h u hu
  have hstack : w.countAround stack ≤ stack.length := List.countP_le_length
  rw [List.cons_append, countAround_cons, if_pos w.around_refl, countAround_append, hpending]
  omega

/-- The depth stays within the bound if and only if no pending wrapper has more around it. The
wrapper that opens next has those around it that are open, unless another one of the same span is
pending, and then that one has as many. -/
theorem fitsDepth_iff (h : Sweep pending stack rest) (hfits : stack.length ≤ Instrument.maxDepth) :
    Instrument.fitsDepth stack.length rest = true
      ↔ ∀ w ∈ pending, w.countAround (pending ++ stack) ≤ Instrument.maxDepth := by
  induction rest generalizing pending stack with
  | nil =>
    have hleft := h.left.nil_eq
    have hpending : pending = [] := by
      rw [eq_comm, List.append_eq_nil_iff, List.flatMap_eq_nil_iff] at hleft
      refine List.eq_nil_iff_forall_not_mem.2 fun w hw => ?_
      exact absurd (hleft.1 w hw) (by simp [Wrapper.sites])
    simp [hpending, Instrument.fitsDepth]
  | cons s rest ih =>
    rcases h.first_cases with ⟨w, hw, rfl⟩ | ⟨top, below, rfl, rfl⟩
    · have hproper := h.proper w (by simp [hw])
      obtain ⟨front, back, rfl⟩ := List.append_of_mem hw
      have hperm : (front ++ w :: back).Perm (w :: (front ++ back)) := List.perm_middle
      have hw := h.reorder hperm
      have hcount := fun u => countAround_perm (hperm.append_right stack) u
      simp only [hperm.mem_iff, hcount, Instrument.fitsDepth_opener hproper]
      generalize front ++ back = others at hw
      have hmiddle : (others ++ w :: stack).Perm (w :: others ++ stack) := List.perm_middle
      have hpushed := fun u => countAround_perm hmiddle u
      have hnext := ih hw.push
      simp only [List.length_cons, hpushed] at hnext
      constructor
      · intro hfit
        obtain ⟨hle, hrest⟩ := hfit
        have hothers := (hnext hle).1 hrest
        intro u hu
        rcases List.mem_cons.1 hu with rfl | hu
        · by_cases hround : ∃ v ∈ others, v.Around u
          · obtain ⟨v, hv, haround⟩ := hround
            obtain ⟨hstart, hstop⟩ := hw.span_eq_of_around hv haround
            rw [← countAround_congr hstart hstop]
            exact hothers v hv
          · have hnone : ∀ v ∈ others, ¬v.Around u := by simpa using hround
            exact Nat.le_trans (countAround_le hnone) hle
        · exact hothers u hu
      · intro hall
        have hle := Nat.le_trans hw.le_countAround (hall w (by simp))
        exact ⟨hle, (hnext hle).2 fun u hu => hall u (by simp [hu])⟩
    · rw [List.length_cons, Instrument.fitsDepth_closer, ih h.pop (by simp at hfits; omega)]
      refine forall₂_congr fun u hu => ?_
      rw [countAround_append, countAround_append, countAround_cons,
        if_neg (h.not_around_of_closed hu), Nat.add_zero]

end Sweep

namespace Analysis
variable {ctx : Context} {root : Node}

/-- The nodes that the branches of a tree wrap: operands and conditions. -/
def wrappedIn (ctx : Context) (root : Node) : List Node := root.visits.flatMap (wrappedBy ctx)

theorem wrappedBy_of_not_finds {v : Visit} (h : finds v = false) : wrappedBy ctx v = [] := by
  simp only [finds] at h
  unfold wrappedBy
  split at h
  · contradiction
  · contradiction
  · contradiction
  · contradiction
  · next kind =>
    simp only [kind]
    by_cases hlink : v.isLink = true
    · rw [if_pos hlink]
    · have hnone : v.node.logicalOperator? = none := by simpa [hlink] using h
      rw [if_neg hlink, hnone]
  · split <;> simp_all

/-- Only visits that find a branch wrap nodes. -/
theorem flatMap_finders (ctx : Context) (visits : List Visit) :
    (visits.filter finds).flatMap (wrappedBy ctx) = visits.flatMap (wrappedBy ctx) := by
  induction visits with
  | nil => rfl
  | cons v rest ih =>
    by_cases hv : finds v = true
    · rw [List.filter_cons_of_pos hv, List.flatMap_cons, List.flatMap_cons, ih]
    · have hnone : wrappedBy ctx v = [] := wrappedBy_of_not_finds (by simpa using hv)
      rw [List.filter_cons_of_neg hv, List.flatMap_cons, hnone, ih, List.nil_append]

theorem extent_operandWrappers (depth id : Int) (arm : Nat) (operands : List Node) :
    (operandWrappers depth id arm operands).map Wrapper.extent = operands.map Node.extent := by
  induction operands generalizing arm with
  | nil => rfl
  | cons operand rest ih =>
    rw [operandWrappers, List.map_cons, List.map_cons, ih]
    rfl

/-- The wrappers of a branch span the nodes that it wraps. -/
theorem Form.extent_wrappers (depth id : Int) (form : Form) :
    (form.wrappers depth id).map Wrapper.extent = form.wrapped.map Node.extent := by
  cases form with
  | arms all => rfl
  | operands all => exact extent_operandWrappers ..
  | condition n => rfl

/-- The wrappers of a tree span the nodes that are wrapped in it. -/
theorem Bracketing.extents {found : List Found} {f : Findings}
    (h : Bracketing ctx root.visits found f) :
    (found.flatMap Found.wrappers).map Wrapper.extent
      = (wrappedIn ctx root).map Node.extent := by
  have hfound : ∀ b ∈ found,
      b.wrappers.map Wrapper.extent = (wrappedBy ctx b.visit).map Node.extent := by
    intro b hb
    obtain ⟨type, hbranch⟩ := h.branching b hb
    rw [Found.wrappers, Form.extent_wrappers, hbranch.wrapped_eq]
  calc (found.flatMap Found.wrappers).map Wrapper.extent
      = found.flatMap fun b => (wrappedBy ctx b.visit).map Node.extent := by
        rw [List.map_flatMap]
        exact List.flatMap_congr hfound
    _ = ((found.map Found.visit).flatMap (wrappedBy ctx)).map Node.extent := by
        rw [List.map_flatMap, List.flatMap_map]
    _ = (wrappedIn ctx root).map Node.extent := by rw [h.finders, flatMap_finders, wrappedIn]

/-- Where wrappers and nodes have the same spans, as many lie around each of them. -/
theorem countAround_le_iff {wrappers : List Wrapper} {nodes : List Node}
    (h : wrappers.map Wrapper.extent = nodes.map Node.extent) (bound : Nat) :
    (∀ w ∈ wrappers, w.countAround wrappers ≤ bound)
      ↔ ∀ x ∈ nodes, nodes.countP (fun y => x.Inside y) ≤ bound := by
  let around (inner outer : Nat × Nat) : Bool := outer.1 ≤ inner.1 ∧ inner.2 ≤ outer.2
  have hw : ∀ w, Wrapper.countAround w wrappers
      = (wrappers.map Wrapper.extent).countP (around w.extent) := by
    intro w
    rw [List.countP_map]
    rfl
  have hx : ∀ x : Node, nodes.countP (fun y => x.Inside y)
      = (nodes.map Node.extent).countP (around x.extent) := by
    intro x
    rw [List.countP_map]
    rfl
  simp only [hw, hx, h]
  rw [← List.forall_mem_map (f := Wrapper.extent)
    (P := fun s => (nodes.map Node.extent).countP (around s) ≤ bound), h, List.forall_mem_map]

/-- The nodes that one visit wraps lie apart. -/
theorem Bracketing.apart_wrappedBy {found : List Found} {f : Findings}
    (h : Bracketing ctx root.visits found f) (hn : root.isNested = true) {v : Visit}
    (hv : v ∈ root.visits) : (wrappedBy ctx v).Pairwise Node.Apart := by
  by_cases hfinds : finds v = true
  · have hmem : v ∈ found.map Found.visit := by
      rw [h.finders]
      exact List.mem_filter.2 ⟨hv, hfinds⟩
    obtain ⟨b, hb, rfl⟩ := List.mem_map.1 hmem
    obtain ⟨type, hbranch⟩ := h.branching b hb
    rw [← hbranch.wrapped_eq]
    exact (hbranch.spread (Node.isNested_of_mem_visits hn hv)).apart
  · rw [wrappedBy_of_not_finds (by simpa using hfinds)]
    exact .nil

/-- Of nodes that lie apart, at most one holds a node that is not empty. -/
theorem countP_inside_le_one {nodes : List Node} (h : nodes.Pairwise Node.Apart) {x : Node}
    (hx : x.start < x.stop) : nodes.countP (fun y => x.Inside y) ≤ 1 := by
  induction nodes with
  | nil => simp
  | cons y rest ih =>
    obtain ⟨hfirst, hrest⟩ := List.pairwise_cons.1 h
    by_cases hin : x.Inside y
    · have hnone : rest.countP (fun z => x.Inside z) = 0 := by
        rw [List.countP_eq_zero]
        intro z hz
        rw [decide_eq_true_iff]
        intro hin'
        have hself : x.Apart x := (hfirst z hz).mono hin hin'
        rcases hself with hself | hself <;> exact absurd hself (Nat.not_le.2 hx)
      simp [hin, hnone]
    · simpa [List.countP_cons, hin] using ih hrest

/-- The calls of what is found in a tree stay within the greatest depth if and only if no wrapped
node lies inside more wrapped nodes. -/
theorem Bracketing.fitsDepth_iff {found : List Found} {f : Findings}
    (h : Bracketing ctx root.visits found f) (hn : root.isNested = true)
    (hw : ∀ v ∈ root.visits, ∀ x ∈ wrappedBy ctx v, x.start < x.stop) :
    Instrument.fitsDepth 0 (Site.sort f.sites) = true
      ↔ ∀ x ∈ wrappedIn ctx root,
        (wrappedIn ctx root).countP (fun y => x.Inside y) ≤ Instrument.maxDepth := by
  have hperm := h.brackets ▸ (Site.sort_perm f.sites).filter Site.isBracket
  have hsweep := Sweep.start hperm (Site.sort_pairwise f.sites)
    (wrappers_proper h.visits h.branching hw) (wrappers_laminar hn h.visits h.branching)
  rw [← Instrument.fitsDepth_filter, ← countAround_le_iff h.extents]
  simpa using hsweep.fitsDepth_iff (Nat.zero_le _)

end Analysis

namespace Instrumenter

theorem check_ne_tooDeep (i : Instrumenter) (a : Analysis) (result : Bytes) (path : String) :
    i.check a result ≠ .error (.failed path .tooDeep) := by
  unfold check
  split
  · intro h
    cases h
  · split
    · intro h
      cases h
    · intro h
      cases h

/-- A module is refused for its depth if and only if its calls do not fit. -/
theorem instrument_eq_tooDeep_iff (i : Instrumenter) (a : Analysis) :
    i.instrument a = .error (.failed a.map.path .tooDeep)
      ↔ Instrument.fitsDepth 0 a.sites = false := by
  by_cases hfits : Instrument.fitsDepth 0 a.sites = true
  · refine iff_of_false ?_ (by simp [hfits])
    intro h
    simp only [instrument, hfits, Bool.not_true, Bool.false_eq_true, if_false] at h
    split at h
    · rcases Except.bind_error h with h | ⟨_, -, h⟩
      · exact i.check_ne_tooDeep _ _ _ h
      · split at h <;> cases h
    · split at h <;> cases h
  · have hfits : Instrument.fitsDepth 0 a.sites = false := by simpa using hfits
    refine iff_of_true ?_ hfits
    rw [instrument, hfits]
    rfl

/-- A module is refused for its depth if and only if some operand or condition that is wrapped lies
inside more than 32 of them, itself among them. Of those that one branch wraps, at most one counts,
so the operands of a chain do not add up: where nothing else is wrapped, however long the chain,
the module is not refused for its depth. -/
theorem instrument_depth {idBase : Int} {path language : String} {source : Bytes} {root : Node}
    {a : Analysis} (h : Analyzer.ofTree idBase path language source root = .ok a)
    (hn : root.isNested = true)
    (hw : ∀ v ∈ root.visits, ∀ x ∈ Analysis.wrappedBy (Analysis.Context.ofSource source idBase) v,
      x.start < x.stop) (i : Instrumenter) :
    let ctx := Analysis.Context.ofSource source idBase
    let wrapped := Analysis.wrappedIn ctx root
    (i.instrument a = .error (.failed a.map.path .tooDeep)
        ↔ ∃ x ∈ wrapped, 32 < wrapped.countP fun y => x.Inside y)
      ∧ ∀ v ∈ root.visits,
        (∀ x ∈ wrapped, (Analysis.wrappedBy ctx v).countP (fun y => x.Inside y) ≤ 1)
        ∧ (wrapped = Analysis.wrappedBy ctx v →
          i.instrument a ≠ .error (.failed a.map.path .tooDeep)) := by
  intro ctx wrapped
  obtain ⟨f, hf, rfl⟩ := Analyzer.ofTree_cases h
  obtain ⟨found, hfound⟩ := Analysis.findings_bracketing hf
  have hiff := i.instrument_eq_tooDeep_iff
    ⟨f.toMap path idBase, source, Site.sort f.sites, language⟩
  rw [← Bool.not_eq_true, hfound.fitsDepth_iff hn hw] at hiff
  have hone : ∀ v ∈ root.visits, ∀ x ∈ wrapped,
      (Analysis.wrappedBy ctx v).countP (fun y => x.Inside y) ≤ 1 := by
    intro v hv x hx
    obtain ⟨u, hu, hxu⟩ := List.mem_flatMap.1 hx
    exact Analysis.countP_inside_le_one (hfound.apart_wrappedBy hn hv) (hw u hu x hxu)
  refine ⟨?_, ?_⟩
  · rw [hiff]
    simp only [not_forall, Nat.not_le, exists_prop]
    rfl
  · intro v hv
    refine ⟨hone v hv, ?_⟩
    intro honly
    rw [Ne, hiff, not_not]
    intro x hx
    have hle := hone v hv x hx
    rw [← honly] at hle
    exact Nat.le_trans hle (by decide)

end Instrumenter

namespace Analysis

/-- An operand in `depth` parentheses that starts at an offset: `a`, then `(a or b)`, then
`((a or b) or b)` and so on. -/
def sampleOperand (role : Option Role) : (depth start : Nat) → Node
  | 0, start => .mk .identifier role start (start + 1) []
  | depth + 1, start =>
    let inner := sampleOperand (some .left) depth (start + 1)
    let chain := Node.mk .binaryExpression none inner.start (inner.stop + 5)
      [inner, .mk (.token "or") none (inner.stop + 1) (inner.stop + 3) [],
        .mk .identifier (some .right) (inner.stop + 4) (inner.stop + 5) []]
    .mk .parenthesized role start (inner.stop + 6)
      [.mk (.token "(") none start (start + 1) [], chain,
        .mk (.token ")") none (inner.stop + 5) (inner.stop + 6) []]

/-- The text of an operand in parentheses. -/
def sampleText : (depth : Nat) → String
  | 0 => "a"
  | depth + 1 => "(" ++ sampleText depth ++ " or b)"

/-- The source that returns an operand in parentheses. -/
def returnSource (depth : Nat) : Bytes := Utf8.ofString ("return " ++ sampleText depth)

def returnTree (depth : Nat) : Node :=
  let operand := sampleOperand none depth 7
  .mk .chunk none 0 operand.stop [.mk .returnStatement none 0 operand.stop
    [.mk (.token "return") none 0 6 [], .mk .expressionList none 7 operand.stop [operand]]]

end Analysis

/-- At 33 parentheses the operand in the middle lies inside 33 that are wrapped, and the module is
refused; at 32 it is not. -/
theorem Instrumenter.instrument_depth_samples :
    (∃ a, Analyzer.ofTree 0 "m.lua" "lua" (Analysis.returnSource 33) (Analysis.returnTree 33)
          = .ok a
        ∧ ∀ i : Instrumenter, i.instrument a = .error (.failed a.map.path .tooDeep))
      ∧ ∃ a, Analyzer.ofTree 0 "m.lua" "lua" (Analysis.returnSource 32) (Analysis.returnTree 32)
          = .ok a
        ∧ ∀ i : Instrumenter, i.instrument a ≠ .error (.failed a.map.path .tooDeep) := by
  have hok : ∀ depth ∈ [33, 32], (Analyzer.ofTree 0 "m.lua" "lua" (Analysis.returnSource depth)
      (Analysis.returnTree depth)).isOk = true := by decide +kernel
  refine ⟨?_, ?_⟩
  · obtain ⟨a, ha⟩ := Except.exists_of_isOk (hok 33 (by simp))
    refine ⟨a, ha, fun i => ?_⟩
    exact (instrument_depth ha (by decide +kernel) (by decide +kernel) i).1.2 (by decide +kernel)
  · obtain ⟨a, ha⟩ := Except.exists_of_isOk (hok 32 (by simp))
    refine ⟨a, ha, fun i => ?_⟩
    rw [Ne, (instrument_depth ha (by decide +kernel) (by decide +kernel) i).1]
    decide +kernel

end LuaCoverage
