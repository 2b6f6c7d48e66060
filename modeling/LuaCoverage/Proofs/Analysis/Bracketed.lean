import LuaCoverage.Proofs.Analysis.Bracket
import LuaCoverage.Proofs.Analysis.Matching
import LuaCoverage.Proofs.Analysis.Nesting

/-!
# The calls of an analysis nest

The wrappers of all branches of a nested tree are laminar. Those of one branch lie apart. Of two
branches, either the visits lie apart, or one visit leads to the other; then the inner branch lies
inside one operand of the outer one, and its wrappers are labelled with the greater depth, or it
lies apart from all of them. So the sorted sites of an analysis are scanned to the end.

Results:
* `laminar_of_ordered`: wrappers of branches whose visits are ordered are laminar.
* `Analyzer.ofTree_bracketed`: every closer of an analysis closes the innermost open call.
-/

namespace LuaCoverage
open LuaCoverage.Lua LuaCoverage.Text

namespace Analysis
variable {ctx : Context}

def wrapperOf (operand : Node) (depth : Int) (style : Site.Style) (id : Int) (arm : Option Int) :
    Wrapper :=
  ⟨operand.start, operand.stop, depth, style, id, arm⟩

/-- The wrappers around operands whose arms are numbered from `arm` on. -/
def operandWrappers (depth id : Int) : (arm : Nat) → List Node → List Wrapper
  | _, [] => []
  | arm, operand :: rest =>
    wrapperOf operand depth .opener id (some arm) :: operandWrappers depth id (arm + 1) rest

def Form.wrappers (depth id : Int) : Form → List Wrapper
  | .arms _ => []
  | .operands all => operandWrappers depth id 0 all
  | .condition n => [wrapperOf n depth .conditionOpener id none]

theorem filter_wrapAll (depth id : Int) (arm : Nat) (operands : List Node) :
    (wrapAll depth id arm operands).filter Site.isBracket
      = (operandWrappers depth id arm operands).flatMap Wrapper.sites := by
  induction operands generalizing arm with
  | nil => rfl
  | cons operand rest ih =>
    rw [wrapAll, List.filter_append, ih, operandWrappers, List.flatMap_cons]
    rfl

/-- The sites of a branch that open or close calls are those of its wrappers. -/
theorem Branching.brackets {v : Visit} {type : String} {form : Form}
    (h : Branching ctx v type form) (depth id : Int) :
    (form.sites depth id).filter Site.isBracket
      = (form.wrappers depth id).flatMap Wrapper.sites := by
  cases h with
  | ifStatement kind found =>
    simp only [Form.sites, Form.wrappers, List.flatMap_nil, List.filter_eq_nil_iff]
    intro s hs
    obtain ⟨a, ha, hstyle⟩ := style_of_mem_armSites hs
    rcases ifArms_style found a ha with hk | hk <;>
      simp [Site.isBracket, Site.isOpener, Site.isCloser, hstyle, hk]
  | chain => exact filter_wrapAll ..
  | ifExpression => exact filter_wrapAll ..
  | whileStatement => rfl
  | repeatStatement => rfl

/-- A wrapper is around one of the wrapped nodes. -/
theorem mem_operandWrappers {depth id : Int} {arm : Nat} {operands : List Node} {w : Wrapper}
    (h : w ∈ operandWrappers depth id arm operands) :
    ∃ x ∈ operands, ∃ style arm, w = wrapperOf x depth style id arm ∧ w.opener.isOpener = true := by
  induction operands generalizing arm with
  | nil => simp [operandWrappers] at h
  | cons operand rest ih =>
    rcases List.mem_cons.1 h with rfl | h
    · exact ⟨operand, by simp, .opener, some arm, rfl, rfl⟩
    · obtain ⟨x, hx, hw⟩ := ih h
      exact ⟨x, by simp [hx], hw⟩

theorem Form.mem_wrappers {depth id : Int} {form : Form} {w : Wrapper}
    (h : w ∈ form.wrappers depth id) :
    ∃ x ∈ form.wrapped, ∃ style arm,
      w = wrapperOf x depth style id arm ∧ w.opener.isOpener = true := by
  cases form with
  | arms all => simp [wrappers] at h
  | operands all => exact mem_operandWrappers h
  | condition n =>
    obtain rfl := List.mem_singleton.1 h
    exact ⟨n, by simp [wrapped], .conditionOpener, none, rfl, rfl⟩

theorem operandWrappers_pairwise {depth id : Int} {arm : Nat} {operands : List Node}
    (h : operands.Pairwise Node.Apart) :
    (operandWrappers depth id arm operands).Pairwise Wrapper.Apart := by
  induction operands generalizing arm with
  | nil => exact .nil
  | cons operand rest ih =>
    obtain ⟨hfirst, hrest⟩ := List.pairwise_cons.1 h
    refine .cons ?_ (ih hrest)
    intro w hw
    obtain ⟨x, hx, style, arm', rfl, -⟩ := mem_operandWrappers hw
    exact hfirst x hx

theorem Form.wrappers_pairwise {depth id : Int} {form : Form}
    (h : form.wrapped.Pairwise Node.Apart) :
    (form.wrappers depth id).Pairwise Wrapper.Apart := by
  cases form with
  | arms all => exact .nil
  | operands all => exact operandWrappers_pairwise h
  | condition n => exact List.pairwise_singleton ..

/-- A branch with the visit that found it and its id. -/
structure Found where
  visit : Visit
  form : Form
  id : Int

/-- The wrappers of a branch that was found. -/
def Found.wrappers (b : Found) : List Wrapper := b.form.wrappers (b.visit.depth + 1) b.id

/-- The branches found on the way through the visits so far, each at a visit of its own, have the
calls that are open or closed at the sites. -/
structure Bracketing (ctx : Context) (front : List Visit) (found : List Found) (f : Findings) :
    Prop where
  finders : found.map Found.visit = front.filter finds
  branching : ∀ b ∈ found, ∃ type, Branching ctx b.visit type b.form
  brackets : f.sites.filter Site.isBracket
    = (found.flatMap Found.wrappers).flatMap Wrapper.sites

theorem brackets_statement (n : Node) (depth : Nat) (f : Findings) :
    (statement ctx n depth f).sites.filter Site.isBracket = f.sites.filter Site.isBracket := by
  rw [statement, Findings.addStatement, List.filter_append]
  exact List.append_nil _

theorem Bracketing.visits {front : List Visit} {found : List Found} {f : Findings}
    (h : Bracketing ctx front found f) : (found.map Found.visit).Sublist front := by
  rw [h.finders]
  exact List.filter_sublist

theorem Bracketing.visit {front : List Visit} {found : List Found} {f g : Findings} {v : Visit}
    (h : Bracketing ctx front found f) (hg : visit ctx f v = .ok g) :
    ∃ found, Bracketing ctx (front ++ [v]) found g := by
  have hf : (if v.isStatement then statement ctx v.node v.depth f else f).sites.filter
      Site.isBracket = f.sites.filter Site.isBracket := by
    split
    · exact brackets_statement ..
    · rfl
  rw [Analysis.visit] at hg
  generalize (if v.isStatement then statement ctx v.node v.depth f else f) = f' at hf hg
  rcases construct_finds hg with ⟨hnone, ⟨-, rfl⟩ | ⟨-, name, decl, loc, offset, rfl⟩⟩
    | ⟨hfinds, type, form, hb, rfl⟩
  · exact ⟨found, by simp [h.finders, hnone], h.branching, hf.trans h.brackets⟩
  · refine ⟨found, by simp [h.finders, hnone], h.branching, ?_⟩
    rw [addFunctionAt, Findings.addFunction, List.filter_append, hf, h.brackets]
    exact List.append_nil _
  · refine ⟨found ++ [⟨v, form, ctx.idBase + f'.branches.length⟩], ?_, ?_, ?_⟩
    · simp [h.finders, hfinds]
    · intro b hmem
      rcases List.mem_append.1 hmem with hmem | hmem
      · exact h.branching b hmem
      · obtain rfl := List.mem_singleton.1 hmem
        exact ⟨type, hb⟩
    · rw [addForm, branch, Findings.addBranch, List.filter_append, hf, h.brackets, hb.brackets]
      simp [Found.wrappers]

theorem findings_bracketing {root : Node} {f : Findings} (h : findings ctx root = .ok f) :
    ∃ found, Bracketing ctx root.visits found f := by
  refine Except.foldlM_keeps (P := fun front f => ∃ found, Bracketing ctx front found f) ?_ []
    ⟨[], rfl, by simp, rfl⟩ h
  rintro front v f g ⟨found, hf⟩ hg
  exact hf.visit hg

/-- Wrappers of branches whose visits are ordered are laminar. -/
theorem laminar_of_ordered {b c : Found} {type type' : String}
    (hb : Branching ctx b.visit type b.form) (hc : Branching ctx c.visit type' c.form)
    (hbn : b.visit.node.isNested = true) (hcn : c.visit.node.isNested = true)
    (h : b.visit.Ordered c.visit) {x y : Wrapper} (hx : x ∈ b.wrappers) (hy : y ∈ c.wrappers) :
    x.Laminar y := by
  obtain ⟨m, hm, style, arm, rfl, -⟩ := Form.mem_wrappers hx
  obtain ⟨n, hn, style', arm', rfl, -⟩ := Form.mem_wrappers hy
  have hin := (hc.spread hcn).inside n hn
  rcases h with hlead | hbefore
  · have hdepth := (hlead.inside hbn).2.2
    rcases (hb.spread hbn).clear _ hlead hc.mayWrap m hm with hinside | hapart
    · have hnm := hin.trans hinside
      exact .inr (.inr ⟨hnm.1, hnm.2, by simp only [wrapperOf]; omega⟩)
    · exact .inl (hapart.mono hin (.refl _)).symm
  · exact .inl (.inl (hbefore.mono ((hb.spread hbn).inside m hm) hin))

theorem wrappers_laminar {root : Node} (hn : root.isNested = true) {found : List Found}
    (hv : (found.map Found.visit).Sublist root.visits)
    (hb : ∀ b ∈ found, ∃ type, Branching ctx b.visit type b.form) :
    (found.flatMap Found.wrappers).Pairwise Wrapper.Laminar := by
  have hnested : ∀ b ∈ found, b.visit.node.isNested = true := fun b hmem =>
    Node.isNested_of_mem_visits hn (hv.subset (List.mem_map_of_mem hmem))
  have hordered : found.Pairwise fun b c => b.visit.Ordered c.visit := by
    rw [← List.pairwise_map]
    exact (Node.visits_ordered hn).sublist hv
  refine List.pairwise_flatMap.2 ⟨?_, ?_⟩
  · intro b hmem
    obtain ⟨type, hbranch⟩ := hb b hmem
    exact (Form.wrappers_pairwise (hbranch.spread (hnested b hmem)).apart).imp fun h => .inl h
  · refine hordered.imp_of_mem ?_
    intro b c hbm hcm hbc x hx y hy
    obtain ⟨type, hbb⟩ := hb b hbm
    obtain ⟨type', hcb⟩ := hb c hcm
    exact laminar_of_ordered hbb hcb (hnested b hbm) (hnested c hcm) hbc hx hy

theorem wrappers_proper {root : Node} {found : List Found}
    (hv : (found.map Found.visit).Sublist root.visits)
    (hb : ∀ b ∈ found, ∃ type, Branching ctx b.visit type b.form)
    (hw : ∀ v ∈ root.visits, ∀ x ∈ wrappedBy ctx v, x.start < x.stop) :
    ∀ w ∈ found.flatMap Found.wrappers, w.Proper := by
  intro w hmem
  obtain ⟨b, hbm, hwb⟩ := List.mem_flatMap.1 hmem
  obtain ⟨type, hbranch⟩ := hb b hbm
  obtain ⟨x, hx, style, arm, rfl, hopen⟩ := Form.mem_wrappers hwb
  rw [hbranch.wrapped_eq] at hx
  exact ⟨hopen, hw b.visit (hv.subset (List.mem_map_of_mem hbm)) x hx⟩

end Analysis

/-- The order of sites: by offset, at one offset the closers first, the deeper ones first among the
closers and last among the others. -/
def Site.InOrder (s t : Site) : Prop :=
  s.offset < t.offset ∨ s.offset = t.offset
    ∧ (s.isCloser ∧ ¬ t.isCloser ∨ s.isCloser ∧ t.isCloser ∧ t.depth ≤ s.depth
      ∨ ¬ s.isCloser ∧ ¬ t.isCloser ∧ s.depth ≤ t.depth)

theorem Site.inOrder_of_precedes {s t : Site} (h : s.precedes t = true) : s.InOrder t := by
  rw [precedes_iff] at h
  unfold InOrder
  cases hs : s.isCloser <;> cases ht : t.isCloser <;> simp [rank, hs, ht] at h ⊢ <;> omega

namespace Analyzer

/-- The sites of an analysis are those that are found in its tree, in order. Every closer closes
the innermost open call, and it is of the same branch and arm; nothing is closed that was not
opened, and nothing stays open. -/
theorem ofTree_bracketed {idBase : Int} {path language : String} {source : Bytes} {root : Node}
    {a : Analysis} (h : ofTree idBase path language source root = .ok a)
    (hn : root.isNested = true)
    (hw : ∀ v ∈ root.visits, ∀ x ∈ Analysis.wrappedBy (Analysis.Context.ofSource source idBase) v,
      x.start < x.stop) :
    (∃ f, Analysis.findings (Analysis.Context.ofSource source idBase) root = .ok f
        ∧ a.sites.Perm f.sites)
      ∧ a.sites.Pairwise Site.InOrder
      ∧ Site.scan? [] a.sites = some []
      ∧ (∀ front, front <+: a.sites → front.countP Site.isCloser ≤ front.countP Site.isOpener)
      ∧ a.sites.countP Site.isCloser = a.sites.countP Site.isOpener := by
  obtain ⟨f, hf, rfl⟩ := ofTree_cases h
  obtain ⟨found, hfound⟩ := Analysis.findings_bracketing hf
  have hscan : Site.scan? [] (Site.sort f.sites) = some [] := by
    refine Site.scan?_laminar ?_ ?_ (Analysis.wrappers_proper hfound.visits hfound.branching hw)
      (Analysis.wrappers_laminar hn hfound.visits hfound.branching)
    · rw [← hfound.brackets]
      exact (Site.sort_perm f.sites).filter _
    · exact Site.sort_pairwise f.sites
  refine ⟨⟨f, hf, Site.sort_perm f.sites⟩, ?_, hscan,
    fun front hfront => Site.closers_le_openers hscan hfront, ?_⟩
  · exact (Site.sort_pairwise f.sites).imp Site.inOrder_of_precedes
  · simpa using Site.count_of_scan? hscan

/-- Three calls open at one offset, and two close at one, twice: the sites are in this order. -/
theorem ofTree_bracketed_sample :
    ∃ a, ofTree 7 "m.lua" "lua" Analysis.sampleSource Analysis.sampleTree = .ok a
      ∧ a.sites = Analysis.sampleSites ∧ a.sites.Pairwise Site.InOrder
      ∧ Site.scan? [] a.sites = some [] := by
  obtain ⟨-, horder, hscan, -⟩ :=
    ofTree_bracketed ofTree_sample (by decide +kernel) (by decide +kernel)
  exact ⟨_, ofTree_sample, rfl, horder, hscan⟩

end Analyzer

end LuaCoverage
