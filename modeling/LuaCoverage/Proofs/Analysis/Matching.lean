import LuaCoverage.Proofs.Analysis.Branching
import Mathlib.Data.List.Perm.Basic

/-!
# Sites and probes match

A probe *demands* sites: a statement or a function demands one, a branch demands sites by its type
and the number of its paths. The arms of an `if` statement have a site each, the operands of a
chain and the values of an `if` expression an opener and a closer each, and the condition of a loop
one opener and one closer, which bear no arm.

The sites of a module *match* its probes when the ids of each kind count up from the first id, no
site is of an unknown probe, and every probe has exactly the sites it demands.

Results:
* `Branching.met`: the sites of a branch are those that it demands.
* `findings_match`: what is found in a tree matches.
-/

namespace LuaCoverage
open LuaCoverage.Lua

namespace Site

/-- A style and an arm: what tells a site from the others of its probe. -/
abbrev Mark : Type := Style × Option Int

def mark (s : Site) : Mark := (s.style, s.arm)

/-- Whether a site is of a probe. -/
def isOf (kind : ProbeKind) (id : Int) (s : Site) : Bool := s.kind == kind && s.id == id

/-- The marks of the sites of a probe. -/
def marks (kind : ProbeKind) (id : Int) (sites : List Site) : List Mark :=
  (sites.filter (isOf kind id)).map mark

/-- The marks of the sites around operands whose arms are numbered from `arm` on. -/
def pairMarks (arm count : Nat) : List Mark :=
  (List.range' arm count).flatMap fun k : Nat => [(.opener, some k), (.closer, some k)]

theorem isOf_eq_true_iff {kind : ProbeKind} {id : Int} {s : Site} :
    s.isOf kind id = true ↔ s.kind = kind ∧ s.id = id := by
  simp [isOf]

theorem marks_append (kind : ProbeKind) (id : Int) (a b : List Site) :
    marks kind id (a ++ b) = marks kind id a ++ marks kind id b := by
  simp [marks]

theorem marks_eq_map {kind : ProbeKind} {id : Int} {sites : List Site}
    (h : ∀ s ∈ sites, s.kind = kind ∧ s.id = id) : marks kind id sites = sites.map mark := by
  rw [marks, List.filter_eq_self.2 fun s hs => isOf_eq_true_iff.2 (h s hs)]

theorem marks_eq_nil {kind : ProbeKind} {id : Int} {sites : List Site}
    (h : ∀ s ∈ sites, ¬(s.kind = kind ∧ s.id = id)) : marks kind id sites = [] := by
  rw [marks, List.filter_eq_nil_iff.2 fun s hs => by simpa [isOf] using h s hs, List.map_nil]

theorem marks_perm {kind : ProbeKind} {id : Int} {a b : List Site} (h : a.Perm b) :
    (marks kind id a).Perm (marks kind id b) := (h.filter _).map _

end Site

/-- The sites that a probe demands: one, or those of a branch of a type with so many paths. -/
inductive Demand
  | single
  | branch (type : String) (paths : Nat)
  deriving DecidableEq, Repr

/-- Whether the marks of sites are those that a probe demands. -/
inductive Demand.Met : Demand → List Site.Mark → Prop
  | single : Met .single [(.statement, none)]
  | arms {n : Nat} {marks : List Site.Mark}
      (style : ∀ mark ∈ marks, mark.1 = .statement ∨ mark.1 = .elseArm)
      (arm : (marks.map Prod.snd).Perm ((List.range n).map fun k : Nat => some (k : Int))) :
      Met (.branch "if" n) marks
  | operands {type : String} {n : Nat} {marks : List Site.Mark}
      (known : type = "binary-expr" ∨ type = "cond-expr")
      (pairs : marks.Perm (Site.pairMarks 0 n)) : Met (.branch type n) marks
  | condition {type : String} {marks : List Site.Mark}
      (known : type = "while" ∨ type = "repeat")
      (pair : marks.Perm [(.conditionOpener, none), (.closer, none)]) : Met (.branch type 2) marks

theorem Demand.Met.perm {d : Demand} {a b : List Site.Mark} (h : d.Met a)
    (hab : a.Perm b) : d.Met b := by
  cases h with
  | single =>
    obtain rfl := List.singleton_perm.1 hab
    exact .single
  | arms style arm =>
    exact .arms (fun mark hm => style mark (hab.mem_iff.2 hm)) ((hab.map Prod.snd).symm.trans arm)
  | operands known pairs => exact .operands known (hab.symm.trans pairs)
  | condition known pair => exact .condition known (hab.symm.trans pair)

/-- The ids of the probes of a kind, with what the probes demand. -/
def ProbeMap.demands (m : ProbeMap) : ProbeKind → List (Int × Demand)
  | .statement => m.statements.map fun probe => (probe.id, .single)
  | .function => m.functions.map fun probe => (probe.id, .single)
  | .branch => m.branches.map fun probe => (probe.id, .branch probe.type probe.pathCount)

/-- The sites of a module match its probes. -/
structure Matches (m : ProbeMap) (sites : List Site) : Prop where
  ids : ∀ kind, (m.demands kind).map Prod.fst
    = (List.range (m.demands kind).length).map fun i : Nat => m.idBase + i
  owned : ∀ s ∈ sites, ∃ d, (s.id, d) ∈ m.demands s.kind
  met : ∀ kind id d, (id, d) ∈ m.demands kind → d.Met (Site.marks kind id sites)

namespace Matches
variable {m m' : ProbeMap} {sites new : List Site} {kind : ProbeKind} {d : Demand} {id : Int}

theorem id_eq (h : Matches m sites) {i : Nat} (hi : (m.demands kind)[i]? = some (id, d)) :
    id = m.idBase + (i : Nat) := by
  obtain ⟨hlt, hget⟩ := List.getElem?_eq_some_iff.1 hi
  have hid := congrArg (·[i]?) (h.ids kind)
  simpa [hget, hlt] using hid

theorem id_lt (h : Matches m sites) (hd : (id, d) ∈ m.demands kind) :
    id < m.idBase + (m.demands kind).length := by
  obtain ⟨i, hi⟩ := List.getElem?_of_mem hd
  obtain ⟨hlt, -⟩ := List.getElem?_eq_some_iff.1 hi
  have hid := h.id_eq hi
  omega

/-- The next id of a kind is of no site. -/
theorem fresh (h : Matches m sites) :
    ∀ s ∈ sites, ¬(s.kind = kind ∧ s.id = m.idBase + (m.demands kind).length) := by
  rintro s hs ⟨rfl, hid⟩
  obtain ⟨d, hd⟩ := h.owned s hs
  have hlt := h.id_lt hd
  omega

/-- A probe with the next id and the sites that it demands may be added. -/
theorem add (kind : ProbeKind) (d : Demand) (h : Matches m sites) (base : m'.idBase = m.idBase)
    (added : m'.demands kind = m.demands kind ++ [(m.idBase + (m.demands kind).length, d)])
    (others : ∀ other ≠ kind, m'.demands other = m.demands other)
    (of : ∀ s ∈ new, s.kind = kind ∧ s.id = m.idBase + (m.demands kind).length)
    (met : d.Met (new.map Site.mark)) : Matches m' (sites ++ new) where
  ids := by
    intro other
    by_cases hk : other = kind
    · subst hk
      rw [added, base, List.map_append, h.ids]
      simp [List.range_succ]
    · rw [others other hk, base, h.ids]
  owned := by
    intro s hs
    have hsub : ∀ other, m.demands other ⊆ m'.demands other := by
      intro other
      by_cases hk : other = kind
      · subst hk; rw [added]; exact List.subset_append_left ..
      · rw [others other hk]; exact List.Subset.refl _
    rcases List.mem_append.1 hs with hs | hs
    · obtain ⟨e, he⟩ := h.owned s hs
      exact ⟨e, hsub _ he⟩
    · obtain ⟨hk, hid⟩ := of s hs
      exact ⟨d, by simp [hk, hid, added]⟩
  met := by
    intro other id e he
    by_cases hnew : other = kind ∧ id = m.idBase + (m.demands kind).length
    · obtain ⟨rfl, rfl⟩ := hnew
      obtain rfl : e = d := by
        rw [added, List.mem_append] at he
        rcases he with he | he
        · have hlt := h.id_lt he
          omega
        · simpa using he
      rw [Site.marks_append, Site.marks_eq_nil h.fresh, List.nil_append, Site.marks_eq_map of]
      exact met
    · have hold : (id, e) ∈ m.demands other := by
        by_cases hk : other = kind
        · subst hk
          rw [added, List.mem_append] at he
          rcases he with he | he
          · exact he
          · simp only [List.mem_singleton, Prod.mk.injEq] at he
            exact absurd ⟨rfl, he.1⟩ hnew
        · rwa [others other hk] at he
      have hnone : Site.marks other id new = [] := by
        apply Site.marks_eq_nil
        rintro s hs ⟨hk, hid⟩
        obtain ⟨hk', hid'⟩ := of s hs
        exact hnew ⟨hk ▸ hk', hid ▸ hid'⟩
      rw [Site.marks_append, hnone, List.append_nil]
      exact h.met other id e hold

theorem perm (h : Matches m sites) (hp : sites.Perm new) : Matches m new where
  ids := h.ids
  owned s hs := h.owned s (hp.mem_iff.2 hs)
  met kind id d hd := (h.met kind id d hd).perm (Site.marks_perm hp)

end Matches

namespace Analysis

theorem map_mark_wrapAll (depth id : Int) (arm : Nat) (operands : List Node) :
    (wrapAll depth id arm operands).map Site.mark = Site.pairMarks arm operands.length := by
  induction operands generalizing arm with
  | nil => rfl
  | cons operand rest ih => simp [wrapAll, wrap, Site.mark, Site.pairMarks, List.range'_succ, ih]

theorem map_arm_armSites (depth id : Int) (arm : Nat) (arms : List Arm) :
    (armSites depth id arm arms).map Site.arm
      = (List.range' arm arms.length).map fun k : Nat => some (k : Int) := by
  induction arms generalizing arm with
  | nil => rfl
  | cons a rest ih => simp [armSites, List.range'_succ, ih]

theorem style_of_mem_armSites {depth id : Int} {arm : Nat} {arms : List Arm} {s : Site}
    (h : s ∈ armSites depth id arm arms) : ∃ a ∈ arms, s.style = a.style := by
  induction arms generalizing arm with
  | nil => simp [armSites] at h
  | cons a rest ih =>
    rcases List.mem_cons.1 h with rfl | h
    · exact ⟨a, by simp, rfl⟩
    · obtain ⟨b, hb, hs⟩ := ih h
      exact ⟨b, by simp [hb], hs⟩

theorem laterArms_style {ctx : Context} {nodes : List Node} {arms : List Arm}
    (h : laterArms ctx nodes = .ok arms) : ∀ a ∈ arms, a.style = .statement := by
  induction nodes generalizing arms with
  | nil => cases h; simp
  | cons n rest ih =>
    simp only [laterArms] at h
    split at h
    · obtain ⟨token, _, h⟩ := Except.bind_ok h
      obtain ⟨more, hmore, h⟩ := Except.bind_ok h
      cases h
      simpa using ih hmore
    · obtain ⟨token, _, h⟩ := Except.bind_ok h
      obtain ⟨more, hmore, h⟩ := Except.bind_ok h
      cases h
      simpa using ih hmore
    · exact ih h

theorem ifArms_style {ctx : Context} {n : Node} {arms : List Arm} (h : ifArms ctx n = .ok arms) :
    ∀ a ∈ arms, a.style = .statement ∨ a.style = .elseArm := by
  obtain ⟨thenToken, _, h⟩ := Except.bind_ok h
  obtain ⟨endToken, _, h⟩ := Except.bind_ok h
  obtain ⟨later, hlater, h⟩ := Except.bind_ok h
  cases h
  intro a ha
  simp only [List.cons_append, List.mem_cons, List.mem_append] at ha
  rcases ha with rfl | ha | ha
  · exact .inl rfl
  · exact .inl (laterArms_style hlater a ha)
  · split at ha
    · simp at ha
    · right; simp_all

theorem mem_wrapAll {depth id : Int} {arm : Nat} {operands : List Node} {s : Site}
    (h : s ∈ wrapAll depth id arm operands) : s.kind = .branch ∧ s.id = id := by
  induction operands generalizing arm with
  | nil => simp [wrapAll] at h
  | cons operand rest ih =>
    simp only [wrapAll, wrap, List.mem_append, List.mem_cons, List.not_mem_nil, or_false] at h
    rcases h with (rfl | rfl) | h
    · exact ⟨rfl, rfl⟩
    · exact ⟨rfl, rfl⟩
    · exact ih h

theorem mem_armSites {depth id : Int} {arm : Nat} {arms : List Arm} {s : Site}
    (h : s ∈ armSites depth id arm arms) : s.kind = .branch ∧ s.id = id := by
  induction arms generalizing arm with
  | nil => simp [armSites] at h
  | cons a rest ih =>
    rcases List.mem_cons.1 h with rfl | h
    · exact ⟨rfl, rfl⟩
    · exact ih h

theorem Form.mem_sites {form : Form} {depth id : Int} {s : Site} (h : s ∈ form.sites depth id) :
    s.kind = .branch ∧ s.id = id := by
  cases form with
  | arms all => exact mem_armSites h
  | operands all => exact mem_wrapAll h
  | condition n =>
    simp only [Form.sites, wrap, List.mem_cons, List.not_mem_nil, or_false] at h
    rcases h with rfl | rfl <;> exact ⟨rfl, rfl⟩

theorem met_arms {ctx : Context} {n : Node} {arms : List Arm} (h : ifArms ctx n = .ok arms)
    (depth id : Int) :
    (Demand.branch "if" arms.length).Met ((armSites depth id 0 arms).map Site.mark) := by
  refine .arms ?_ ?_
  · intro mark hm
    obtain ⟨s, hs, rfl⟩ := List.mem_map.1 hm
    obtain ⟨a, ha, hstyle⟩ := style_of_mem_armSites hs
    simpa [Site.mark, hstyle] using ifArms_style h a ha
  · have hsnd : Prod.snd ∘ Site.mark = Site.arm := rfl
    rw [List.map_map, hsnd, map_arm_armSites, List.range_eq_range']

/-- The sites of a branch are those that it demands. -/
theorem Branching.met {ctx : Context} {v : Visit} {type : String} {form : Form}
    (h : Branching ctx v type form) (depth id : Int) :
    (Demand.branch type form.paths.length).Met ((form.sites depth id).map Site.mark) := by
  cases h with
  | ifStatement kind found =>
    simp only [Form.paths, Form.sites, List.length_map]
    exact met_arms found depth id
  | chain kind head logical found =>
    exact .operands (.inl rfl) (.of_eq (map_mark_wrapAll ..))
  | ifExpression kind enough =>
    exact .operands (.inr rfl) (.of_eq (map_mark_wrapAll ..))
  | whileStatement kind found => exact .condition (.inl rfl) (.refl _)
  | repeatStatement kind found => exact .condition (.inr rfl) (.refl _)

variable {ctx : Context} {path : String} {f : Findings}

theorem match_statement (h : Matches (f.toMap path ctx.idBase) f.sites) (n : Node) (depth : Nat) :
    Matches ((statement ctx n depth f).toMap path ctx.idBase) (statement ctx n depth f).sites := by
  apply h.add .statement .single
  · rfl
  · simp [statement, Findings.addStatement, Findings.toMap, ProbeMap.demands]
  · intro other hk
    cases other <;> simp_all [statement, Findings.addStatement, Findings.toMap, ProbeMap.demands]
  · simp [Findings.toMap, ProbeMap.demands]
  · exact .single

theorem match_function (h : Matches (f.toMap path ctx.idBase) f.sites) (v : Visit) (name : String)
    (decl loc : Location) (offset : Nat) :
    Matches ((addFunctionAt ctx v name decl loc offset f).toMap path ctx.idBase)
      (addFunctionAt ctx v name decl loc offset f).sites := by
  apply h.add .function .single
  · rfl
  · simp [addFunctionAt, Findings.addFunction, Findings.toMap, ProbeMap.demands]
  · intro other hk
    cases other <;> simp_all [addFunctionAt, Findings.addFunction, Findings.toMap, ProbeMap.demands]
  · simp [Findings.toMap, ProbeMap.demands]
  · exact .single

theorem match_branch (h : Matches (f.toMap path ctx.idBase) f.sites) {v : Visit} {type : String}
    {form : Form} (hb : Branching ctx v type form) :
    Matches ((addForm ctx v type form f).toMap path ctx.idBase)
      (addForm ctx v type form f).sites := by
  apply h.add .branch (.branch type form.paths.length)
  · rfl
  · simp [addForm, branch, Findings.addBranch, Findings.toMap, ProbeMap.demands,
      BranchProbe.pathCount]
  · intro other hk
    cases other <;>
      simp_all [addForm, branch, Findings.addBranch, Findings.toMap, ProbeMap.demands]
  · intro s hs
    simpa [Findings.toMap, ProbeMap.demands] using Form.mem_sites hs
  · exact hb.met ..

theorem match_empty (path : String) (idBase : Int) :
    Matches (Findings.empty.toMap path idBase) Findings.empty.sites where
  ids kind := by cases kind <;> rfl
  owned s hs := by simp [Findings.empty] at hs
  met kind id d hd := by
    cases kind <;> simp [Findings.toMap, Findings.empty, ProbeMap.demands] at hd

theorem match_visit (h : Matches (f.toMap path ctx.idBase) f.sites) {g : Findings} {v : Visit}
    (hg : visit ctx f v = .ok g) : Matches (g.toMap path ctx.idBase) g.sites :=
  visit_keeps (P := fun f => Matches (f.toMap path ctx.idBase) f.sites)
    (fun _ hf => match_statement hf v.node v.depth)
    (fun _ name decl loc offset hf => match_function hf v name decl loc offset)
    (fun _ _ _ hb hf => match_branch hf hb) h hg

/-- What is found in a tree matches. -/
theorem findings_match {root : Node} (path : String) (h : findings ctx root = .ok f) :
    Matches (f.toMap path ctx.idBase) f.sites :=
  Except.foldlM_keeps (P := fun _ f => Matches (f.toMap path ctx.idBase) f.sites)
    (fun _ _ _ _ hf hg => match_visit hf hg) [] (match_empty path ctx.idBase) h

end Analysis

end LuaCoverage
