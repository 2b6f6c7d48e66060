import LuaCoverage.Analysis.Site
import Mathlib.Data.List.Perm.Basic
import Mathlib.Data.List.Perm.Lattice

/-!
# Sites that nest

A *wrapper* is a call around an operand: an opener in front of it and a closer behind it. A scan of
sites keeps the openers that are not closed yet on a stack, and asks of every closer that it is of
the same branch and arm as the opener on top.

Wrappers are *laminar* when any two of them lie apart, or one lies within the other and has the
greater depth. The sites of laminar wrappers, once they are sorted, are scanned to the end with
nothing left open. The sort puts a site in front of another by offset, then closers first, then by
depth, so wherever two wrappers share an offset their depths decide.

Results:
* `Sweep.first_cases`: the next site opens a wrapper, or closes the one on top.
* `scan?_laminar`: sorted sites of laminar wrappers are scanned to the end.
-/

namespace LuaCoverage

namespace Site

/-- Whether the site opens or closes a wrapped operand. -/
def isBracket (s : Site) : Bool := s.isOpener || s.isCloser

/-- Whether the site closes what another opens. -/
def closes (s opener : Site) : Bool :=
  s.kind == opener.kind && s.id == opener.id && s.arm == opener.arm

theorem precedes_iff {a b : Site} : a.precedes b = true ↔ a.offset < b.offset
    ∨ a.offset = b.offset ∧ (a.rank.1 < b.rank.1 ∨ a.rank.1 = b.rank.1 ∧ a.rank.2 ≤ b.rank.2) := by
  simp [precedes]

/-- What a site does to the openers that are not closed yet. -/
def scanOne? (s : Site) (stack : List Site) : Option (List Site) :=
  if s.isCloser then
    match stack with
    | [] => none
    | top :: rest => if s.closes top then some rest else none
  else if s.isOpener then some (s :: stack)
  else some stack

/-- Scans sites from left to right, with the openers that are not closed yet on a stack. -/
def scan? (stack : List Site) : List Site → Option (List Site)
  | [] => some stack
  | s :: rest => (s.scanOne? stack).bind fun stack => scan? stack rest

theorem scan?_filter (stack sites : List Site) :
    scan? stack (sites.filter isBracket) = scan? stack sites := by
  induction sites generalizing stack with
  | nil => rfl
  | cons s rest ih =>
    by_cases hs : s.isBracket = true
    · rw [List.filter_cons_of_pos hs]
      simp only [scan?, ih]
    · rw [List.filter_cons_of_neg hs, ih]
      simp only [isBracket, Bool.or_eq_true, not_or, Bool.not_eq_true] at hs
      simp [scan?, scanOne?, hs]

/-- As many sites of a scan open as close, but for those on the stack. -/
theorem count_of_scan? {stack left sites : List Site} (h : scan? stack sites = some left) :
    sites.countP isCloser + left.length = sites.countP isOpener + stack.length := by
  induction sites generalizing stack with
  | nil =>
    obtain rfl : stack = left := by simpa [scan?] using h
    rfl
  | cons s rest ih =>
    obtain ⟨next, hone, hrest⟩ := Option.bind_eq_some_iff.1 h
    have hcount := ih hrest
    simp only [scanOne?] at hone
    split at hone
    · next hc =>
      have ho : s.isOpener = false := by
        simp only [isCloser, beq_iff_eq] at hc
        simp [isOpener, hc]
      split at hone
      · cases hone
      · split at hone
        · cases hone
          simp only [List.countP_cons, hc, ho, List.length_cons]
          simp only [if_true, Bool.false_eq_true, if_false]
          omega
        · cases hone
    · next hc =>
      split at hone
      · next ho =>
        cases hone
        simp only [List.length_cons] at hcount
        simp only [List.countP_cons, hc, ho]
        simp only [if_true, Bool.false_eq_true, if_false]
        omega
      · next ho =>
        cases hone
        simp only [List.countP_cons, hc, ho]
        simpa using hcount

theorem scan?_append (stack a b : List Site) :
    scan? stack (a ++ b) = (scan? stack a).bind fun stack => scan? stack b := by
  induction a generalizing stack with
  | nil => rfl
  | cons s rest ih =>
    simp only [List.cons_append, scan?, Option.bind_assoc, ih]

/-- Nothing is closed that was not opened, anywhere in a list that is scanned to the end. -/
theorem closers_le_openers {sites left : List Site} (h : scan? [] sites = some left)
    {front : List Site} (hfront : front <+: sites) :
    front.countP isCloser ≤ front.countP isOpener := by
  obtain ⟨back, rfl⟩ := hfront
  rw [scan?_append] at h
  obtain ⟨stack, hstack, -⟩ := Option.bind_eq_some_iff.1 h
  have hcount := count_of_scan? hstack
  simp only [List.length_nil] at hcount
  omega

end Site

/-- A call around an operand. -/
structure Wrapper where
  start : Nat
  stop : Nat
  depth : Int
  style : Site.Style
  id : Int
  arm : Option Int
  deriving DecidableEq, Repr

namespace Wrapper

/-- The site in front of the operand. -/
def opener (w : Wrapper) : Site := ⟨w.start, w.depth, w.style, .branch, w.id, w.arm⟩

def closer (w : Wrapper) : Site := ⟨w.stop, w.depth, .closer, .branch, w.id, w.arm⟩

@[simp] theorem offset_opener (w : Wrapper) : w.opener.offset = w.start := rfl

@[simp] theorem offset_closer (w : Wrapper) : w.closer.offset = w.stop := rfl

def sites (w : Wrapper) : List Site := [w.opener, w.closer]

/-- A wrapper opens, and its operand is not empty. -/
structure Proper (w : Wrapper) : Prop where
  opens : w.opener.isOpener = true
  nonempty : w.start < w.stop

/-- Two wrappers have no byte in common. -/
def Apart (a b : Wrapper) : Prop := a.stop ≤ b.start ∨ b.stop ≤ a.start

/-- One wrapper lies within another, and deeper. -/
structure Within (inner outer : Wrapper) : Prop where
  start : outer.start ≤ inner.start
  stop : inner.stop ≤ outer.stop
  depth : outer.depth < inner.depth

def Laminar (a b : Wrapper) : Prop := Apart a b ∨ Within a b ∨ Within b a

theorem Laminar.symm {a b : Wrapper} (h : Laminar a b) : Laminar b a := by
  rcases h with h | h | h
  · exact .inl h.symm
  · exact .inr (.inr h)
  · exact .inr (.inl h)

variable {a b : Wrapper}

theorem isCloser_opener (h : a.Proper) : a.opener.isCloser = false := by
  have := h.opens
  simp only [Site.isOpener, Bool.or_eq_true, beq_iff_eq] at this
  rcases this with hs | hs <;> simp [Site.isCloser, hs]

theorem isCloser_closer (w : Wrapper) : w.closer.isCloser = true := rfl

theorem rank_opener (h : a.Proper) : a.opener.rank = (1, a.depth) := by
  simp [Site.rank, isCloser_opener h]
  rfl

theorem rank_closer (a : Wrapper) : a.closer.rank = (0, -a.depth) := rfl

theorem opener_precedes_opener (ha : a.Proper) (hb : b.Proper) :
    a.opener.precedes b.opener = true
      ↔ a.start < b.start ∨ a.start = b.start ∧ a.depth ≤ b.depth := by
  simp [Site.precedes_iff, rank_opener ha, rank_opener hb]

theorem opener_precedes_closer (ha : a.Proper) :
    a.opener.precedes b.closer = true ↔ a.start < b.stop := by
  simp [Site.precedes_iff, rank_opener ha, rank_closer]

theorem closer_precedes_opener (hb : b.Proper) :
    a.closer.precedes b.opener = true ↔ a.stop ≤ b.start := by
  simp [Site.precedes_iff, rank_opener hb, rank_closer, Nat.le_iff_lt_or_eq]

theorem closer_precedes_closer :
    a.closer.precedes b.closer = true ↔ a.stop < b.stop ∨ a.stop = b.stop ∧ b.depth ≤ a.depth := by
  simp [Site.precedes_iff, rank_closer]

end Wrapper

/-- What is left of a sorted list of sites when some wrappers are `pending` and others, innermost
first, are on the `stack`. -/
structure Sweep (pending stack : List Wrapper) (rest : List Site) : Prop where
  left : rest.Perm (pending.flatMap Wrapper.sites ++ stack.map Wrapper.closer)
  sorted : rest.Pairwise fun a b => a.precedes b
  proper : ∀ w ∈ pending ++ stack, w.Proper
  laminar : pending.Pairwise Wrapper.Laminar
  nested : stack.Pairwise fun inner outer => ¬outer.closer.precedes inner.closer
  opened : ∀ w ∈ pending, ∀ outer ∈ stack, w.Laminar outer ∧ outer.opener.precedes w.opener

namespace Sweep
open Wrapper
variable {pending stack : List Wrapper} {s : Site} {rest : List Site}

/-- A list of pending wrappers may be put into another order. -/
theorem reorder {other : List Wrapper} (h : Sweep pending stack rest) (hp : pending.Perm other) :
    Sweep other stack rest where
  left := h.left.trans ((hp.flatMap_right _).append_right _)
  sorted := h.sorted
  proper w hw := h.proper w (by simpa [hp.mem_iff] using hw)
  laminar := (hp.pairwise_iff Laminar.symm).1 h.laminar
  nested := h.nested
  opened w hw := h.opened w (hp.mem_iff.2 hw)

/-- The first site precedes all that are left. -/
theorem first_precedes (h : Sweep pending stack (s :: rest)) {other : Site}
    (ho : other ∈ pending.flatMap Wrapper.sites ++ stack.map Wrapper.closer) :
    s.precedes other = true := by
  rcases List.mem_cons.1 (h.left.mem_iff.2 ho) with rfl | ho
  · simpa using Site.precedes_total other other
  · exact List.rel_of_pairwise_cons h.sorted ho

theorem first_precedes_opener (h : Sweep pending stack (s :: rest)) {w : Wrapper}
    (hw : w ∈ pending) : s.precedes w.opener = true :=
  h.first_precedes (List.mem_append_left _ (List.mem_flatMap.2 ⟨w, hw, by simp [Wrapper.sites]⟩))

theorem first_precedes_closer (h : Sweep pending stack (s :: rest)) {w : Wrapper}
    (hw : w ∈ stack) : s.precedes w.closer = true :=
  h.first_precedes (List.mem_append_right _ (List.mem_map_of_mem hw))

/-- A pending wrapper whose opener comes first lies within all that are open. -/
theorem within_of_first {w outer : Wrapper} (h : Sweep (w :: pending) stack (w.opener :: rest))
    (ho : outer ∈ stack) : w.Within outer := by
  have hw : w.Proper := h.proper w (by simp)
  have houter : outer.Proper := h.proper outer (by simp [ho])
  obtain ⟨hlam, hopened⟩ := h.opened w (by simp) outer ho
  have hclose : w.opener.precedes outer.closer = true := h.first_precedes_closer ho
  rw [opener_precedes_opener houter hw] at hopened
  rw [opener_precedes_closer hw] at hclose
  have := hw.nonempty
  rcases hlam with hapart | hin | hout
  · rcases hapart with hapart | hapart <;> omega
  · exact hin
  · have hstart := hout.start
    have hdepth := hout.depth
    omega

/-- The opener of a pending wrapper puts the wrapper on the stack. -/
theorem push {w : Wrapper} (h : Sweep (w :: pending) stack (w.opener :: rest)) :
    Sweep pending (w :: stack) rest where
  left := by
    have hleft := h.left
    simp only [List.flatMap_cons, Wrapper.sites, List.cons_append, List.nil_append] at hleft
    exact hleft.cons_inv.trans List.perm_middle.symm
  sorted := h.sorted.of_cons
  proper u hu := h.proper u (by
    simp only [List.mem_append, List.mem_cons] at hu ⊢
    tauto)
  laminar := h.laminar.of_cons
  nested := by
    refine List.Pairwise.cons ?_ h.nested
    intro outer ho
    have hin := h.within_of_first ho
    have hstop := hin.stop
    have hdepth := hin.depth
    rw [closer_precedes_closer]
    omega
  opened u hu outer ho := by
    rcases List.mem_cons.1 ho with rfl | ho
    · exact ⟨(List.rel_of_pairwise_cons h.laminar hu).symm,
        h.first_precedes_opener (List.mem_cons_of_mem _ hu)⟩
    · exact h.opened u (by simp [hu]) outer ho

/-- A closer that comes first is that of the wrapper on top, which leaves the stack. -/
theorem pop {top : Wrapper} (h : Sweep pending (top :: stack) (top.closer :: rest)) :
    Sweep pending stack rest where
  left := by
    have hleft := h.left.trans List.perm_middle
    exact hleft.cons_inv
  sorted := h.sorted.of_cons
  proper u hu := h.proper u (by
    simp only [List.mem_append, List.mem_cons] at hu ⊢
    tauto)
  laminar := h.laminar
  nested := h.nested.of_cons
  opened u hu outer ho := h.opened u hu outer (by simp [ho])

/-- The first site opens a pending wrapper, or closes the wrapper on top. -/
theorem first_cases (h : Sweep pending stack (s :: rest)) :
    (∃ w ∈ pending, s = w.opener) ∨ ∃ top below, stack = top :: below ∧ s = top.closer := by
  have hs : s ∈ pending.flatMap Wrapper.sites ++ stack.map Wrapper.closer :=
    h.left.mem_iff.1 (by simp)
  rcases List.mem_append.1 hs with hs | hs
  · obtain ⟨w, hw, hs⟩ := List.mem_flatMap.1 hs
    simp only [Wrapper.sites, List.mem_cons, List.not_mem_nil, or_false] at hs
    rcases hs with rfl | rfl
    · exact .inl ⟨w, hw, rfl⟩
    · -- The opener of a pending wrapper is still to come, and it precedes the closer.
      have hproper : w.Proper := h.proper w (by simp [hw])
      have hopener : w.closer.precedes w.opener = true := h.first_precedes_opener hw
      rw [closer_precedes_opener hproper] at hopener
      have := hproper.nonempty
      omega
  · obtain ⟨t, ht, rfl⟩ := List.mem_map.1 hs
    cases stack with
    | nil => simp at ht
    | cons top below =>
      rcases List.mem_cons.1 ht with rfl | ht
      · exact .inr ⟨t, below, rfl, rfl⟩
      · -- The closer of a wrapper further down would come before that of the top.
        exact absurd (h.first_precedes_closer (by simp)) (List.rel_of_pairwise_cons h.nested ht)

/-- What is left of a sorted list is scanned to the end. -/
theorem scan? (h : Sweep pending stack rest) :
    Site.scan? (stack.map Wrapper.opener) rest = some [] := by
  induction rest generalizing pending stack with
  | nil =>
    have hleft := h.left.nil_eq
    have hstack : stack = [] := by
      rw [eq_comm, List.append_eq_nil_iff] at hleft
      simpa using hleft.2
    rw [hstack]
    rfl
  | cons s rest ih =>
    rcases h.first_cases with ⟨w, hw, rfl⟩ | ⟨top, below, rfl, rfl⟩
    · obtain ⟨front, back, rfl⟩ := List.append_of_mem hw
      have hnext := (h.reorder List.perm_middle).push
      have hproper : w.Proper := h.proper w (by simp)
      have hone : w.opener.scanOne? (stack.map opener) = some (w.opener :: stack.map opener) := by
        simp only [Site.scanOne?, isCloser_opener hproper, hproper.opens]
        rfl
      rw [Site.scan?, hone, Option.bind_some]
      exact ih hnext
    · have hone : top.closer.scanOne? ((top :: below).map opener) = some (below.map opener) := by
        simp only [Site.scanOne?, Wrapper.isCloser_closer, if_true, List.map_cons]
        simp [Site.closes, opener, closer]
      rw [Site.scan?, hone, Option.bind_some]
      exact ih h.pop

end Sweep

/-- A scan of the sorted sites of laminar wrappers starts with all of them pending. -/
theorem Sweep.start {wrappers : List Wrapper} {sites : List Site}
    (hp : (sites.filter Site.isBracket).Perm (wrappers.flatMap Wrapper.sites))
    (sorted : sites.Pairwise fun a b => a.precedes b) (proper : ∀ w ∈ wrappers, w.Proper)
    (laminar : wrappers.Pairwise Wrapper.Laminar) :
    Sweep wrappers [] (sites.filter Site.isBracket) := by
  refine ⟨by simpa using hp, sorted.filter _, by simpa using proper, laminar, .nil, ?_⟩
  intro _ _ outer ho
  simp at ho

/-- Sorted sites of laminar wrappers are scanned to the end with nothing left open. -/
theorem Site.scan?_laminar {wrappers : List Wrapper} {sites : List Site}
    (hp : (sites.filter isBracket).Perm (wrappers.flatMap Wrapper.sites))
    (sorted : sites.Pairwise fun a b => a.precedes b) (proper : ∀ w ∈ wrappers, w.Proper)
    (laminar : wrappers.Pairwise Wrapper.Laminar) : scan? [] sites = some [] := by
  rw [← scan?_filter]
  exact (Sweep.start hp sorted proper laminar).scan?

end LuaCoverage
