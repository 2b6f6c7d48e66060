import LuaCoverage.Probe.Basic

/-!
# Sites

A site is a place in a source where text is inserted for a probe. A probe counts by a statement in
front of another one, by an `else` arm that was missing, or by a call wrapped around an operand:
the call opens at one site and closes at another.

At one offset closers come before all others, the deeper ones first; the others follow, the deeper
ones last. So calls that start or end together nest as their operands do.

Results:
* `Site.precedes_total`, `Site.precedes_trans`: the order is a total preorder.
* `Site.sort_perm`, `Site.sort_pairwise`: sorting keeps the sites and puts them in order.
-/

namespace LuaCoverage

namespace Site

/-- How a probe is written into the source. -/
inductive Style
  | statement
  | elseArm
  | opener
  | conditionOpener
  | closer
  deriving DecidableEq, Repr

def Style.name : Style → String
  | .statement => "statement"
  | .elseArm => "else_arm"
  | .opener => "open"
  | .conditionOpener => "open_condition"
  | .closer => "close"

def Style.all : List Style := [.statement, .elseArm, .opener, .conditionOpener, .closer]

def Style.ofName? (name : String) : Option Style := all.find? fun style => style.name == name

end Site

/-- A place where text is inserted for a probe. -/
structure Site where
  offset : Nat
  depth : Int
  style : Site.Style
  kind : ProbeKind
  id : Int
  arm : Option Int
  deriving DecidableEq, Repr

namespace Site

/-- Whether the site closes a wrapped operand. -/
def isCloser (s : Site) : Bool := s.style == .closer

/-- Whether the site opens a wrapped operand. -/
def isOpener (s : Site) : Bool := s.style == .opener || s.style == .conditionOpener

/-- The rank of a site among those of its offset. -/
def rank (s : Site) : Nat × Int := if s.isCloser then (0, -s.depth) else (1, s.depth)

/-- Whether one site is written no later than another. -/
def precedes (a b : Site) : Bool :=
  a.offset < b.offset || (a.offset == b.offset
    && (a.rank.1 < b.rank.1 || (a.rank.1 == b.rank.1 && a.rank.2 ≤ b.rank.2)))

theorem precedes_total (a b : Site) : (a.precedes b || b.precedes a) = true := by
  simp only [precedes, Bool.or_eq_true, Bool.and_eq_true, decide_eq_true_eq, beq_iff_eq]
  omega

theorem precedes_trans {a b c : Site} (hab : a.precedes b = true) (hbc : b.precedes c = true) :
    a.precedes c = true := by
  simp only [precedes, Bool.or_eq_true, Bool.and_eq_true, decide_eq_true_eq, beq_iff_eq] at *
  omega

/-- The sites in the order in which they are written. -/
def sort (sites : List Site) : List Site := sites.mergeSort precedes

theorem sort_perm (sites : List Site) : (sort sites).Perm sites := List.mergeSort_perm ..

theorem sort_pairwise (sites : List Site) : (sort sites).Pairwise fun a b => a.precedes b := by
  apply List.pairwise_mergeSort
  · intro a b c hab hbc
    exact precedes_trans hab hbc
  · exact precedes_total

end Site

end LuaCoverage
