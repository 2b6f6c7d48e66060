import LuaCoverage.Path
import Mathlib.Data.List.Basic

/-!
# Paths of proper names

A name in a directory is *proper* if it is the name of something: it is not empty, has no slash,
and is neither of the two names that stand for directories. A path of proper names is read back
from its text. A path is *resolved* if it has a root and does not go back; what is resolved from a
directory with a root is.

Results:
* `Path.ofString_text`: a relative path of proper names is read back.
* `Path.resolve_join`: behind a resolved directory proper names stay as they are.
* `Path.resolve_of_endsInName`, `Path.isBelow_of_endsInName`: a name is looked up in the directory in
  front of it.
* `Path.isBelow_iff`: what lies below a directory has its names and more.
-/

namespace LuaCoverage.Path

/-- Whether something in a directory may have this name. -/
def isProper (name : String) : Bool :=
  name ≠ "" && name ≠ "." && name ≠ ".." && !name.toList.contains '/'

theorem isProper_iff {name : String} : isProper name = true
    ↔ name ≠ "" ∧ name ≠ "." ∧ name ≠ ".." ∧ '/' ∉ name.toList := by
  simp [isProper, and_assoc]

/-! ## Texts -/

/-- The pieces of a text are what the slashes split it into. -/
theorem pieces_eq_splitOn (text : List Char) : pieces text = text.splitOn '/' := by
  induction text with
  | nil => rfl
  | cons c rest ih =>
    rw [List.splitOn_cons_eq_if_modifyHead, ← ih, pieces]
    by_cases hc : c = '/'
    · simp [hc]
    · simp only [hc, beq_iff_eq, if_false]
      cases hrest : pieces rest with
      | nil => exact absurd (ih.symm.trans hrest) (List.splitOn_ne_nil _ _)
      | cons piece more => rfl

theorem not_mem_of_mem_pieces {text piece : List Char} (h : piece ∈ pieces text) : '/' ∉ piece := by
  induction text generalizing piece with
  | nil => simp_all [pieces]
  | cons c rest ih =>
    rw [pieces] at h
    split at h
    · obtain rfl | h := List.mem_cons.1 h
      · exact List.not_mem_nil
      · exact ih h
    · next hc =>
      split at h
      · simp_all [Ne.symm hc]
      · next first more hrest =>
        rw [hrest] at ih
        obtain rfl | h := List.mem_cons.1 h
        · simp [Ne.symm hc, ih List.mem_cons_self]
        · exact ih (List.mem_cons_of_mem _ h)

/-- Between the slashes of a joined text stand the parts that were joined. -/
theorem pieces_intercalate {parts : List (List Char)} (hne : parts ≠ [])
    (h : ∀ part ∈ parts, '/' ∉ part) : pieces (List.intercalate ['/'] parts) = parts := by
  rw [pieces_eq_splitOn, List.splitOn_intercalate _ h hne]

section Names
variable {names : List String}

theorem toList_text (hne : names ≠ []) :
    (ofNames names).text.toList = List.intercalate ['/'] (names.map String.toList) := by
  rw [text_ofNames hne, String.toList_intercalate]
  rfl

theorem rootOf_text (hne : names ≠ []) (h : ∀ name ∈ names, isProper name = true) :
    rootOf (ofNames names).text.toList = "" := by
  rw [toList_text hne]
  cases names with
  | nil => exact absurd rfl hne
  | cons name rest =>
    -- The text starts with the first character of the first name, which is no slash.
    obtain ⟨hempty, -, -, hslash⟩ := isProper_iff.1 (h name (by simp))
    obtain ⟨c, more, hname⟩ : ∃ c more, name.toList = c :: more :=
      List.exists_cons_of_ne_nil fun hnil => hempty (String.toList_inj.1 hnil)
    have hc : c ≠ '/' := by
      rintro rfl
      simp [hname] at hslash
    obtain ⟨tail, htail⟩ : ∃ tail, List.intercalate ['/'] ((name :: rest).map String.toList)
        = c :: tail := by
      cases rest with
      | nil => exact ⟨more, by simp [hname]⟩
      | cons next others =>
        rw [List.map_cons, List.map_cons, List.intercalate_cons_cons, hname]
        exact ⟨_, rfl⟩
    rw [htail]
    unfold rootOf
    split <;> simp_all

/-- A relative path of proper names is read back from its text. -/
theorem ofString_text (hne : names ≠ []) (h : ∀ name ∈ names, isProper name = true) :
    ofString (ofNames names).text = ofNames names := by
  have hpieces : pieces (ofNames names).text.toList = names.map String.toList := by
    rw [toList_text hne]
    refine pieces_intercalate (by simpa using hne) fun part hpart => ?_
    obtain ⟨name, hname, rfl⟩ := List.mem_map.1 hpart
    exact (isProper_iff.1 (h name hname)).2.2.2
  have hkeep : ((names.map String.toList).filter fun name => name ≠ [] && name ≠ ['.'])
      = names.map String.toList := by
    refine List.filter_eq_self.2 fun part hpart => ?_
    obtain ⟨name, hname, rfl⟩ := List.mem_map.1 hpart
    obtain ⟨hempty, hdot, -⟩ := isProper_iff.1 (h name hname)
    have hone : name.toList ≠ ['.'] := fun heq => hdot (String.toList_inj.1 heq)
    have hsome : name.toList ≠ [] := fun heq => hempty (String.toList_inj.1 heq)
    simp [hone, hsome]
  rw [ofString, rootOf_text hne h, hpieces, hkeep, List.map_map]
  simp [ofNames, Function.comp_def]

end Names

/-! ## Resolving -/

/-- Whether a path has a root and does not go back. -/
structure IsResolved (p : Path) : Prop where
  absolute : p.isAbsolute = true
  forward : ".." ∉ p.names

theorem resolveNames_of_not_mem {names : List String} (h : ".." ∉ names) (front : List String) :
    resolveNames front names = front.reverse ++ names := by
  induction names generalizing front with
  | nil => simp [resolveNames]
  | cons name rest ih =>
    simp only [List.mem_cons, not_or] at h
    simp [resolveNames, Ne.symm h.1, ih h.2]

theorem not_mem_resolveNames {front : List String} (hfront : ".." ∉ front) (names : List String) :
    ".." ∉ resolveNames front names := by
  induction names generalizing front with
  | nil => simpa [resolveNames] using hfront
  | cons name rest ih =>
    simp only [resolveNames]
    split
    · exact ih fun hmem => hfront (List.mem_of_mem_drop hmem)
    · next hname => exact ih (by simp [hfront, Ne.symm hname])

theorem isResolved_resolve {directory : Path} (h : directory.isAbsolute = true) (p : Path) :
    (directory.resolve p).IsResolved where
  absolute := by
    simp only [resolve, join]
    split
    · assumption
    · exact h
  forward := not_mem_resolveNames (by simp) _

/-- Behind a resolved directory names that do not go back stay as they are. -/
theorem resolve_join {directory : Path} (h : directory.IsResolved) {names : List String}
    (hnames : ".." ∉ names) (other : Path) :
    other.resolve (directory.join (ofNames names))
      = ⟨directory.root, directory.names ++ names⟩ := by
  have hjoin : directory.join (ofNames names) = ⟨directory.root, directory.names ++ names⟩ := by
    simp [join, ofNames, isAbsolute]
  have habsolute : (⟨directory.root, directory.names ++ names⟩ : Path).isAbsolute = true :=
    h.absolute
  rw [hjoin, resolve, join, if_pos habsolute,
    resolveNames_of_not_mem (by simp [h.forward, hnames])]
  rfl

/-- Whether a path ends in a name that does not go back. -/
def EndsInName (p : Path) : Prop := ∃ front name, p.names = front ++ [name] ∧ name ≠ ".."

@[simp] theorem parent_concat (root : String) (names : List String) (name : String) :
    parent ⟨root, names ++ [name]⟩ = ⟨root, names⟩ := by
  rw [parent, List.dropLast_concat]

theorem resolveNames_concat {name : String} (h : name ≠ "..") (front names : List String) :
    resolveNames front (names ++ [name]) = resolveNames front names ++ [name] := by
  induction names generalizing front with
  | nil => simp [resolveNames, h]
  | cons first rest ih =>
    simp only [List.cons_append, resolveNames, ih]
    split <;> rfl

/-- The last name of a path is looked up in the directory that its other names lead to. -/
theorem resolve_of_endsInName {p : Path} (h : p.EndsInName) (directory : Path) :
    ∃ name, directory.resolve p
      = ⟨(directory.resolve p.parent).root, (directory.resolve p.parent).names ++ [name]⟩ := by
  obtain ⟨front, name, hnames, hname⟩ := h
  have hparent : p.parent = ⟨p.root, front⟩ := by rw [parent, hnames, List.dropLast_concat]
  refine ⟨name, ?_⟩
  rw [hparent]
  by_cases hroot : p.root = ""
  · simp [resolve, join, isAbsolute, hnames, hroot, ← List.append_assoc, resolveNames_concat hname]
  · simp [resolve, join, isAbsolute, hnames, hroot, resolveNames_concat hname]

/-! ## Below a directory -/

theorem isBelow_iff {p directory : Path} : p.isBelow directory = true
    ↔ ∃ names, names ≠ [] ∧ p = ⟨directory.root, directory.names ++ names⟩ := by
  obtain ⟨root, front⟩ := directory
  obtain ⟨_, names⟩ := p
  simp only [isBelow, Bool.and_eq_true, decide_eq_true_eq, gt_iff_lt, mk.injEq]
  constructor
  · rintro ⟨⟨rfl, hlength⟩, htake⟩
    refine ⟨names.drop front.length, ?_, rfl, ?_⟩
    · simpa [List.drop_eq_nil_iff] using hlength
    · conv_lhs => rw [← List.take_append_drop front.length names, htake]
  · rintro ⟨back, hback, rfl, rfl⟩
    have hpos := List.length_pos_iff.2 hback
    simp [hpos]

/-- What lies below a directory is not the directory, and the directory does not lie below it. -/
theorem isBelow_asymm {p directory : Path} (h : p.isBelow directory = true) :
    directory ≠ p ∧ directory.isBelow p = false := by
  obtain ⟨names, hnames, rfl⟩ := isBelow_iff.1 h
  constructor
  · intro heq
    simpa [hnames] using congrArg Path.names heq
  · have hlength : ¬directory.names.length + names.length < directory.names.length := by omega
    simp [isBelow, hlength]

theorem isBelow_of_endsInName {p : Path} (h : p.EndsInName) (directory : Path) :
    (directory.resolve p).isBelow (directory.resolve p.parent) = true
      ∧ (directory.resolve p).parent = directory.resolve p.parent := by
  obtain ⟨name, hname⟩ := resolve_of_endsInName h directory
  exact ⟨isBelow_iff.2 ⟨[name], by simp, hname⟩, by rw [hname, parent_concat]⟩

theorem isBelow_trans {p q directory : Path} (hpq : p.isBelow q = true)
    (hq : q.isBelow directory = true) : p.isBelow directory = true := by
  obtain ⟨front, hfront, rfl⟩ := isBelow_iff.1 hq
  obtain ⟨back, -, rfl⟩ := isBelow_iff.1 hpq
  exact isBelow_iff.2 ⟨front ++ back, by simp [hfront], by simp⟩

end LuaCoverage.Path
