import LuaCoverage.Scope.Basic
import Mathlib.Data.List.DropRight
import Mathlib.Data.List.Infix

/-!
# Normal forms of scopes

A selection keeps its scopes in normal form, and matching a scope normalizes it again. The second
time changes nothing unless a blank stands at an end of the normal form. That happens when there
are blanks inside the slashes around a scope: blanks are dropped first, slashes after them, and
each of them once. A scope without such a blank is *settled*.

Results:
* `Scope.normalize_normalize_iff`: normalizing again keeps the settled scopes, and no others.
* `Scope.contains_of_plain`: which modules a scope without wildcards contains.
* `Selection.allows_iff`: a selection of settled scopes allows what they contain.
* `Selection.allows_unsettled`: a scope that is not settled may be taken for another.
-/

namespace LuaCoverage

namespace Text
variable {p : Char → Bool} {text : List Char}

/-- Whether a character of a class stands at an end of a text. -/
def touches (p : Char → Bool) (text : List Char) : Bool :=
  text.head?.any p || text.getLast?.any p

theorem touches_eq_false_iff : touches p text = false
    ↔ (∀ c, text.head? = some c → p c = false) ∧ ∀ c, text.getLast? = some c → p c = false := by
  simp [touches, Option.any_eq_false]

theorem infix_trim (p : Char → Bool) (text : List Char) : trim p text <:+: text :=
  (List.rdropWhile_prefix p (text.dropWhile p)).isInfix.trans (List.dropWhile_suffix p).isInfix

/-- Trimming leaves nothing of the class at the ends. -/
theorem touches_trim (p : Char → Bool) (text : List Char) : touches p (trim p text) = false := by
  rw [touches_eq_false_iff]
  constructor
  · intro c hc
    obtain ⟨dropped, happend⟩ := List.rdropWhile_prefix p (text.dropWhile p)
    have hhead : (text.dropWhile p).head? = some c := by
      rw [← happend, List.head?_append]
      exact Option.or_eq_some_iff.2 (.inl hc)
    have hnot := List.head?_dropWhile_not p text
    rwa [hhead] at hnot
  · intro c hc
    have hne : (text.dropWhile p).rdropWhile p ≠ [] := by
      rintro hnil
      rw [show trim p text = [] from hnil] at hc
      cases hc
    have hlast := List.rdropWhile_last_not p (text.dropWhile p) hne
    rw [show trim p text = (text.dropWhile p).rdropWhile p from rfl,
      List.getLast?_eq_some_getLast hne] at hc
    rw [Option.some.inj hc] at hlast
    simpa using hlast

theorem trim_of_touches (h : touches p text = false) : trim p text = text := by
  obtain ⟨hhead, hlast⟩ := touches_eq_false_iff.1 h
  have hfront : text.dropWhile p = text := by
    cases text with
    | nil => rfl
    | cons c rest => exact List.dropWhile_cons_of_neg (by simp [hhead c rfl])
  rw [show trim p text = (text.dropWhile p).rdropWhile p from rfl, hfront,
    List.rdropWhile_eq_self_iff]
  intro hne
  simp [hlast _ (List.getLast?_eq_some_getLast hne)]

theorem trim_eq_self_iff : trim p text = text ↔ touches p text = false :=
  ⟨fun h => h ▸ touches_trim p text, trim_of_touches⟩

/-- Behind a text with nothing of the class at its ends only the end of what follows is trimmed. -/
theorem trim_append (h : touches p text = false) (hne : text ≠ []) (tail : List Char) :
    trim p (text ++ tail) = text ++ tail.rdropWhile p := by
  obtain ⟨hhead, hlast⟩ := touches_eq_false_iff.1 h
  obtain ⟨c, rest, rfl⟩ := List.exists_cons_of_ne_nil hne
  have hfront : (c :: rest ++ tail).dropWhile p = c :: rest ++ tail :=
    List.dropWhile_cons_of_neg (by simp [hhead c rfl])
  rw [show trim p (c :: rest ++ tail) = ((c :: rest ++ tail).dropWhile p).rdropWhile p from rfl,
    hfront]
  induction tail using List.reverseRecOn with
  | nil =>
    rw [List.append_nil, List.rdropWhile_nil, List.append_nil, List.rdropWhile_eq_self_iff]
    intro hne
    simp [hlast _ (List.getLast?_eq_some_getLast hne)]
  | append_singleton tail d ih =>
    rw [← List.append_assoc, List.rdropWhile_concat, List.rdropWhile_concat]
    split
    · exact ih (List.dropWhile_cons_of_neg (by simp [hhead c rfl]))
    · rw [List.append_assoc]

end Text

namespace Glob

/-- Whether a character stands for itself in a pattern. -/
def isPlain (c : Char) : Bool := c != '*' && c != '?' && c != '['

theorem parts_of_plain {text : List Char} (h : text.all isPlain = true) :
    parts text = text.map .char := by
  induction text with
  | nil => rw [parts, List.map_nil]
  | cons c rest ih =>
    rw [List.all_cons, Bool.and_eq_true] at h
    obtain ⟨hc, hrest⟩ := h
    simp only [isPlain, Bool.and_eq_true, bne_iff_ne] at hc
    rw [parts, if_neg hc.1.1, if_neg hc.1.2, if_neg hc.2, ih hrest, List.map_cons]

end Glob

namespace Scope
open LuaCoverage.Text

/-- Whether no blank stands at an end of the normal form. -/
def isSettled (scope : String) : Bool := !touches isBlank (normalizeChars scope.toList)

def slashed (text : List Char) : List Char := text.map fun c => if c = '\\' then '/' else c

theorem slashed_of_not_mem {text : List Char} (h : '\\' ∉ text) : slashed text = text := by
  refine (List.map_congr_left fun c hc => ?_).trans (List.map_id text)
  have hne : c ≠ '\\' := by
    rintro rfl
    exact h hc
  simp [hne]

theorem not_mem_slashed (text : List Char) : '\\' ∉ slashed text := by
  intro h
  obtain ⟨c, -, hc⟩ := List.mem_map.1 h
  split at hc <;> simp_all

theorem infix_normalizeChars (text : List Char) :
    normalizeChars text <:+: trim isBlank (slashed text) := by
  unfold normalizeChars
  dsimp only
  split
  · exact List.nil_infix
  · exact infix_trim _ _

theorem not_mem_normalizeChars (text : List Char) : '\\' ∉ normalizeChars text := fun h =>
  not_mem_slashed text <|
    (infix_trim isBlank (slashed text)).subset ((infix_normalizeChars text).subset h)

/-- A normal form has no slash at its ends, and is no single dot. -/
theorem touches_normalizeChars (text : List Char) :
    touches (· == '/') (normalizeChars text) = false ∧ normalizeChars text ≠ ['.'] := by
  unfold normalizeChars
  dsimp only
  split
  · exact ⟨rfl, by simp⟩
  · next hdot => exact ⟨touches_trim _ _, hdot⟩

/-- A text is in normal form if there is nothing to replace, drop or leave out. -/
theorem normalizeChars_of_clean {text : List Char} (hback : '\\' ∉ text)
    (hblank : touches isBlank text = false) (hslash : touches (· == '/') text = false)
    (hdot : text ≠ ['.']) : normalizeChars text = text := by
  have hback' : (text.map fun c => if c = '\\' then '/' else c) = text := slashed_of_not_mem hback
  simp only [normalizeChars, hback', trim_of_touches hblank, trim_of_touches hslash, if_neg hdot]

/-- A normal form stays as it is if no blank stands at its ends, and only then. -/
theorem normalizeChars_self_iff (text : List Char) :
    normalizeChars (normalizeChars text) = normalizeChars text
      ↔ touches isBlank (normalizeChars text) = false := by
  obtain ⟨hslash, hdot⟩ := touches_normalizeChars text
  have hback := not_mem_normalizeChars text
  generalize normalizeChars text = normal at *
  constructor
  · intro hself
    -- Trimming its blanks cannot make it shorter, since it is an infix of what is left.
    have hin := infix_normalizeChars normal
    rw [hself, slashed_of_not_mem hback] at hin
    exact trim_eq_self_iff.1 (List.infix_antisymm (infix_trim isBlank normal) hin)
  · exact fun hblank => normalizeChars_of_clean hback hblank hslash hdot

theorem toList_normalize (scope : String) :
    (normalize scope).toList = normalizeChars scope.toList := by
  simp [normalize]

theorem normalize_normalize_iff (scope : String) :
    normalize (normalize scope) = normalize scope ↔ isSettled scope = true := by
  rw [isSettled, Bool.not_eq_true', ← normalizeChars_self_iff, ← String.toList_inj,
    toList_normalize, toList_normalize]

theorem contains_normalize {scope : String} (h : isSettled scope = true) (path : String) :
    contains (normalize scope) path = contains scope path := by
  have hself : normalizeChars (normalizeChars scope.toList) = normalizeChars scope.toList :=
    (normalizeChars_self_iff _).2 (by simpa [isSettled] using h)
  simp only [contains, toList_normalize, hself]

/-- A scope without wildcards contains the modules that have it among the texts of their first
segments. -/
theorem contains_of_plain {scope : String}
    (h : (normalizeChars scope.toList).all Glob.isPlain = true) (path : String) :
    contains scope path = true ↔ normalizeChars scope.toList = []
      ∨ normalizeChars scope.toList ∈ heads (Path.pieces (normalizeChars path.toList)) := by
  simp only [contains, Glob.parts_of_plain h, Bool.or_eq_true, List.isEmpty_iff, List.any_eq_true,
    Glob.matches_chars, exists_eq_right]

end Scope

namespace Selection

/-- A selection matches every scope in the form that it keeps. -/
theorem allows_ofScopes (included excluded : List String) (path : String) :
    (ofScopes included excluded).allows path = true
      ↔ (∃ scope ∈ included, Scope.contains (Scope.normalize scope) path = true)
        ∧ ∀ scope ∈ excluded, Scope.contains (Scope.normalize scope) path = false := by
  simp only [allows, isExcluded, ofScopes, Bool.and_eq_true, Bool.not_eq_true', List.any_eq_true,
    List.any_eq_false, Text.mem_textSet, List.mem_map, exists_exists_and_eq_and,
    forall_exists_index, and_imp, forall_apply_eq_imp_iff₂, Bool.not_eq_true]
  exact And.comm

/-- If normalizing a second time keeps the scopes that are given, a selection allows what one of
those to include contains and none of those to exclude does. -/
theorem allows_iff {included excluded : List String}
    (h : ∀ scope ∈ included ++ excluded, Scope.isSettled scope = true) (path : String) :
    (ofScopes included excluded).allows path = true
      ↔ (∃ scope ∈ included, Scope.contains scope path = true)
        ∧ ∀ scope ∈ excluded, Scope.contains scope path = false := by
  have hin : ∀ scope ∈ included,
      Scope.contains (Scope.normalize scope) path = Scope.contains scope path :=
    fun scope hscope => Scope.contains_normalize (h scope (List.mem_append_left _ hscope)) path
  have hout : ∀ scope ∈ excluded,
      Scope.contains (Scope.normalize scope) path = Scope.contains scope path :=
    fun scope hscope => Scope.contains_normalize (h scope (List.mem_append_right _ hscope)) path
  rw [allows_ofScopes]
  constructor
  · rintro ⟨⟨scope, hscope, hcontains⟩, hnone⟩
    exact ⟨⟨scope, hscope, hin scope hscope ▸ hcontains⟩,
      fun other hother => hout other hother ▸ hnone other hother⟩
  · rintro ⟨⟨scope, hscope, hcontains⟩, hnone⟩
    exact ⟨⟨scope, hscope, (hin scope hscope).trans hcontains⟩,
      fun other hother => (hout other hother).trans (hnone other hother)⟩

theorem allows_iff_sample :
    (∀ scope ∈ [" src\\game/ "] ++ ["/src/game/old"], Scope.isSettled scope = true)
    ∧ (ofScopes [" src\\game/ "] ["/src/game/old"]).allows "src/game/a.lua" = true := by
  have hsettled : ∀ scope ∈ [" src\\game/ "] ++ ["/src/game/old"],
      Scope.isSettled scope = true := by decide +kernel
  refine ⟨hsettled, (allows_iff hsettled _).2 ⟨⟨" src\\game/ ", by simp, ?_⟩, ?_⟩⟩
  · rw [Scope.contains_of_plain (by decide +kernel)]
    decide +kernel
  · simp only [List.mem_singleton, forall_eq]
    rw [Bool.eq_false_iff, ne_eq, Scope.contains_of_plain (by decide +kernel)]
    decide +kernel

/-- Inside its slashes a scope has a blank, which is taken for a part of a name the first time and
dropped the second time: the selection allows what the scope does not contain. -/
theorem allows_unsettled :
    (ofScopes ["/ a"] []).allows "a" = true
    ∧ (∀ scope ∈ ["/ a"], Scope.contains scope "a" = false)
    ∧ Scope.normalize "/ a" = " a" ∧ Scope.normalize " a" = "a" := by
  have hfirst : Scope.normalize "/ a" = " a" := by decide +kernel
  have hsecond : Scope.contains " a" "a" = true := by
    rw [Scope.contains_of_plain (by decide +kernel)]
    decide +kernel
  have hunstored : Scope.contains "/ a" "a" = false := by
    rw [Bool.eq_false_iff, ne_eq, Scope.contains_of_plain (by decide +kernel)]
    decide +kernel
  refine ⟨?_, by simpa using hunstored, hfirst, by decide +kernel⟩
  exact (allows_ofScopes _ _ _).2 ⟨⟨"/ a", by simp, hfirst ▸ hsecond⟩, by simp⟩

end Selection

end LuaCoverage
