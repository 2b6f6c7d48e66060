import LuaCoverage.Proofs.Path
import LuaCoverage.Proofs.Scope.Normal

/-!
# Scopes and the segments of a path

The *segments* of a path are what the slashes split its normal form into. A scope contains a path
if its pattern stands for the first segments of the path, joined, however many they are. So what a
scope contains depends on how segments begin, and on nothing else:

* a name and the same name behind a star and a slash contain, together, the paths that have the
  name among their segments, for the star stands for any segments in front of it;
* a path in normal form keeps its segments in front when more is written behind it, whatever that
  is, so a scope that contains the path contains all that lies below it;
* a scope without wildcards stands for itself alone, so its segments are the first ones of the path,
  each of them whole, for no segment has a slash in it.

Results:
* `Scope.contains_iff`: matching, by segments.
* `Scope.contains_folder_iff`: a folder at any depth.
* `Selection.isExcluded_standard_iff`: which modules are excluded unless other scopes are given.
* `Scope.segments_below`, `Scope.contains_below`: what lies below a path.
* `Scope.joined_segments`: the segments of a path make its normal form.
* `Scope.contains_plain_iff`: what a scope without wildcards contains.
-/

namespace LuaCoverage

namespace Glob

/-- A star stands for whatever is in front of a text that the rest of the pattern stands for. -/
theorem matchesParts_star_iff (rest : List Part) (text : List Char) :
    matchesParts (.star :: rest) text = true
      ↔ ∃ back, back <:+ text ∧ matchesParts rest back = true := by
  induction text with
  | nil => simp [matchesParts]
  | cons c text ih =>
    rw [matchesParts, Bool.or_eq_true, ih]
    constructor
    · rintro (hall | ⟨back, hback, hrest⟩)
      · exact ⟨c :: text, List.suffix_refl _, hall⟩
      · exact ⟨back, hback.trans (List.suffix_cons ..), hrest⟩
    · rintro ⟨back, hback, hrest⟩
      obtain rfl | hback := List.suffix_cons_iff.1 hback
      · exact .inl hrest
      · exact .inr ⟨back, hback, hrest⟩

theorem matches_star_chars (chars text : List Char) :
    matchesParts (.star :: chars.map .char) text = true ↔ chars <:+ text := by
  simp only [matchesParts_star_iff, matches_chars, exists_eq_right]

end Glob

namespace Scope
open LuaCoverage.Text

/-- The segments of a path: the texts between the slashes of its normal form. -/
def segments (path : String) : List String :=
  ((normalize path).toList.splitOn '/').map String.ofList

/-- The text that segments make with slashes between them. -/
def joined (front : List String) : List Char := List.intercalate ['/'] (front.map String.toList)

theorem joined_cons {front : List String} (hne : front ≠ []) (segment : String) :
    joined (segment :: front) = segment.toList ++ '/' :: joined front := by
  obtain ⟨next, rest, rfl⟩ := List.exists_cons_of_ne_nil hne
  simp [joined, List.intercalate_cons_cons]

theorem joined_append {front back : List String} (hfront : front ≠ []) (hback : back ≠ []) :
    joined (front ++ back) = joined front ++ '/' :: joined back := by
  induction front with
  | nil => exact absurd rfl hfront
  | cons segment rest ih =>
    by_cases hrest : rest = []
    · subst hrest
      rw [List.singleton_append, joined_cons hback]
      simp [joined]
    · rw [List.cons_append, joined_cons (by simp [hrest]), ih hrest, joined_cons hrest,
        List.append_assoc, List.cons_append]

/-- The texts of the first segments are those of the fronts of a path. -/
theorem mem_heads_iff {segments : List String} {head : List Char} :
    head ∈ heads (segments.map String.toList)
      ↔ ∃ front, front ≠ [] ∧ front <+: segments ∧ head = joined front := by
  induction segments generalizing head with
  | nil => simp +contextual [heads, List.prefix_nil]
  | cons segment rest ih =>
    simp only [List.map_cons, heads, List.mem_cons, List.mem_map, ih]
    constructor
    · rintro (rfl | ⟨_, ⟨front, hne, hfront, rfl⟩, rfl⟩)
      · exact ⟨[segment], by simp, by simp, by simp [joined]⟩
      · exact ⟨segment :: front, by simp, by simpa using hfront, (joined_cons hne segment).symm⟩
    · rintro ⟨_ | ⟨first, front⟩, hne, hfront, rfl⟩
      · exact absurd rfl hne
      · obtain ⟨rfl, hrest⟩ := List.cons_prefix_cons.1 hfront
        by_cases hnil : front = []
        · exact .inl (by simp [hnil, joined])
        · exact .inr ⟨_, ⟨front, hnil, hrest, rfl⟩, (joined_cons hnil first).symm⟩

theorem toList_segments (path : String) :
    (segments path).map String.toList = Path.pieces (normalizeChars path.toList) := by
  simp [segments, toList_normalize, Path.pieces_eq_splitOn, Function.comp_def]

/-- A scope contains a path if its pattern stands for the first segments of the path. -/
theorem contains_iff (scope path : String) : contains scope path = true
    ↔ normalizeChars scope.toList = [] ∨ ∃ front, front ≠ [] ∧ front <+: segments path
      ∧ Glob.matchesParts (Glob.parts (normalizeChars scope.toList)) (joined front) = true := by
  simp only [contains, ← toList_segments, Bool.or_eq_true, List.isEmpty_iff, List.any_eq_true,
    mem_heads_iff]
  refine or_congr_right ⟨?_, ?_⟩
  · rintro ⟨_, ⟨front, hne, hfront, rfl⟩, hmatch⟩
    exact ⟨front, hne, hfront, hmatch⟩
  · rintro ⟨front, hne, hfront, hmatch⟩
    exact ⟨_, ⟨front, hne, hfront, rfl⟩, hmatch⟩

/-- The first segments of a path are found again in the text they make. -/
theorem splitOn_joined {front : List String} {path : String} (hne : front ≠ [])
    (hfront : front <+: segments path) : (joined front).splitOn '/' = front.map String.toList := by
  refine List.splitOn_intercalate _ (fun piece hpiece => ?_) (by simpa using hne)
  have hmem : piece ∈ (segments path).map String.toList := (hfront.map _).subset hpiece
  rw [toList_segments] at hmem
  exact Path.not_mem_of_mem_pieces hmem

/-! ## Folders at any depth -/

/-- Whether a text is the name of a folder: one segment, in normal form, that stands for itself in
a pattern. -/
structure IsFolder (name : String) : Prop where
  nonempty : name.toList ≠ []
  segment : '/' ∉ name.toList
  plain : name.toList.all Glob.isPlain = true
  normal : normalizeChars name.toList = name.toList

section Folder
variable {name : String}

theorem IsFolder.parts_name (h : IsFolder name) :
    Glob.parts (normalizeChars name.toList) = name.toList.map .char := by
  rw [h.normal, Glob.parts_of_plain h.plain]

/-- A folder behind a star and a slash is in normal form. -/
theorem IsFolder.normal_star (h : IsFolder name) :
    normalizeChars ("*/" ++ name).toList = '*' :: '/' :: name.toList := by
  have htouches : ∀ p : Char → Bool, p '*' = false → touches p name.toList = false →
      touches p ('*' :: '/' :: name.toList) = false := by
    intro p hstar hname
    rw [touches_eq_false_iff] at hname ⊢
    refine ⟨by simpa using hstar, fun c hc => hname.2 c ?_⟩
    rwa [List.getLast?_cons_cons, List.getLast?_cons_of_ne_nil h.nonempty] at hc
  have hslash := (touches_normalizeChars name.toList).1
  have hblank := (normalizeChars_self_iff name.toList).1 (congrArg normalizeChars h.normal)
  have hback := not_mem_normalizeChars name.toList
  rw [h.normal] at hslash hblank hback
  rw [String.toList_append]
  exact normalizeChars_of_clean (by simpa using hback) (htouches _ (by decide) hblank)
    (htouches _ (by decide) hslash) (by simp)

theorem IsFolder.parts_star (h : IsFolder name) :
    Glob.parts (normalizeChars ("*/" ++ name).toList)
      = .star :: ('/' :: name.toList).map .char := by
  have hplain : ('/' :: name.toList).all Glob.isPlain = true := by
    rw [List.all_cons, h.plain]
    decide
  rw [h.normal_star, Glob.parts, if_pos rfl, Glob.parts_of_plain hplain]

theorem IsFolder.normalize_name (h : IsFolder name) : normalize name = name := by
  rw [normalize, h.normal, String.ofList_toList]

theorem IsFolder.normalize_star (h : IsFolder name) : normalize ("*/" ++ name) = "*/" ++ name := by
  rw [← String.toList_inj, toList_normalize, h.normal_star, String.toList_append]
  rfl

/-- A folder is found by its name where it comes first, and behind a star anywhere else. -/
theorem contains_folder_iff (h : IsFolder name) (path : String) :
    (contains name path = true ∨ contains ("*/" ++ name) path = true) ↔ name ∈ segments path := by
  have hstar : ¬normalizeChars ("*/" ++ name).toList = [] := by
    rw [h.normal_star]
    simp
  have hname : ¬normalizeChars name.toList = [] := by simp [h.normal, h.nonempty]
  simp only [contains_iff, hstar, hname, false_or, h.parts_name, h.parts_star, Glob.matches_chars,
    Glob.matches_star_chars]
  constructor
  · have hmem : ∀ front, front ≠ [] → front <+: segments path →
        name.toList ∈ (joined front).splitOn '/' → name ∈ segments path := by
      intro front hne hfront hname
      rw [splitOn_joined hne hfront] at hname
      obtain ⟨segment, hsegment, heq⟩ := List.mem_map.1 hname
      exact hfront.subset (String.toList_inj.1 heq ▸ hsegment)
    rintro (⟨front, hne, hfront, hjoined⟩ | ⟨front, hne, hfront, before, hjoined⟩)
    · exact hmem front hne hfront (by simp [hjoined, List.splitOn_eq_singleton h.segment])
    · refine hmem front hne hfront ?_
      rw [← hjoined, List.splitOn_append_cons_self, List.splitOn_eq_singleton h.segment]
      simp
  · intro hmem
    obtain ⟨before, behind, hsegments⟩ := List.append_of_mem hmem
    have hprefixed : before ++ [name] <+: segments path := ⟨behind, by simp [hsegments]⟩
    by_cases hnil : before = []
    · subst hnil
      exact .inl ⟨[name], by simp, hprefixed, by simp [joined]⟩
    · refine .inr ⟨before ++ [name], by simp, hprefixed, joined before, ?_⟩
      rw [joined_append hnil (by simp)]
      simp [joined]

end Folder

/-! ## Below a path -/

section Below
variable {path : String}

/-- Whatever is written behind a path in normal form, normalizing takes from the end of that. -/
theorem normalizeChars_below (hnormal : normalize path = path) (hne : path ≠ "") (rest : String) :
    ∃ tail, tail <+: '/' :: slashed rest.toList
      ∧ normalizeChars (path ++ "/" ++ rest).toList = path.toList ++ tail := by
  have hself : normalizeChars path.toList = path.toList := by rw [← toList_normalize, hnormal]
  have hblank := (normalizeChars_self_iff path.toList).1 (congrArg normalizeChars hself)
  obtain ⟨hslash, hdot⟩ := touches_normalizeChars path.toList
  have hback := not_mem_normalizeChars path.toList
  rw [hself] at hblank hslash hdot hback
  have hnil : path.toList ≠ [] := fun hnil => hne (String.toList_inj.1 hnil)
  have hslashed : slashed (path ++ "/" ++ rest).toList
      = path.toList ++ '/' :: slashed rest.toList := by
    have hkeep := slashed_of_not_mem hback
    rw [slashed] at hkeep
    simp [slashed, hkeep]
  have hall : ∀ tail : List Char, path.toList ++ tail ≠ ['.'] := by
    intro tail heq
    obtain ⟨c, more, hpath⟩ := List.exists_cons_of_ne_nil hnil
    simp_all
  refine ⟨(('/' :: slashed rest.toList).rdropWhile isBlank).rdropWhile (· == '/'),
    (List.rdropWhile_prefix _ _).trans (List.rdropWhile_prefix _ _), ?_⟩
  rw [slashed] at hslashed
  simp only [normalizeChars, hslashed, trim_append hblank hnil, trim_append hslash hnil,
    if_neg (hall _)]

/-- What is written behind a path in normal form leaves the segments of the path in front. -/
theorem segments_below (hnormal : normalize path = path) (hne : path ≠ "") (rest : String) :
    segments path <+: segments (path ++ "/" ++ rest) := by
  obtain ⟨tail, htail, hbelow⟩ := normalizeChars_below hnormal hne rest
  rw [segments, segments, hnormal, toList_normalize, hbelow]
  refine List.IsPrefix.map String.ofList ?_
  -- Either nothing is left behind the path, or it is what a slash begins.
  obtain rfl | ⟨more, rfl, -⟩ := List.prefix_cons_iff.1 htail
  · rw [List.append_nil]
  · rw [List.splitOn_append_cons_self]
    exact List.prefix_append ..

theorem contains_of_segments {other : String} (hsegments : segments path <+: segments other)
    {scope : String} (h : contains scope path = true) : contains scope other = true := by
  rw [contains_iff] at h ⊢
  obtain hall | ⟨front, hne, hfront, hmatch⟩ := h
  · exact .inl hall
  · exact .inr ⟨front, hne, hfront.trans hsegments, hmatch⟩

end Below

end Scope

namespace Selection
open Scope

theorem isExcluded_ofScopes (included excluded : List String) (path : String) :
    (ofScopes included excluded).isExcluded path = true
      ↔ ∃ scope ∈ excluded, contains (normalize scope) path = true := by
  simp only [isExcluded, ofScopes, List.any_eq_true, Text.mem_textSet, List.mem_map,
    exists_exists_and_eq_and]

/-- Folders that are excluded at any depth exclude the paths that have one of them as a segment. -/
theorem isExcluded_folders {names : List String} (h : ∀ name ∈ names, IsFolder name)
    (included : List String) (path : String) :
    (ofScopes included (names.flatMap fun name => [name, "*/" ++ name])).isExcluded path = true
      ↔ ∃ segment ∈ segments path, segment ∈ names := by
  rw [isExcluded_ofScopes]
  constructor
  · rintro ⟨scope, hscope, hcontains⟩
    obtain ⟨name, hname, hscope⟩ := List.mem_flatMap.1 hscope
    have hfolder := h name hname
    refine ⟨name, (contains_folder_iff hfolder path).1 ?_, hname⟩
    obtain rfl | rfl : scope = name ∨ scope = "*/" ++ name := by simpa using hscope
    · exact .inl (by rwa [hfolder.normalize_name] at hcontains)
    · exact .inr (by rwa [hfolder.normalize_star] at hcontains)
  · rintro ⟨name, hsegment, hname⟩
    have hfolder := h name hname
    obtain hcontains | hcontains := (contains_folder_iff hfolder path).2 hsegment
    · exact ⟨name, List.mem_flatMap.2 ⟨name, hname, by simp⟩, by rwa [hfolder.normalize_name]⟩
    · exact ⟨"*/" ++ name, List.mem_flatMap.2 ⟨name, hname, by simp⟩,
        by rwa [hfolder.normalize_star]⟩

/-- Unless other scopes are given, the modules that are excluded are those with one of four folders
among the segments of their path, at any depth. -/
theorem isExcluded_standard_iff (included : List String) (path : String) :
    (ofScopes included standardExcludes).isExcluded path = true
      ↔ ∃ segment ∈ segments path,
        segment ∈ ["Packages", "_Index", "node_modules", "vendor"] := by
  have hfolders : ∀ name ∈ ["Packages", "_Index", "node_modules", "vendor"], IsFolder name := by
    have hcheck : ∀ name ∈ ["Packages", "_Index", "node_modules", "vendor"],
        name.toList ≠ [] ∧ '/' ∉ name.toList ∧ name.toList.all Glob.isPlain = true
          ∧ normalizeChars name.toList = name.toList := by decide +kernel
    intro name hname
    obtain ⟨hne, hsegment, hplain, hnormal⟩ := hcheck name hname
    exact ⟨hne, hsegment, hplain, hnormal⟩
  exact isExcluded_folders hfolders included path

end Selection

/-- A scope that contains a path in normal form contains whatever is written below the path, and
what excludes the path excludes it. -/
theorem Scope.contains_below {path : String} (hnormal : Scope.normalize path = path)
    (hne : path ≠ "") (rest : String) :
    (∀ scope, Scope.contains scope path = true →
      Scope.contains scope (path ++ "/" ++ rest) = true)
    ∧ ∀ s : Selection, s.isExcluded path = true → s.isExcluded (path ++ "/" ++ rest) = true := by
  have hsegments := Scope.segments_below hnormal hne rest
  refine ⟨fun scope h => Scope.contains_of_segments hsegments h, fun s h => ?_⟩
  obtain ⟨scope, hscope, hcontains⟩ := List.any_eq_true.1 h
  exact Selection.isExcluded_of_mem hscope (Scope.contains_of_segments hsegments hcontains)

theorem Scope.contains_below_sample :
    Scope.normalize "lib/[x" = "lib/[x" ∧ "lib/[x" ≠ ""
    ∧ Scope.contains "\\l[!a-c]b/*[x " "lib/[x" = true
    ∧ Scope.contains "\\l[!a-c]b/*[x " ("lib/[x" ++ "/" ++ "\\ .. /") = true := by
  have hnormal : Scope.normalize "lib/[x" = "lib/[x" := by decide +kernel
  have hne : "lib/[x" ≠ "" := by decide
  have hscope : Scope.normalizeChars "\\l[!a-c]b/*[x ".toList = "l[!a-c]b/*[x".toList := by
    decide +kernel
  have hsegments : Scope.segments "lib/[x" = ["lib", "[x"] := by decide +kernel
  have hcontains : Scope.contains "\\l[!a-c]b/*[x " "lib/[x" = true := by
    refine (Scope.contains_iff _ _).2 (.inr ⟨["lib", "[x"], by simp, by rw [hsegments], ?_⟩)
    rw [hscope]
    simp [Glob.parts, Glob.closeSet, Glob.closeBehind, Glob.setPart, Glob.matchesParts,
      Scope.joined, Glob.Part.accepts, Glob.chunks, Glob.closeChunks, Glob.joinChunk,
      Glob.symbols, Glob.ranges]
  exact ⟨hnormal, hne, hcontains, (Scope.contains_below hnormal hne _).1 _ hcontains⟩

end LuaCoverage

/-! ## Scopes without wildcards -/

namespace LuaCoverage.Scope
open LuaCoverage.Text

theorem segments_ne_nil (path : String) : segments path ≠ [] := by
  rw [segments, ne_eq, List.map_eq_nil_iff]
  exact List.splitOn_ne_nil _ _

/-- The segments of a path make its normal form. -/
theorem joined_segments (path : String) : joined (segments path) = (normalize path).toList := by
  rw [joined, segments, List.map_map]
  simp only [Function.comp_def, String.toList_ofList, List.map_id']
  exact List.intercalate_splitOn '/'

/-- Some of the first segments of a path are the segments of the text they make. -/
theorem eq_segments_of_joined {front : List String} {scope path : String} (hne : front ≠ [])
    (hfront : front <+: segments path) (h : joined front = (normalize scope).toList) :
    front = segments scope := by
  rw [segments, ← h, splitOn_joined hne hfront, List.map_map]
  simp [Function.comp_def]

/-- The segments of a scope come first in a path if a slash follows the scope there, or nothing. -/
theorem segments_prefix_iff (scope path : String) :
    segments scope <+: segments path
      ↔ normalize path = normalize scope
        ∨ ∃ rest, normalize path = normalize scope ++ "/" ++ rest := by
  constructor
  · rintro ⟨back, hback⟩
    have hpath := joined_segments path
    rw [← hback] at hpath
    by_cases hnil : back = []
    · rw [hnil, List.append_nil, joined_segments] at hpath
      exact .inl (String.toList_inj.1 hpath.symm)
    · rw [joined_append (segments_ne_nil scope) hnil, joined_segments] at hpath
      refine .inr ⟨String.ofList (joined back), String.toList_inj.1 ?_⟩
      rw [← hpath]
      simp
  · rintro (heq | ⟨rest, heq⟩)
    · rw [segments, segments, heq]
    · rw [segments, segments, heq, String.toList_append, String.toList_append, List.append_assoc]
      refine List.IsPrefix.map String.ofList ?_
      rw [show "/".toList ++ rest.toList = '/' :: rest.toList from rfl,
        List.splitOn_append_cons_self]
      exact List.prefix_append ..

/-- A scope without wildcards contains the paths whose first segments are its own. A segment is
never matched in part: in a path that is contained the scope ends the path, or is followed by a
slash. -/
theorem contains_plain_iff {scope : String} (hne : normalize scope ≠ "")
    (hplain : ∀ c ∈ (normalize scope).toList, c ≠ '*' ∧ c ≠ '?' ∧ c ≠ '[') (path : String) :
    (contains scope path = true ↔ segments scope <+: segments path)
      ∧ (contains scope path = true
        ↔ normalize path = normalize scope
          ∨ ∃ rest, normalize path = normalize scope ++ "/" ++ rest) := by
  have hall : (normalize scope).toList.all Glob.isPlain = true := by
    rw [List.all_eq_true]
    intro c hc
    simpa [Glob.isPlain, and_assoc] using hplain c hc
  have hnil : (normalize scope).toList ≠ [] := fun hnil => hne (String.toList_inj.1 hnil)
  have hsegments : contains scope path = true ↔ segments scope <+: segments path := by
    rw [contains_iff, ← toList_normalize]
    simp only [hnil, false_or, Glob.parts_of_plain hall, Glob.matches_chars]
    constructor
    · rintro ⟨front, hfrontne, hfront, hjoined⟩
      rwa [eq_segments_of_joined hfrontne hfront hjoined] at hfront
    · intro hfront
      exact ⟨segments scope, segments_ne_nil scope, hfront, joined_segments scope⟩
  exact ⟨hsegments, hsegments.trans (segments_prefix_iff scope path)⟩

theorem contains_plain_iff_samples :
    normalize " src\\game/" ≠ ""
    ∧ (∀ c ∈ (normalize " src\\game/").toList, c ≠ '*' ∧ c ≠ '?' ∧ c ≠ '[')
    ∧ contains " src\\game/" "/src/game//x.lua" = true
    ∧ contains " src\\game/" "src/gamestate.lua" = false := by
  have hnormalize : normalize " src\\game/" = "src/game" := by decide +kernel
  have hne : normalize " src\\game/" ≠ "" := by
    rw [hnormalize]
    decide
  have hplain : ∀ c ∈ (normalize " src\\game/").toList, c ≠ '*' ∧ c ≠ '?' ∧ c ≠ '[' := by
    rw [hnormalize]
    simp
  refine ⟨hne, hplain, ?_, ?_⟩
  · exact (contains_plain_iff hne hplain _).1.2 (by decide +kernel)
  · rw [Bool.eq_false_iff, ne_eq, (contains_plain_iff hne hplain _).1]
    decide +kernel

end LuaCoverage.Scope
